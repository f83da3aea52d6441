import Rulebook.Rule.Basic

/-!
# The store of rules

A store holds compiled rules under their ids, and counts the compilations that
succeeded. A rule is written in two steps, first compiled and then put under its
id; a rule that does not compile changes nothing.
-/

namespace Rulebook

/-- Compiled rules under their ids, and the number of compilations so far. -/
structure Store where
  rules : Table CompiledRule
  compilations : Nat

namespace Store

/-- The store without rules. -/
def empty : Store := ⟨.empty, 0⟩

/-- The rule with an id. -/
def get? (s : Store) (id : String) : Option CompiledRule := s.rules.get? id

/-- The rule with an id, which has to be there. -/
def find (s : Store) (id : String) : Except RuleError CompiledRule :=
  match s.get? id with
  | some c => .ok c
  | none => .error (.notFound id)

/-- The rules with the given ids, in their order; the first id that is unknown
is the error. -/
def findAll (s : Store) (ids : List String) :
    Except RuleError (List CompiledRule) :=
  ids.mapM s.find

/-- Compiles a rule; its version is one more than the compilations before. -/
def compile (s : Store) (r : Rule) : Except RuleError (CompiledRule × Store) :=
  (r.compile (s.compilations + 1)).map fun c =>
    (c, { s with compilations := s.compilations + 1 })

/-- Puts a compiled rule under its id. -/
def put (s : Store) (c : CompiledRule) : Store :=
  { s with rules := s.rules.insert c.rule.id c }

/-- Compiles a rule and puts it under its id, whether or not there is one. -/
def load (s : Store) (r : Rule) : Except RuleError (CompiledRule × Store) :=
  (s.compile r).map fun (c, s) => (c, s.put c)

/-- Compiles a rule and puts it in the place of the one with its id, which has
to be there. -/
def replace (s : Store) (r : Rule) : Except RuleError (CompiledRule × Store) :=
  if s.rules.contains r.id then s.load r else .error (.notFound r.id)

@[simp] theorem get?_empty (id : String) : empty.get? id = none := rfl

@[simp] theorem get?_put (s : Store) (c : CompiledRule) (id : String) :
    (s.put c).get? id = if c.rule.id = id then some c else s.get? id :=
  Table.get?_insert s.rules c.rule.id id c

@[simp] theorem compilations_put (s : Store) (c : CompiledRule) :
    (s.put c).compilations = s.compilations := rfl

/-- Compiling a rule leaves the rules alone and counts. -/
theorem compile_eq_ok_iff {s t : Store} {r : Rule} {c : CompiledRule} :
    s.compile r = .ok (c, t) ↔
      r.compile (s.compilations + 1) = .ok c ∧
        t = { s with compilations := s.compilations + 1 } := by
  unfold compile
  cases r.compile (s.compilations + 1) with
  | error e => simp [Except.map]
  | ok d => simp [Except.map, eq_comm]

/-- Applies the rule with an id to a record. -/
def evaluate (s : Store) (traced : Bool) (id : String) (r : Record) :
    Except RuleError Report :=
  match s.find id with
  | .error e => .error e
  | .ok c => (c.execute traced r).mapError .evaluation

end Store

/-- Whether a rule is listed before another or is the same: rules are listed by
the time of their creation, and those of one time by their ids. -/
def Rule.listedBefore (a b : Rule) : Bool :=
  a.createdAt.before b.createdAt ||
    (a.createdAt.atMost b.createdAt && decide (a.id ≤ b.id))

/-- A part of the list of all rules. -/
structure Page where
  rules : List Rule
  total : Nat
  number : Nat
  limit : Nat
  pages : Nat
deriving DecidableEq

/-- The largest number of rules that can be counted, with 64 bits. -/
def maxCount : Nat := 0xFFFFFFFFFFFFFFFF

/-- How many rules are in front of the page of the given number. Where the
product is more than can be counted, the largest count takes its place. -/
def Page.offset (number limit : Nat) : Nat :=
  min ((number - 1) * limit) maxCount

/-- How many pages there are for a number of rules; the last one need not be
full. -/
def Page.count (total limit : Nat) : Nat :=
  if 0 < total % limit then total / limit + 1 else total / limit

/-- Numbers about the rules in a store. -/
structure Statistics where
  rules : Nat
  combined : Nat
  fields : Nat
deriving DecidableEq, Repr

/-- The average number of fields that a rule needs; zero if there are no
rules. -/
def Statistics.fieldsPerRule (s : Statistics) : Binary64 :=
  if s.rules = 0 then .zero false else .nearest false s.fields s.rules

namespace Store

/-- All rules in the order in which they are listed. -/
def listing (s : Store) : List Rule :=
  (s.rules.values.map CompiledRule.rule).mergeSort Rule.listedBefore

/-- The page of the given number, counted from one, with at most `limit`
rules. -/
def pageAt (s : Store) (number limit : Nat) : Page where
  rules := (s.listing.drop (Page.offset number limit)).take limit
  total := s.rules.size
  number := number
  limit := limit
  pages := Page.count s.rules.size limit

/-- The page of the given number, which has to be at least one, and so has the
number of rules on it. -/
def page (s : Store) (number limit : Nat) : Except RuleError Page :=
  if number = 0 ∨ limit = 0 then .error (.invalidPage number limit)
  else .ok (s.pageAt number limit)

/-- The number of rules, of those that were combined from others, and of the
fields that they need. -/
def statistics (s : Store) : Statistics where
  rules := s.rules.size
  combined := s.rules.values.countP fun c => !c.rule.parents.isEmpty
  fields := (s.rules.values.flatMap CompiledRule.requiredFields).length

end Store

end Rulebook
