import Mathlib
import Rulebook.Proofs.Viability

/-!
# Reading by recursive descent

Tokens can be read by two procedures that call each other, one for a level and
one for a term. Both move one cursor, which has the index of the next token and
counts the groups that are open: one more behind an opening parenthesis, and one
less behind a closing one. The count is an integer here, so nothing but a proof
keeps it from falling below zero. Wherever a procedure fails, it leaves the cursor
where it is, with what has been counted so far.

A descent comes to what reading token by token comes to, and leaves the cursor
where that stops.
-/

namespace Rulebook

/-- The index of the next token, and the number of groups that count as
open. -/
structure Cursor where
  position : Nat
  depth : Int
deriving DecidableEq

/-- What a descent comes to that starts at an index: its answer, and where it
leaves the cursor. The turns are the places at which the number of open groups
was changed. -/
structure Descent (α : Type) (start : Nat) where
  answer : Except ParseError α
  cursor : Cursor
  turns : List Cursor
  start_le : start ≤ cursor.position

/-- The token at an index. -/
def tokenAt (tokens : List Lexeme) (k : Nat) : Option Token :=
  tokens[k]?.map Lexeme.token

theorem lt_length_of_tokenAt {tokens : List Lexeme} {k : Nat} {t : Token}
    (h : tokenAt tokens k = some t) : k < tokens.length := by
  obtain ⟨lexeme, hlexeme, -⟩ := Option.map_eq_some_iff.mp h
  exact (List.getElem?_eq_some_iff.mp hlexeme).1

namespace Descent

variable {α β : Type} {start : Nat}

/-- No descent brings tokens back. -/
theorem remaining_le (d : Descent α start) (tokens : List Lexeme) :
    2 * (tokens.length - d.cursor.position) ≤ 2 * (tokens.length - start) := by
  have := d.start_le
  omega

/-- The descent fails where the cursor is. -/
def fail (tokens : List Lexeme) (cause : ParseCause) (c : Cursor) :
    Descent α c.position :=
  ⟨.error (.misplaced (placeAt tokens c.position) cause), c, [], le_rfl⟩

/-- The descent fails because something else is expected where the cursor
is. -/
def expect (tokens : List Lexeme) (expected : Expectation) (c : Cursor) :
    Descent α c.position :=
  fail tokens (.unexpected expected (tokenAt tokens c.position)) c

/-- A descent that is part of another one, which starts earlier and has made some
turns before. -/
def within (turns : List Cursor) {inner : Nat} (h : start ≤ inner)
    (d : Descent α inner) : Descent α start :=
  ⟨d.answer, d.cursor, turns ++ d.turns, h.trans d.start_le⟩

/-- A descent, and another one behind it if it does not fail. -/
def andThen (d : Descent α start) (next : α → Descent β d.cursor.position) :
    Descent β start :=
  match d.answer with
  | .error e => ⟨.error e, d.cursor, d.turns, d.start_le⟩
  | .ok a => within d.turns d.start_le (next a)

end Descent

namespace Cursor

/-- Reads the literal of a condition. -/
def literal (tokens : List Lexeme) (field : String) (op : Operator)
    (c : Cursor) : Descent Term c.position :=
  match tokenAt tokens c.position with
  | some (.literal value) =>
    ⟨.ok (.condition ⟨field, op, value⟩), ⟨c.position + 1, c.depth⟩, [],
      Nat.le_succ _⟩
  | _ => .expect tokens .literal c

/-- Reads the operator of a condition, and its literal. -/
def operator (tokens : List Lexeme) (field : String) (c : Cursor) :
    Descent Term c.position :=
  match tokenAt tokens c.position with
  | some (.operator op) =>
    .within [] (Nat.le_succ _)
      (literal tokens field op ⟨c.position + 1, c.depth⟩)
  | _ => .expect tokens .operator c

/-- Reads the parenthesis that closes a group. -/
def closing (tokens : List Lexeme) (body : Expression) (c : Cursor) :
    Descent Term c.position :=
  match tokenAt tokens c.position with
  | some .closing =>
    let outside : Cursor := ⟨c.position + 1, c.depth - 1⟩
    ⟨.ok (.group body), outside, [outside], Nat.le_succ _⟩
  | _ => .expect tokens .closing c

mutual

/-- Reads a term. -/
def term (tokens : List Lexeme) (c : Cursor) : Descent Term c.position :=
  match _h : tokenAt tokens c.position with
  | some .opening =>
    if maxDepth ≤ c.depth then .fail tokens .nestingTooDeep c
    else
      let inside : Cursor := ⟨c.position + 1, c.depth + 1⟩
      .within [inside] (Nat.le_succ _)
        ((inside.level tokens).andThen fun body => closing tokens body _)
  | some (.field name) =>
    .within [] (Nat.le_succ _)
      (operator tokens name ⟨c.position + 1, c.depth⟩)
  | _ => .expect tokens .term c
termination_by 2 * (tokens.length - c.position)
decreasing_by
  have := lt_length_of_tokenAt _h
  omega

/-- Reads a level. -/
def level (tokens : List Lexeme) (c : Cursor) :
    Descent Expression c.position :=
  (c.term tokens).andThen fun t =>
    (c.term tokens).cursor.more tokens (.single t)
termination_by 2 * (tokens.length - c.position) + 1
decreasing_by
  · exact Nat.lt_succ_self _
  · exact Nat.lt_succ_of_le (Descent.remaining_le _ tokens)

/-- Reads what follows the terms that have been read of a level. -/
def more (tokens : List Lexeme) (c : Cursor) (e : Expression) :
    Descent Expression c.position :=
  match _h : tokenAt tokens c.position with
  | some (.connector k) =>
    match e.connector?.filter (· ≠ k) with
    | some own => .fail tokens (.mixedConnectors own k) c
    | none =>
      let behind : Cursor := ⟨c.position + 1, c.depth⟩
      .within [] (Nat.le_succ _)
        ((behind.term tokens).andThen fun t =>
          (behind.term tokens).cursor.more tokens (e.snoc k t))
  | _ => ⟨.ok e, c, [], le_rfl⟩
termination_by 2 * (tokens.length - c.position)
decreasing_by
  · have := lt_length_of_tokenAt _h
    omega
  · have := lt_length_of_tokenAt _h
    refine (Descent.remaining_le _ tokens).trans_lt ?_
    omega

end

/-- Reads what follows the outermost level, which has to be nothing. -/
def finish (tokens : List Lexeme) (e : Expression) (c : Cursor) :
    Descent Expression c.position :=
  match tokenAt tokens c.position with
  | none => ⟨.ok e, c, [], le_rfl⟩
  | some _ => .expect tokens .connector c

end Cursor

/-- Reads one expression up to the end of the tokens, by descent. -/
def Parser.descend (p : Parser) : Descent Expression p.position :=
  if p.tokens.isEmpty then
    ⟨.error .empty, ⟨p.position, p.depth⟩, [], le_rfl⟩
  else
    (Cursor.level p.tokens ⟨p.position, p.depth⟩).andThen fun e =>
      Cursor.finish p.tokens e _

/-! ## Descents and steps -/

/-- The place after the last token. -/
def stopOf (tokens : List Lexeme) : Nat :=
  (tokens.getLast?.map Lexeme.stop).getD 0

section Reads

variable {α β : Type} {start : Nat} {tokens : List Lexeme} {depth : Nat}
  {p : Progress}

/-- A descent comes to what reading token by token comes to, from where the
descent starts. -/
def Descent.Ends (tokens : List Lexeme) (depth : Nat) (p : Progress)
    (d : Descent α start) (answer : Except ParseError Expression) : Prop :=
  ∃ groups : Nat,
    p.read depth (stopOf tokens) (tokens.drop start) =
      ⟨answer, tokens.drop d.cursor.position, groups⟩ ∧
    d.cursor.depth = depth + groups

/-- A part of a descent comes to a state from which reading token by token goes
on, or fails as that does. -/
structure Descent.Reads (tokens : List Lexeme) (depth : Nat) (p : Progress)
    (after : α → Progress) (d : Descent α start) : Prop where
  of_ok : ∀ a, d.answer = .ok a →
    p.read depth (stopOf tokens) (tokens.drop start) =
        (after a).read depth (stopOf tokens)
          (tokens.drop d.cursor.position) ∧
      d.cursor.depth = depth + (after a).openGroups
  of_error : ∀ e, d.answer = .error e → d.Ends tokens depth p (.error e)

theorem Progress.read_of_step {k : Nat} {t : Token} {q : Progress}
    (ht : tokenAt tokens k = some t) (hstep : p.step depth t = .ok q) :
    p.read depth (stopOf tokens) (tokens.drop k) =
      q.read depth (stopOf tokens) (tokens.drop (k + 1)) := by
  have hk := lt_length_of_tokenAt ht
  obtain ⟨lexeme, hlexeme, rfl⟩ := Option.map_eq_some_iff.mp ht
  rw [List.drop_eq_getElem_cons hk, read]
  rw [List.getElem?_eq_getElem hk] at hlexeme
  cases hlexeme
  rw [hstep]

theorem Progress.read_of_refusal {k : Nat} {cause : ParseCause}
    (htoken : ∀ t, tokenAt tokens k = some t → p.step depth t = .error cause)
    (hend : tokenAt tokens k = none → p.finish = .error cause) :
    p.read depth (stopOf tokens) (tokens.drop k) =
      ⟨.error (.misplaced (placeAt tokens k) cause), tokens.drop k,
        p.openGroups⟩ := by
  by_cases hk : k < tokens.length
  · have hlexeme := List.getElem?_eq_getElem hk
    rw [List.drop_eq_getElem_cons hk, read, htoken tokens[k].token
      (congrArg (Option.map Lexeme.token) hlexeme), placeAt, hlexeme]
    rfl
  · have hnone : tokens[k]? = none := List.getElem?_eq_none (not_lt.mp hk)
    rw [List.drop_eq_nil_of_le (not_lt.mp hk), read,
      hend (congrArg (Option.map Lexeme.token) hnone), placeAt, hnone]
    rfl

/-- A descent that does not fail leaves the cursor in front of no connector. -/
def Descent.Stops (tokens : List Lexeme) (d : Descent α start) : Prop :=
  ∀ a, d.answer = .ok a → ∀ k,
    tokenAt tokens d.cursor.position ≠ some (.connector k)

theorem Descent.Stops.andThen {d : Descent α start}
    {next : α → Descent β d.cursor.position}
    (h : ∀ a, (next a).Stops tokens) : (d.andThen next).Stops tokens := by
  unfold Descent.andThen
  split
  · exact nofun
  · next a _ => exact h a

namespace Descent.Reads

variable {after : α → Progress} {d : Descent α start}

theorem andThen {mid : α → Progress} {after : β → Progress}
    {next : α → Descent β d.cursor.position}
    (h : d.Reads tokens depth p mid)
    (hnext : ∀ a, d.answer = .ok a →
      d.cursor.depth = depth + (mid a).openGroups →
        (next a).Reads tokens depth (mid a) after) :
    (d.andThen next).Reads tokens depth p after := by
  unfold Descent.andThen
  split
  · next e he =>
    refine ⟨nofun, ?_⟩
    rintro _ ⟨⟩
    exact h.of_error e he
  · next a ha =>
    obtain ⟨hread, hdepth⟩ := h.of_ok a ha
    have hbehind := hnext a ha hdepth
    constructor
    · intro b hb
      obtain ⟨hread', hdepth'⟩ := hbehind.of_ok b hb
      exact ⟨hread.trans hread', hdepth'⟩
    · intro e he
      obtain ⟨groups, hread', hdepth'⟩ := hbehind.of_error e he
      exact ⟨groups, hread.trans hread', hdepth'⟩

theorem within {q : Progress} {t : Token} {d : Descent α (start + 1)}
    (ht : tokenAt tokens start = some t) (hstep : p.step depth t = .ok q)
    (h : d.Reads tokens depth q after) (turns : List Cursor) :
    (d.within turns (Nat.le_succ start)).Reads tokens depth p after := by
  have hread := Progress.read_of_step ht hstep
  constructor
  · intro a ha
    obtain ⟨hread', hdepth⟩ := h.of_ok a ha
    exact ⟨hread.trans hread', hdepth⟩
  · intro e he
    obtain ⟨groups, hread', hdepth⟩ := h.of_error e he
    exact ⟨groups, hread.trans hread', hdepth⟩

theorem fail {c : Cursor} {cause : ParseCause}
    (hdepth : c.depth = depth + p.openGroups)
    (htoken : ∀ t, tokenAt tokens c.position = some t →
      p.step depth t = .error cause)
    (hend : tokenAt tokens c.position = none → p.finish = .error cause) :
    (Descent.fail tokens cause c).Reads tokens depth p after := by
  refine ⟨nofun, ?_⟩
  rintro _ ⟨⟩
  exact ⟨p.openGroups, Progress.read_of_refusal htoken hend, hdepth⟩

theorem expect {c : Cursor} {expected : Expectation}
    (hdepth : c.depth = depth + p.openGroups)
    (htoken : ∀ t, tokenAt tokens c.position = some t →
      p.step depth t = .error (.unexpected expected (some t)))
    (hend : p.finish = .error (.unexpected expected none)) :
    (Descent.expect tokens expected c).Reads tokens depth p after :=
  fail hdepth (fun t ht => by rw [ht, htoken t ht])
    (fun hnone => by rw [hnone, hend])

theorem last {a : α} {t : Token} {turns : List Cursor} {groups : Int}
    (ht : tokenAt tokens start = some t)
    (hstep : p.step depth t = .ok (after a))
    (hdepth : groups = depth + (after a).openGroups) :
    (⟨.ok a, ⟨start + 1, groups⟩, turns, Nat.le_succ start⟩ :
      Descent α start).Reads tokens depth p after := by
  refine ⟨?_, nofun⟩
  rintro _ ⟨⟩
  exact ⟨Progress.read_of_step ht hstep, hdepth⟩

end Descent.Reads

/-! ## Every procedure does what the steps do -/

namespace Cursor

variable {enclosing : List Pending} {before : Pending}

theorem literal_reads (field : String) (op : Operator) (c : Cursor)
    (h : c.depth = depth + enclosing.length) :
    (c.literal tokens field op).Reads tokens depth
      ⟨enclosing, .literal before field op⟩
      fun t => ⟨enclosing, .complete (before.complete t)⟩ := by
  unfold literal
  split
  · next value ht => exact .last ht rfl h
  · next hother =>
    refine .expect h (fun t ht => ?_) rfl
    cases t with
    | literal value => exact absurd ht (hother value)
    | _ => rfl

theorem operator_reads (field : String) (c : Cursor)
    (h : c.depth = depth + enclosing.length) :
    (c.operator tokens field).Reads tokens depth
      ⟨enclosing, .operator before field⟩
      fun t => ⟨enclosing, .complete (before.complete t)⟩ := by
  unfold operator
  split
  · next op ht =>
    exact .within ht (q := ⟨enclosing, .literal before field op⟩) rfl
      (literal_reads field op ⟨c.position + 1, c.depth⟩ h) []
  · next hother =>
    refine .expect h (fun t ht => ?_) rfl
    cases t with
    | operator op => exact absurd ht (hother op)
    | _ => rfl

theorem closing_reads (body : Expression) (c : Cursor)
    (h : c.depth = depth + (before :: enclosing).length)
    (hstops : ∀ k, tokenAt tokens c.position ≠ some (.connector k)) :
    (c.closing tokens body).Reads tokens depth
      ⟨before :: enclosing, .complete body⟩
      fun t => ⟨enclosing, .complete (before.complete t)⟩ := by
  unfold closing
  split
  · next ht =>
    refine .last ht rfl ?_
    simp only [Progress.openGroups, List.length_cons] at h ⊢
    omega
  · next hother =>
    refine .expect h (fun t ht => ?_) rfl
    cases t with
    | closing => exact absurd ht hother
    | connector k => exact absurd ht (hstops k)
    | _ => rfl

/-- A level is not left in front of a connector. -/
theorem more_stops (tokens : List Lexeme) (c : Cursor) (e : Expression) :
    (c.more tokens e).Stops tokens := by
  rw [more]
  split
  · next k ht =>
    have := lt_length_of_tokenAt ht
    split
    · exact nofun
    · exact Descent.Stops.andThen fun t =>
        more_stops tokens (term tokens ⟨c.position + 1, c.depth⟩).cursor
          (e.snoc k t)
  · next hother =>
    intro _ _ k ht
    exact hother k ht
termination_by 2 * (tokens.length - c.position)
decreasing_by
  refine (Descent.remaining_le _ tokens).trans_lt ?_
  omega

theorem level_stops (tokens : List Lexeme) (c : Cursor) :
    (c.level tokens).Stops tokens := by
  rw [level]
  exact .andThen fun t => more_stops tokens _ (.single t)

mutual

theorem term_reads (tokens : List Lexeme) (depth : Nat)
    (enclosing : List Pending) (before : Pending) (c : Cursor)
    (h : c.depth = depth + enclosing.length) :
    (c.term tokens).Reads tokens depth ⟨enclosing, .term before⟩
      fun t => ⟨enclosing, .complete (before.complete t)⟩ := by
  rw [term]
  split
  · next ht =>
    have := lt_length_of_tokenAt ht
    split
    · next hfull =>
      refine .fail h (fun t ht' => ?_) fun hnone => ?_
      · cases ht.symm.trans ht'
        refine if_pos ?_
        change maxDepth ≤ depth + enclosing.length
        omega
      · cases ht.symm.trans hnone
    · next hroom =>
      let inside : Cursor := ⟨c.position + 1, c.depth + 1⟩
      have hinside : inside.depth = depth + (before :: enclosing).length := by
        simp only [inside, List.length_cons]
        omega
      have hopening : Progress.Reads depth ⟨enclosing, .term before⟩ .opening
          ⟨before :: enclosing, .term none⟩ := .opening (by omega)
      refine .within ht hopening.step_eq_ok (.andThen
        (level_reads tokens depth (before :: enclosing) inside hinside)
        fun body hbody hdepth => ?_) _
      exact closing_reads body _ hdepth (level_stops tokens inside body hbody)
  · next name ht =>
    exact .within ht (q := ⟨enclosing, .operator before name⟩) rfl
      (operator_reads name ⟨c.position + 1, c.depth⟩ h) []
  · next hopening hfield =>
    refine .expect h (fun t ht => ?_) rfl
    cases t with
    | opening => exact absurd ht hopening
    | field name => exact absurd ht (hfield name)
    | _ => rfl
termination_by 2 * (tokens.length - c.position)

theorem level_reads (tokens : List Lexeme) (depth : Nat)
    (enclosing : List Pending) (c : Cursor)
    (h : c.depth = depth + enclosing.length) :
    (c.level tokens).Reads tokens depth ⟨enclosing, .term none⟩
      fun e => ⟨enclosing, .complete e⟩ := by
  rw [level]
  refine .andThen (term_reads tokens depth enclosing none c h) fun t _ ht => ?_
  exact more_reads tokens depth enclosing _ (.single t) ht
termination_by 2 * (tokens.length - c.position) + 1
decreasing_by
  · exact Nat.lt_succ_self _
  · exact Nat.lt_succ_of_le (Descent.remaining_le _ tokens)

theorem more_reads (tokens : List Lexeme) (depth : Nat)
    (enclosing : List Pending) (c : Cursor) (e : Expression)
    (h : c.depth = depth + enclosing.length) :
    (c.more tokens e).Reads tokens depth ⟨enclosing, .complete e⟩
      fun f => ⟨enclosing, .complete f⟩ := by
  rw [more]
  split
  · next k ht =>
    have := lt_length_of_tokenAt ht
    split
    · next own hown =>
      obtain ⟨hown, hne⟩ := Option.filter_eq_some_iff.mp hown
      refine .fail h (fun t ht' => ?_) fun hnone => ?_
      · cases ht.symm.trans ht'
        exact Progress.step_of_mixed hown (by simpa using hne)
      · cases ht.symm.trans hnone
    · next hnone =>
      have haccepts : e.Accepts k := by
        cases hown : e.connector? with
        | none => exact .inl hown
        | some own =>
            rw [hown] at hnone
            exact .inr (by simpa [hown] using hnone)
      have hconnector : Progress.Reads depth ⟨enclosing, .complete e⟩
          (.connector k) ⟨enclosing, .term (some (e, k))⟩ := .connector haccepts
      refine .within ht hconnector.step_eq_ok (.andThen
        (term_reads tokens depth enclosing (some (e, k))
          ⟨c.position + 1, c.depth⟩ h) fun t _ hdepth => ?_) _
      exact more_reads tokens depth enclosing _ (e.snoc k t) hdepth
  · exact ⟨by rintro _ ⟨⟩; exact ⟨rfl, h⟩, nofun⟩
termination_by 2 * (tokens.length - c.position)
decreasing_by
  · omega
  · refine (Descent.remaining_le _ tokens).trans_lt ?_
    omega

end

end Cursor

/-! ## Where the cursor goes -/

/-- A part of a descent stays among the tokens, and the number of open groups
stays between a least one and the limit and comes to a final one if nothing
fails. Each turn is behind the ones before it. -/
structure Descent.IsBounded (tokens : List Lexeme) (least final : Int)
    (d : Descent α start) : Prop where
  position_le : d.cursor.position ≤ tokens.length
  depth_mem : least ≤ d.cursor.depth ∧ d.cursor.depth ≤ maxDepth
  depth_of_ok : ∀ a, d.answer = .ok a → d.cursor.depth = final
  turns_mem : ∀ turn ∈ d.turns, start < turn.position ∧
    turn.position ≤ d.cursor.position ∧
      least ≤ turn.depth ∧ turn.depth ≤ maxDepth
  turns_sorted : d.turns.Pairwise fun a b => a.position < b.position

namespace Descent.IsBounded

variable {least mid final : Int}

theorem mono {d : Descent α start} {lower : Int}
    (h : d.IsBounded tokens least final) (hle : lower ≤ least) :
    d.IsBounded tokens lower final where
  position_le := h.position_le
  depth_mem := ⟨hle.trans h.depth_mem.1, h.depth_mem.2⟩
  depth_of_ok := h.depth_of_ok
  turns_mem turn hturn := by
    obtain ⟨hafter, hbefore, hleast, hmost⟩ := h.turns_mem turn hturn
    exact ⟨hafter, hbefore, hle.trans hleast, hmost⟩
  turns_sorted := h.turns_sorted

theorem within {inner : Nat} {d : Descent α inner} {turns : List Cursor}
    (h : d.IsBounded tokens least final) (hle : start ≤ inner)
    (hmem : ∀ turn ∈ turns, start < turn.position ∧ turn.position ≤ inner ∧
      least ≤ turn.depth ∧ turn.depth ≤ maxDepth)
    (hsorted : turns.Pairwise fun a b => a.position < b.position) :
    (d.within turns hle).IsBounded tokens least final where
  position_le := h.position_le
  depth_mem := h.depth_mem
  depth_of_ok := h.depth_of_ok
  turns_mem turn hturn := by
    rcases List.mem_append.mp hturn with hturn | hturn
    · obtain ⟨hafter, hbefore, hdepth⟩ := hmem turn hturn
      exact ⟨hafter, hbefore.trans d.start_le, hdepth⟩
    · obtain ⟨hafter, hrest⟩ := h.turns_mem turn hturn
      exact ⟨hle.trans_lt hafter, hrest⟩
  turns_sorted := by
    refine List.pairwise_append.mpr ⟨hsorted, h.turns_sorted, ?_⟩
    intro a ha b hb
    exact (hmem a ha).2.1.trans_lt (h.turns_mem b hb).1

theorem within_nil {inner : Nat} {d : Descent α inner}
    (h : d.IsBounded tokens least final) (hle : start ≤ inner) :
    (d.within [] hle).IsBounded tokens least final :=
  h.within hle (by simp) .nil

theorem andThen {d : Descent α start} {next : α → Descent β d.cursor.position}
    (h : d.IsBounded tokens least mid)
    (hnext : ∀ a, d.cursor.depth = mid →
      (next a).IsBounded tokens least final) :
    (d.andThen next).IsBounded tokens least final := by
  unfold Descent.andThen
  split
  · exact ⟨h.position_le, h.depth_mem, nofun, h.turns_mem, h.turns_sorted⟩
  · next a ha =>
    exact (hnext a (h.depth_of_ok a ha)).within d.start_le h.turns_mem
      h.turns_sorted

theorem fail {c : Cursor} {cause : ParseCause}
    (hposition : c.position ≤ tokens.length) (hleast : least ≤ c.depth)
    (hdepth : c.depth ≤ maxDepth) :
    (Descent.fail tokens cause c : Descent α c.position).IsBounded
      tokens least final :=
  ⟨hposition, ⟨hleast, hdepth⟩, nofun, by simp [Descent.fail], .nil⟩

end Descent.IsBounded

namespace Cursor

theorem literal_isBounded (field : String) (op : Operator) {c : Cursor}
    (hposition : c.position ≤ tokens.length) (hdepth : c.depth ≤ maxDepth) :
    (c.literal tokens field op).IsBounded tokens c.depth c.depth := by
  unfold literal
  split
  · next ht =>
    exact ⟨lt_length_of_tokenAt ht, ⟨le_rfl, hdepth⟩, fun _ _ => rfl, by simp,
      .nil⟩
  · exact .fail hposition le_rfl hdepth

theorem operator_isBounded (field : String) {c : Cursor}
    (hposition : c.position ≤ tokens.length) (hdepth : c.depth ≤ maxDepth) :
    (c.operator tokens field).IsBounded tokens c.depth c.depth := by
  unfold operator
  split
  · next ht =>
    have hbehind : c.position + 1 ≤ tokens.length := lt_length_of_tokenAt ht
    exact (literal_isBounded (c := ⟨c.position + 1, c.depth⟩) field _ hbehind
      hdepth).within_nil _
  · exact .fail hposition le_rfl hdepth

theorem closing_isBounded (tokens : List Lexeme) (body : Expression)
    {c : Cursor}
    (hposition : c.position ≤ tokens.length) (hdepth : c.depth ≤ maxDepth) :
    (c.closing tokens body).IsBounded tokens (c.depth - 1) (c.depth - 1) := by
  unfold closing
  split
  · next ht =>
    have hle : c.depth - 1 ≤ maxDepth := by omega
    refine ⟨lt_length_of_tokenAt ht, ⟨le_rfl, hle⟩, fun _ _ => rfl, ?_,
      List.pairwise_singleton _ _⟩
    intro turn hturn
    obtain rfl := List.mem_singleton.mp hturn
    exact ⟨Nat.lt_succ_self _, le_rfl, le_rfl, hle⟩
  · exact .fail hposition (by omega) hdepth

mutual

theorem term_isBounded (tokens : List Lexeme) (c : Cursor)
    (hposition : c.position ≤ tokens.length) (hdepth : c.depth ≤ maxDepth) :
    (c.term tokens).IsBounded tokens c.depth c.depth := by
  rw [term]
  split
  · next ht =>
    have hbehind : c.position + 1 ≤ tokens.length := lt_length_of_tokenAt ht
    split
    · exact .fail hposition le_rfl hdepth
    · next hroom =>
      let inside : Cursor := ⟨c.position + 1, c.depth + 1⟩
      have hinside : c.depth + 1 ≤ maxDepth := by omega
      have hlevel := level_isBounded tokens inside hbehind hinside
      have hgroup : ((inside.level tokens).andThen fun body =>
          closing tokens body _).IsBounded tokens c.depth c.depth := by
        refine (hlevel.mono (Int.le_add_one le_rfl)).andThen
          fun body hmid => ?_
        have hclosing := closing_isBounded tokens body
          hlevel.position_le hlevel.depth_mem.2
        have hback : (inside.level tokens).cursor.depth - 1 = c.depth := by
          rw [hmid]
          exact Int.add_sub_cancel _ _
        rwa [hback] at hclosing
      refine hgroup.within _ ?_ (List.pairwise_singleton _ _)
      intro turn hturn
      obtain rfl := List.mem_singleton.mp hturn
      exact ⟨Nat.lt_succ_self _, le_rfl, Int.le_add_one le_rfl, hinside⟩
  · next name ht =>
    have hbehind : c.position + 1 ≤ tokens.length := lt_length_of_tokenAt ht
    exact (operator_isBounded (c := ⟨c.position + 1, c.depth⟩) name hbehind
      hdepth).within_nil _
  · exact .fail hposition le_rfl hdepth
termination_by 2 * (tokens.length - c.position)

theorem level_isBounded (tokens : List Lexeme) (c : Cursor)
    (hposition : c.position ≤ tokens.length) (hdepth : c.depth ≤ maxDepth) :
    (c.level tokens).IsBounded tokens c.depth c.depth := by
  rw [level]
  have hfirst := term_isBounded tokens c hposition hdepth
  refine hfirst.andThen fun t hmid => ?_
  have hmore := more_isBounded tokens _ (.single t) hfirst.position_le
    hfirst.depth_mem.2
  rwa [hmid] at hmore
termination_by 2 * (tokens.length - c.position) + 1
decreasing_by
  · exact Nat.lt_succ_self _
  · exact Nat.lt_succ_of_le (Descent.remaining_le _ tokens)

theorem more_isBounded (tokens : List Lexeme) (c : Cursor) (e : Expression)
    (hposition : c.position ≤ tokens.length) (hdepth : c.depth ≤ maxDepth) :
    (c.more tokens e).IsBounded tokens c.depth c.depth := by
  rw [more]
  split
  · next k ht =>
    have hbehind : c.position + 1 ≤ tokens.length := lt_length_of_tokenAt ht
    split
    · exact .fail hposition le_rfl hdepth
    · have hnext := term_isBounded tokens ⟨c.position + 1, c.depth⟩ hbehind
        hdepth
      refine (hnext.andThen fun t hmid => ?_).within_nil _
      have hmore := more_isBounded tokens _ (e.snoc k t) hnext.position_le
        hnext.depth_mem.2
      rwa [hmid] at hmore
  · exact ⟨hposition, ⟨le_rfl, hdepth⟩, fun _ _ => rfl, by simp, .nil⟩
termination_by 2 * (tokens.length - c.position)
decreasing_by
  · omega
  · refine (Descent.remaining_le _ tokens).trans_lt ?_
    omega

end

theorem finish_isBounded (tokens : List Lexeme) (e : Expression) {c : Cursor}
    (hposition : c.position ≤ tokens.length) (hdepth : c.depth ≤ maxDepth) :
    (c.finish tokens e).IsBounded tokens c.depth c.depth := by
  unfold finish
  split
  · exact ⟨hposition, ⟨le_rfl, hdepth⟩, fun _ _ => rfl, by simp, .nil⟩
  · exact .fail hposition le_rfl hdepth

end Cursor

end Reads

/-! ## The answers of a parser -/

namespace Cursor

variable {tokens : List Lexeme} {depth : Nat}

theorem finish_ends (e : Expression) (c : Cursor)
    (h : c.depth = depth + ([] : List Pending).length)
    (hstops : ∀ k, tokenAt tokens c.position ≠ some (.connector k)) :
    (c.finish tokens e).Ends tokens depth ⟨[], .complete e⟩
      (c.finish tokens e).answer := by
  unfold finish
  split
  · next hnone =>
    have hend : tokens.length ≤ c.position :=
      List.getElem?_eq_none_iff.mp (Option.map_eq_none_iff.mp hnone)
    refine ⟨0, ?_, h⟩
    rw [List.drop_eq_nil_of_le hend]
    rfl
  · next found hfound =>
    refine ⟨0, Progress.read_of_refusal (fun t ht => ?_) fun hnone => ?_, h⟩
    · rw [ht]
      cases t with
      | connector k => exact absurd ht (hstops k)
      | _ => rfl
    · cases hfound.symm.trans hnone

end Cursor

namespace Parser

variable {p : Parser}

theorem descend_ends (h : p.tokens ≠ []) :
    p.descend.Ends p.tokens p.depth .start p.descend.answer := by
  have hlevel := Cursor.level_reads p.tokens p.depth []
    ⟨p.position, p.depth⟩ (by simp)
  rw [descend, if_neg (by simpa using h), Descent.andThen]
  split
  · next e he => exact hlevel.of_error e he
  · next e he =>
    obtain ⟨hread, hdepth⟩ := hlevel.of_ok e he
    obtain ⟨groups, hread', hdepth'⟩ := Cursor.finish_ends e _ hdepth
      (Cursor.level_stops p.tokens _ e he)
    exact ⟨groups, hread.trans hread', hdepth'⟩

theorem descend_isBounded (hposition : p.position ≤ p.tokens.length)
    (hdepth : p.depth ≤ maxDepth) :
    p.descend.IsBounded p.tokens p.depth p.depth := by
  have hdepth : (p.depth : Int) ≤ maxDepth := by exact_mod_cast hdepth
  unfold descend
  split
  · exact ⟨hposition, ⟨le_rfl, hdepth⟩, nofun, by simp, .nil⟩
  · have hlevel := Cursor.level_isBounded p.tokens ⟨p.position, p.depth⟩
      hposition hdepth
    refine hlevel.andThen fun e hmid => ?_
    have hfinish := Cursor.finish_isBounded p.tokens e
      hlevel.position_le hlevel.depth_mem.2
    rwa [hmid] at hfinish

theorem parse_eq_read (h : p.tokens ≠ []) :
    let reading := Progress.start.read p.depth (stopOf p.tokens)
      (p.tokens.drop p.position)
    p.parse = (reading.answer, { p with
      position := p.tokens.length - reading.rest.length
      depth := p.depth + reading.openGroups }) := by
  rw [parse, if_neg (by simpa using h)]
  rfl

/-- A parser comes to the answer of a descent, and goes on where that left the
cursor. -/
theorem parse_eq_descend (hposition : p.position ≤ p.tokens.length)
    (hdepth : p.depth ≤ maxDepth) :
    p.parse.1 = p.descend.answer ∧
      p.descend.cursor = ⟨p.parse.2.position, p.parse.2.depth⟩ := by
  have hbounded := descend_isBounded hposition hdepth
  by_cases hempty : p.tokens = []
  · simp [parse, descend, hempty]
  · obtain ⟨groups, hread, hgroups⟩ := descend_ends hempty
    have hback : p.tokens.length -
        (p.tokens.drop p.descend.cursor.position).length =
          p.descend.cursor.position := by
      have := hbounded.position_le
      rw [List.length_drop]
      omega
    rw [parse_eq_read hempty, hread, hback]
    refine ⟨rfl, ?_⟩
    rw [Nat.cast_add, ← hgroups]

end Parser

end Rulebook
