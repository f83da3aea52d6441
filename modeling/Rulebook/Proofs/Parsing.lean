import Rulebook.Proofs.Grammar

/-!
# What the parser accepts

What has been read so far can be written down as tokens again, and each step
adds the token that it reads. So an answer is spelled by the tokens that led to
it. Conversely the tokens of an expression lead from an empty level to that
expression, whatever is open around it, as long as there is room for its
groups.
-/

namespace Rulebook

/-! ## Running over tokens -/

namespace Progress

/-- What has been read after some more tokens. -/
def run (depth : Nat) (p : Progress) (tokens : List Token) :
    Except ParseCause Progress :=
  tokens.foldlM (Progress.step depth) p

@[simp] theorem run_nil (depth : Nat) (p : Progress) :
    p.run depth [] = .ok p := rfl

theorem run_cons
    {depth : Nat} {p q : Progress} {t : Token}
    (h : p.step depth t = .ok q) (tokens : List Token) :
    p.run depth (t :: tokens) = q.run depth tokens := by
  rw [run, List.foldlM_cons, h]
  rfl

theorem run_cons_eq_ok_iff
    {depth : Nat} {p r : Progress} {t : Token} {tokens : List Token} :
    p.run depth (t :: tokens) = .ok r ↔
      ∃ q, p.step depth t = .ok q ∧ q.run depth tokens = .ok r := by
  cases h : p.step depth t with
  | error cause =>
      rw [run, List.foldlM_cons, h]
      simp [bind, Except.bind]
  | ok q => simp [run_cons h]

theorem run_append
    {depth : Nat} {p q : Progress} {tokens : List Token}
    (h : p.run depth tokens = .ok q) (others : List Token) :
    p.run depth (tokens ++ others) = q.run depth others := by
  induction tokens generalizing p with
  | nil =>
      obtain rfl : p = q := by simpa using h
      rfl
  | cons t tokens ih =>
      obtain ⟨next, hstep, hrun⟩ := run_cons_eq_ok_iff.mp h
      rw [List.cons_append, run_cons hstep, ih hrun]

/-- An answer is what has been read when the tokens end. -/
theorem answer_read_eq_ok_iff
    {depth stop : Nat} {p : Progress} {lexemes : List Lexeme}
    {e : Expression} :
    (p.read depth stop lexemes).answer = .ok e ↔
      ∃ q, p.run depth (lexemes.map Lexeme.token) = .ok q ∧
        q.finish = .ok e := by
  induction lexemes generalizing p with
  | nil =>
      rw [read]
      cases h : p.finish with
      | error cause => simp [h, Except.mapError]
      | ok f => simp [h, Except.mapError]
  | cons lexeme rest ih =>
      rw [read, List.map_cons]
      cases h : p.step depth lexeme.token with
      | error cause =>
          have hrun (q : Progress) :
              p.run depth (lexeme.token :: rest.map Lexeme.token) ≠ .ok q := by
            intro hq
            obtain ⟨next, hnext, -⟩ := run_cons_eq_ok_iff.mp hq
            rw [h] at hnext
            cases hnext
          simp [hrun]
      | ok next => rw [run_cons h, ih]

theorem finish_eq_ok_iff {p : Progress} {e : Expression} :
    p.finish = .ok e ↔ p = ⟨[], .complete e⟩ := by
  obtain ⟨enclosing, focus⟩ := p
  cases focus with
  | complete f => cases enclosing <;> simp [finish]
  | term before => simp [finish]
  | operator before field => simp [finish]
  | literal before field op => simp [finish]

end Progress

/-! ## Steps add their token -/

/-- The connector behind the terms of a level in progress is its own. -/
def Pending.Joined : Pending → Prop
  | none => True
  | some (e, k) => e.Accepts k

/-- How deep groups are nested in front of the term being read. -/
def Pending.depth : Pending → Nat
  | none => 0
  | some (e, _) => e.depth

/-- The tokens of a level in front of the term being read. -/
def Pending.tokens : Pending → List Token
  | none => []
  | some (e, k) => e.tokens ++ [.connector k]

theorem Pending.tokens_complete
    {before : Pending} (h : before.Joined) (t : Term) :
    (before.complete t).tokens = before.tokens ++ t.tokens := by
  cases before with
  | none => rfl
  | some level =>
      obtain ⟨e, k⟩ := level
      simp [Pending.complete, Pending.tokens, Expression.tokens_snoc h t]

theorem Pending.depth_complete (before : Pending) (t : Term) :
    (before.complete t).depth = max before.depth t.depth := by
  cases before with
  | none => simp [Pending.complete, Pending.depth, Expression.depth]
  | some level => exact Expression.depth_snoc level.1 level.2 t

/-- The tokens of the innermost level. -/
def Focus.tokens : Focus → List Token
  | .term before => before.tokens
  | .operator before field => before.tokens ++ [.field field]
  | .literal before field op =>
      before.tokens ++ [.field field, .operator op]
  | .complete e => e.tokens

/-- The tokens of the levels around the innermost one. -/
def Pending.tokensAround : List Pending → List Token
  | [] => []
  | before :: outer => tokensAround outer ++ before.tokens ++ [.opening]

/-- The tokens that have been read. -/
def Progress.tokens (p : Progress) : List Token :=
  Pending.tokensAround p.enclosing ++ p.focus.tokens

/-- What holds of a level in progress inside of some open groups: its connector
is its own, and its groups are within the limit. -/
def Pending.Fits (groups : Nat) (before : Pending) : Prop :=
  before.Joined ∧ groups + before.depth ≤ maxDepth

/-- What holds of the innermost level inside of some open groups. -/
def Focus.Fits (groups : Nat) : Focus → Prop
  | .term before => before.Fits groups
  | .operator before _ => before.Fits groups
  | .literal before _ _ => before.Fits groups
  | .complete e => groups + e.depth ≤ maxDepth

/-- What holds of the levels around the innermost one. -/
def Pending.FitAround (depth : Nat) : List Pending → Prop
  | [] => True
  | before :: outer =>
      before.Fits (depth + outer.length) ∧ FitAround depth outer

/-- What holds of everything that is read while some groups are open outside:
every level has its own connector, and no group is beyond the limit. -/
structure Progress.Fits (depth : Nat) (p : Progress) : Prop where
  around : Pending.FitAround depth p.enclosing
  inside : p.focus.Fits (depth + p.openGroups)

theorem Pending.fits_none
    {groups : Nat} (h : groups ≤ maxDepth) : Pending.Fits groups none :=
  ⟨trivial, h⟩

theorem Progress.fits_start
    {depth : Nat} (h : depth ≤ maxDepth) : Progress.start.Fits depth where
  around := trivial
  inside := Pending.fits_none h

/-- Completing a term whose groups are within the limit keeps a level there. -/
theorem Pending.Fits.complete
    {groups : Nat} {before : Pending} (h : before.Fits groups) {t : Term}
    (ht : groups + t.depth ≤ maxDepth) :
    (Focus.complete (before.complete t)).Fits groups := by
  rw [Focus.Fits, Pending.depth_complete]
  have := h.2
  omega

/-! ## Steps as a relation -/

/-- What one token does to what has been read, if it may stand there. -/
inductive Progress.Reads (depth : Nat) :
    Progress → Token → Progress → Prop where
  | opening {enclosing : List Pending} {before : Pending}
      (room : depth + enclosing.length < maxDepth) :
      Reads depth ⟨enclosing, .term before⟩ .opening
        ⟨before :: enclosing, .term none⟩
  | field {enclosing : List Pending} {before : Pending} {name : String} :
      Reads depth ⟨enclosing, .term before⟩ (.field name)
        ⟨enclosing, .operator before name⟩
  | operator {enclosing : List Pending} {before : Pending} {name : String}
      {op : Operator} :
      Reads depth ⟨enclosing, .operator before name⟩ (.operator op)
        ⟨enclosing, .literal before name op⟩
  | literal {enclosing : List Pending} {before : Pending} {name : String}
      {op : Operator} {value : Scalar} :
      Reads depth ⟨enclosing, .literal before name op⟩ (.literal value)
        ⟨enclosing, .complete (before.complete (.condition ⟨name, op, value⟩))⟩
  | connector {enclosing : List Pending} {e : Expression} {k : Connector}
      (accepts : e.Accepts k) :
      Reads depth ⟨enclosing, .complete e⟩ (.connector k)
        ⟨enclosing, .term (some (e, k))⟩
  | closing {outer : List Pending} {before : Pending} {e : Expression} :
      Reads depth ⟨before :: outer, .complete e⟩ .closing
        ⟨outer, .complete (before.complete (.group e))⟩

theorem Progress.Reads.step_eq_ok
    {depth : Nat} {p q : Progress} {t : Token} (h : Reads depth p t q) :
    p.step depth t = .ok q := by
  cases h with
  | opening room => exact if_neg (Nat.not_le.mpr room)
  | field => rfl
  | operator => rfl
  | literal => rfl
  | @connector enclosing e k accepts =>
      simp only [step]
      rcases accepts with hnone | hown
      · simp [hnone]
      · simp [hown]
  | closing => rfl

theorem Progress.reads_of_step_eq_ok
    {depth : Nat} {p q : Progress} {t : Token}
    (h : p.step depth t = .ok q) : Reads depth p t q := by
  obtain ⟨enclosing, focus⟩ := p
  cases focus with
  | term before =>
      cases t with
      | opening =>
          simp only [step] at h
          split at h
          · cases h
          · next room =>
            cases h
            exact .opening (Nat.not_le.mp room)
      | field name =>
          cases h
          exact .field
      | _ => cases h
  | operator before name =>
      cases t with
      | operator op =>
          cases h
          exact .operator
      | _ => cases h
  | literal before name op =>
      cases t with
      | literal value =>
          cases h
          exact .literal
      | _ => cases h
  | complete e =>
      cases t with
      | connector k =>
          simp only [step] at h
          split at h
          · next own hown =>
            split at h
            · next heq =>
              cases h
              exact .connector (.inr (heq ▸ hown))
            · cases h
          · next hnone =>
            cases h
            exact .connector (.inl hnone)
      | closing =>
          cases enclosing with
          | nil => cases h
          | cons before outer =>
              cases h
              exact .closing
      | _ => cases h

theorem Progress.step_eq_ok_iff
    {depth : Nat} {p q : Progress} {t : Token} :
    p.step depth t = .ok q ↔ Reads depth p t q :=
  ⟨reads_of_step_eq_ok, Reads.step_eq_ok⟩

/-! ## Answers are spelled by what was read -/

/-- A step keeps the connectors and the limit, and adds its token. -/
theorem Progress.Reads.fits_and_tokens
    {depth : Nat} {p q : Progress} {t : Token} (h : Reads depth p t q)
    (hp : p.Fits depth) : q.Fits depth ∧ q.tokens = p.tokens ++ [t] := by
  obtain ⟨haround, hinside⟩ := hp
  cases h with
  | opening room =>
      refine ⟨⟨⟨hinside, haround⟩, Pending.fits_none ?_⟩, ?_⟩
      · exact room
      · simp [Progress.tokens, Pending.tokensAround, Focus.tokens,
          Pending.tokens]
  | field =>
      refine ⟨⟨haround, hinside⟩, ?_⟩
      simp [Progress.tokens, Focus.tokens]
  | operator =>
      refine ⟨⟨haround, hinside⟩, ?_⟩
      simp [Progress.tokens, Focus.tokens]
  | literal =>
      refine ⟨⟨haround, hinside.complete ?_⟩, ?_⟩
      · have := hinside.2
        simp only [Term.depth]
        omega
      · simp [Progress.tokens, Focus.tokens,
          Pending.tokens_complete hinside.1, Term.tokens, Condition.tokens]
  | connector accepts =>
      refine ⟨⟨haround, accepts, hinside⟩, ?_⟩
      simp [Progress.tokens, Focus.tokens, Pending.tokens]
  | @closing outer before e =>
      obtain ⟨hbefore, houter⟩ := haround
      refine ⟨⟨houter, hbefore.complete ?_⟩, ?_⟩
      · simp only [Focus.Fits, openGroups, List.length_cons] at hinside
        simp only [Term.depth]
        omega
      · simp [Progress.tokens, Pending.tokensAround, Focus.tokens,
          Pending.tokens_complete hbefore.1, Term.tokens]

theorem Progress.run_fits_and_tokens
    {depth : Nat} {p q : Progress} {tokens : List Token}
    (h : p.run depth tokens = .ok q) (hp : p.Fits depth) :
    q.Fits depth ∧ q.tokens = p.tokens ++ tokens := by
  induction tokens generalizing p with
  | nil =>
      obtain rfl : p = q := by simpa using h
      exact ⟨hp, by simp⟩
  | cons t tokens ih =>
      obtain ⟨next, hstep, hrun⟩ := run_cons_eq_ok_iff.mp h
      obtain ⟨hnext, htokens⟩ :=
        (step_eq_ok_iff.mp hstep).fits_and_tokens hp
      obtain ⟨hq, hall⟩ := ih hrun hnext
      exact ⟨hq, by rw [hall, htokens, List.append_assoc]; rfl⟩

/-! ## The tokens of an expression lead to it -/

/-- A level may be continued with a connector if nothing or that connector is
in front of the term being read. -/
def Pending.Continues (k : Connector) : Pending → Prop
  | none => True
  | some (e, own) => own = k ∧ e.Accepts k

/-- The level that arises when several terms are read. -/
def Pending.completeAll (before : Pending) (k : Connector) :
    Terms → Expression
  | .pair a b => (before.complete a).snoc k b
  | .cons a rest => completeAll (some (before.complete a, k)) k rest

/-- The terms of a level in front of the term being read. -/
def Pending.terms : Pending → List Term
  | none => []
  | some (e, _) => e.terms

theorem Pending.terms_complete (before : Pending) (t : Term) :
    (before.complete t).terms = before.terms ++ [t] := by
  cases before with
  | none => rfl
  | some level => exact Expression.terms_snoc level.1 level.2 t

theorem Pending.continues_none {k : Connector} :
    Pending.Continues k none :=
  trivial

theorem Pending.continues_some
    {e : Expression} {k : Connector} (h : e.Accepts k) :
    Pending.Continues k (some (e, k)) :=
  ⟨rfl, h⟩

theorem Pending.Continues.complete
    {before : Pending} {k : Connector} (h : before.Continues k) (t : Term) :
    (before.complete t).Accepts k := by
  cases before with
  | none => exact .inl rfl
  | some level =>
      obtain ⟨e, own⟩ := level
      obtain ⟨rfl, haccepts⟩ := h
      exact .inr (Expression.connector?_snoc haccepts t)

theorem Pending.terms_completeAll
    (before : Pending) (k : Connector) (ts : Terms) :
    (before.completeAll k ts).terms = before.terms ++ ts.toList := by
  fun_induction Pending.completeAll before k ts with
  | case1 before a b =>
      rw [Expression.terms_snoc, Pending.terms_complete, List.append_assoc]
      rfl
  | case2 before a rest ih =>
      rw [ih, Pending.terms, Pending.terms_complete, List.append_assoc]
      rfl

theorem Pending.connector?_completeAll
    {before : Pending} {k : Connector} (h : before.Continues k) (ts : Terms) :
    (before.completeAll k ts).connector? = some k := by
  fun_induction Pending.completeAll before k ts with
  | case1 before a b =>
      exact Expression.connector?_snoc (h.complete a) b
  | case2 before a rest ih =>
      exact ih (Pending.continues_some (h.complete a))

theorem Pending.completeAll_none (k : Connector) (ts : Terms) :
    Pending.completeAll none k ts = .chain k ts := by
  apply Expression.eq_of_terms_eq
  · exact Pending.connector?_completeAll Pending.continues_none ts
  · exact Pending.terms_completeAll none k ts

namespace Progress

theorem run_connector
    {depth : Nat} {enclosing : List Pending} {e : Expression} {k : Connector}
    (h : e.Accepts k) (tokens : List Token) :
    run depth ⟨enclosing, .complete e⟩ (.connector k :: tokens) =
      run depth ⟨enclosing, .term (some (e, k))⟩ tokens :=
  run_cons (Reads.connector h).step_eq_ok tokens

end Progress

mutual

/-- The tokens of a term complete it, if there is room for its groups. -/
theorem Term.run_tokens
    (depth : Nat) (t : Term) (enclosing : List Pending) (before : Pending)
    (h : depth + enclosing.length + t.depth ≤ maxDepth) :
    Progress.run depth ⟨enclosing, .term before⟩ t.tokens =
      .ok ⟨enclosing, .complete (before.complete t)⟩ :=
  match t with
  | .condition c => rfl
  | .group e => by
      rw [Term.depth] at h
      have hbody :=
        Expression.run_tokens depth e (before :: enclosing)
          (by rw [List.length_cons]; omega)
      have hopening : Progress.Reads depth ⟨enclosing, .term before⟩ .opening
          ⟨before :: enclosing, .term none⟩ := .opening (by omega)
      rw [Term.tokens, Progress.run_cons hopening.step_eq_ok,
        Progress.run_append hbody]
      exact Progress.run_cons Progress.Reads.closing.step_eq_ok []

/-- The tokens of an expression make up a level, if there is room for its
groups. -/
theorem Expression.run_tokens
    (depth : Nat) (e : Expression) (enclosing : List Pending)
    (h : depth + enclosing.length + e.depth ≤ maxDepth) :
    Progress.run depth ⟨enclosing, .term none⟩ e.tokens =
      .ok ⟨enclosing, .complete e⟩ :=
  match e with
  | .single t => Term.run_tokens depth t enclosing none h
  | .chain k ts => by
      rw [Expression.tokens, Terms.run_tokens depth k ts enclosing none
          Pending.continues_none h, Pending.completeAll_none]

/-- The tokens of several terms continue a level, if there is room for their
groups. -/
theorem Terms.run_tokens
    (depth : Nat) (k : Connector) (ts : Terms) (enclosing : List Pending)
    (before : Pending) (hbefore : before.Continues k)
    (h : depth + enclosing.length + ts.depth ≤ maxDepth) :
    Progress.run depth ⟨enclosing, .term before⟩ (ts.tokens k) =
      .ok ⟨enclosing, .complete (before.completeAll k ts)⟩ :=
  match ts with
  | .pair a b => by
      rw [Terms.depth] at h
      have ha := Term.run_tokens depth a enclosing before (by omega)
      rw [Terms.tokens, Progress.run_append ha,
        Progress.run_connector (hbefore.complete a),
        Term.run_tokens depth b enclosing _ (by omega)]
      rfl
  | .cons a rest => by
      rw [Terms.depth] at h
      have ha := Term.run_tokens depth a enclosing before (by omega)
      rw [Terms.tokens, Progress.run_append ha,
        Progress.run_connector (hbefore.complete a),
        Terms.run_tokens depth k rest enclosing _
          (Pending.continues_some (hbefore.complete a)) (by omega)]
      rfl

end

/-! ## The accepted lists of tokens -/

namespace Expression

theorem ofTokens_eq_ok_iff_run {tokens : List Lexeme} {e : Expression} :
    ofTokens tokens = .ok e ↔
      Progress.start.run 0 (tokens.map Lexeme.token) =
        .ok ⟨[], .complete e⟩ := by
  cases tokens with
  | nil => simp [ofTokens, Parser.parse, Parser.ofTokens, Progress.start]
  | cons first rest =>
      simp only [ofTokens, Parser.parse, Parser.ofTokens, Parser.rest,
        List.isEmpty_cons, Bool.false_eq_true, if_false, List.drop_zero]
      rw [Progress.answer_read_eq_ok_iff]
      constructor
      · rintro ⟨q, hrun, hfinish⟩
        rw [hrun, Progress.finish_eq_ok_iff.mp hfinish]
      · intro hrun
        exact ⟨_, hrun, Progress.finish_eq_ok_iff.mpr rfl⟩

/-- A list of tokens is read as an expression exactly if it spells that
expression and no group is nested beyond the limit. -/
theorem ofTokens_eq_ok_iff {tokens : List Lexeme} {e : Expression} :
    ofTokens tokens = .ok e ↔
      e.depth ≤ maxDepth ∧ e.tokens = tokens.map Lexeme.token := by
  rw [ofTokens_eq_ok_iff_run]
  constructor
  · intro hrun
    obtain ⟨hfits, htokens⟩ := Progress.run_fits_and_tokens hrun
      (Progress.fits_start (Nat.zero_le maxDepth))
    refine ⟨?_, ?_⟩
    · simpa [Focus.Fits, Progress.openGroups] using hfits.inside
    · simpa [Progress.tokens, Progress.start, Pending.tokensAround,
        Focus.tokens, Pending.tokens] using htokens
  · rintro ⟨hdepth, htokens⟩
    rw [← htokens]
    exact run_tokens 0 e [] (by simpa using hdepth)

/-- The parser accepts exactly its grammar: the answer to a list of tokens is
the one tree, among all trees, every level of which has terms and a connector
between them, whose groups are within the limit, and which these tokens spell,
wherever they stand in their text. -/
theorem ofTokens_accepts_grammar (tokens : List Lexeme) :
    (∀ e : Expression, ofTokens tokens = .ok e ↔
      e.depth ≤ maxDepth ∧ e.tokens = tokens.map Lexeme.token) ∧
    ∀ x : LooseExpression, (ofTokens tokens).map Expression.loose = .ok x ↔
      x.IsProper ∧ x.depth ≤ maxDepth ∧
        x.tokens = tokens.map Lexeme.token := by
  refine ⟨fun e => ofTokens_eq_ok_iff, fun x => ?_⟩
  constructor
  · intro h
    cases hanswer : ofTokens tokens with
    | error cause =>
        rw [hanswer] at h
        cases h
    | ok e =>
        rw [hanswer] at h
        cases h
        rw [e.depth_loose, e.tokens_loose]
        exact ⟨e.isProper_loose, ofTokens_eq_ok_iff.mp hanswer⟩
  · rintro ⟨hproper, hspelled⟩
    obtain ⟨e, rfl⟩ := x.exists_loose_eq hproper
    rw [e.depth_loose, e.tokens_loose] at hspelled
    rw [ofTokens_eq_ok_iff.mpr hspelled]
    rfl

end Expression

end Rulebook
