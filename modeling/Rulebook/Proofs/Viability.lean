import Mathlib
import Rulebook.Proofs.Parsing

/-!
# Where the parser stops

A list of tokens is viable if it can be continued to an expression. Whatever has
been read can be completed: the condition that has been begun is finished, and
every open group is closed. So the parser stops at the first token that makes
the tokens not viable, or at the end if all of them are, and that is the place
which its error names.

What the error says can be read off the tokens. The connectors of a level are
mixed, or one group too many is opened, or something else stands where it may
not.
-/

namespace Rulebook

/-! ## Viable tokens -/

/-- Tokens are viable if they can be continued to an expression. -/
def IsViable (tokens : List Lexeme) : Prop :=
  ∃ more e, Expression.ofTokens (tokens ++ more) = .ok e

/-- Tokens go wrong at an index if those in front of it are viable, and with the
one at the index they are not. They go wrong at the end if they are viable, but
no expression. -/
structure GoesWrongAt (tokens : List Lexeme) (k : Nat) : Prop where
  le_length : k ≤ tokens.length
  isViable_take : IsViable (tokens.take k)
  not_isViable_take : k < tokens.length → ¬IsViable (tokens.take (k + 1))
  not_accepted : k = tokens.length →
    ∀ e, Expression.ofTokens tokens ≠ .ok e

/-- The place of an index: where its token starts, or where the last token
stops. -/
def placeAt (tokens : List Lexeme) (k : Nat) : Nat :=
  (tokens[k]?.map Lexeme.start).getD
    ((tokens.getLast?.map Lexeme.stop).getD 0)

/-- A term may start where a level starts, and behind a connector. -/
def TermMayStart (before : List Token) : Prop :=
  before = [] ∨ before.getLast? = some .opening ∨
    ∃ k, before.getLast? = some (.connector k)

/-- At an index a connector stands behind a level that has another one already.
The level starts where all tokens do or behind a parenthesis, and is complete,
so that parenthesis is the innermost open one. -/
structure MixesAt (tokens : List Token) (k : Nat)
    (own found : Connector) : Prop where
  token_eq : tokens[k]? = some (.connector found)
  ne : own ≠ found
  exists_level : ∃ (outside : List Token) (level : Expression),
    tokens.take k = outside ++ level.tokens ∧
      (outside = [] ∨ outside.getLast? = some .opening) ∧
      level.connector? = some own

/-- At an index a group is opened where a term may start, but as many groups are
open as there may be. -/
structure DeepensAt (tokens : List Token) (k : Nat) : Prop where
  token_eq : tokens[k]? = some .opening
  termMayStart : TermMayStart (tokens.take k)
  count_eq : (tokens.take k).count .opening =
    (tokens.take k).count .closing + maxDepth

namespace Progress

theorem exists_run_of_run_append
    {depth : Nat} {p r : Progress} {tokens others : List Token}
    (h : p.run depth (tokens ++ others) = .ok r) :
    ∃ q, p.run depth tokens = .ok q ∧ q.run depth others = .ok r := by
  induction tokens generalizing p with
  | nil => exact ⟨p, rfl, h⟩
  | cons t tokens ih =>
      obtain ⟨next, hstep, hrun⟩ := run_cons_eq_ok_iff.mp h
      obtain ⟨q, hq, hbehind⟩ := ih hrun
      exact ⟨q, by rw [run_cons hstep, hq], hbehind⟩

theorem run_append_singleton_eq_ok_iff
    {depth : Nat} {p r : Progress} {tokens : List Token} {t : Token} :
    p.run depth (tokens ++ [t]) = .ok r ↔
      ∃ q, p.run depth tokens = .ok q ∧ Reads depth q t r := by
  constructor
  · intro h
    obtain ⟨q, hq, hlast⟩ := exists_run_of_run_append h
    obtain ⟨next, hstep, hnil⟩ := run_cons_eq_ok_iff.mp hlast
    obtain rfl : next = r := by simpa using hnil
    exact ⟨q, hq, reads_of_step_eq_ok hstep⟩
  · rintro ⟨q, hq, hreads⟩
    rw [run_append hq, run_cons hreads.step_eq_ok, run_nil]

end Progress

/-! ## Completing what has been read -/

/-- Tokens that finish the condition that has been begun, if one has to be. -/
def Focus.completion : Focus → List Token
  | .term _ => [.field "x", .operator .equal, .literal (.boolean true)]
  | .operator _ _ => [.operator .equal, .literal (.boolean true)]
  | .literal _ _ _ => [.literal (.boolean true)]
  | .complete _ => []

/-- Tokens that complete what has been read. -/
def Progress.completion (p : Progress) : List Token :=
  p.focus.completion ++ List.replicate p.openGroups .closing

namespace Progress

theorem exists_run_replicate_closing
    (depth : Nat) (enclosing : List Pending) (e : Expression) :
    ∃ f, run depth ⟨enclosing, .complete e⟩
      (List.replicate enclosing.length .closing) = .ok ⟨[], .complete f⟩ := by
  induction enclosing generalizing e with
  | nil => exact ⟨e, rfl⟩
  | cons before outer ih =>
      obtain ⟨f, hf⟩ := ih (before.complete (.group e))
      refine ⟨f, ?_⟩
      rw [List.length_cons, List.replicate_succ,
        run_cons Reads.closing.step_eq_ok, hf]

theorem exists_run_focus_completion (depth : Nat) (p : Progress) :
    ∃ e, p.run depth p.focus.completion =
      .ok ⟨p.enclosing, .complete e⟩ := by
  obtain ⟨enclosing, focus⟩ := p
  cases focus with
  | term before => exact ⟨_, rfl⟩
  | operator before field => exact ⟨_, rfl⟩
  | literal before field op => exact ⟨_, rfl⟩
  | complete e => exact ⟨e, rfl⟩

/-- Whatever has been read can be completed. -/
theorem exists_run_completion (depth : Nat) (p : Progress) :
    ∃ e, p.run depth p.completion = .ok ⟨[], .complete e⟩ := by
  obtain ⟨e, he⟩ := exists_run_focus_completion depth p
  obtain ⟨f, hf⟩ := exists_run_replicate_closing depth p.enclosing e
  refine ⟨f, ?_⟩
  rw [completion, run_append he]
  exact hf

end Progress

/-- Tokens are viable exactly if they can be read one after another. -/
theorem isViable_iff {tokens : List Lexeme} :
    IsViable tokens ↔
      ∃ q, Progress.start.run 0 (tokens.map Lexeme.token) = .ok q := by
  constructor
  · rintro ⟨more, e, h⟩
    rw [Expression.ofTokens_eq_ok_iff_run, List.map_append] at h
    obtain ⟨q, hq, -⟩ := Progress.exists_run_of_run_append h
    exact ⟨q, hq⟩
  · rintro ⟨q, hq⟩
    obtain ⟨e, he⟩ := q.exists_run_completion 0
    refine ⟨q.completion.map fun t => ⟨t, 0, 0⟩, e, ?_⟩
    rw [Expression.ofTokens_eq_ok_iff_run, List.map_append,
      Progress.run_append hq, List.map_map]
    simpa [Function.comp_def] using he

theorem IsViable.of_isPrefix
    {tokens tokens' : List Lexeme} (h : IsViable tokens')
    (hinitial : tokens <+: tokens') : IsViable tokens := by
  obtain ⟨more, e, he⟩ := h
  obtain ⟨behind, rfl⟩ := hinitial
  exact ⟨behind ++ more, e, by rw [← List.append_assoc, he]⟩

/-- Tokens go wrong at one index at most. -/
theorem GoesWrongAt.unique
    {tokens : List Lexeme} {j k : Nat} (hj : GoesWrongAt tokens j)
    (hk : GoesWrongAt tokens k) : j = k := by
  have hle {j k : Nat} (hj : GoesWrongAt tokens j)
      (hk : GoesWrongAt tokens k) : k ≤ j := by
    by_contra hlt
    have hshorter : tokens.take (j + 1) <+: tokens.take k :=
      List.take_prefix_take_left (by omega)
    exact hj.not_isViable_take (by have := hk.le_length; omega)
      (hk.isViable_take.of_isPrefix hshorter)
  exact Nat.le_antisymm (hle hk hj) (hle hj hk)

/-! ## Where reading stops -/

/-- What has been read cannot be continued by the next token, or is no
expression at the end of the tokens. -/
inductive Progress.Refuses (depth stop : Nat) (q : Progress) :
    Option Lexeme → Nat → ParseCause → Prop where
  | token {lexeme : Lexeme} {cause : ParseCause}
      (h : q.step depth lexeme.token = .error cause) :
      Refuses depth stop q (some lexeme) lexeme.start cause
  | atEnd {cause : ParseCause} (h : q.finish = .error cause) :
      Refuses depth stop q none stop cause

/-- An error arises at an index up to which everything has been read. -/
theorem Progress.exists_refuses_of_read
    {depth stop : Nat} {p : Progress} {lexemes : List Lexeme} {e : ParseError}
    (h : (p.read depth stop lexemes).answer = .error e) :
    ∃ k q place cause, k ≤ lexemes.length ∧
      p.run depth ((lexemes.take k).map Lexeme.token) = .ok q ∧
      q.Refuses depth stop lexemes[k]? place cause ∧
      e = .misplaced place cause := by
  induction lexemes generalizing p with
  | nil =>
      rw [read] at h
      cases hfinish : p.finish with
      | ok f =>
          rw [hfinish] at h
          cases h
      | error cause =>
          rw [hfinish] at h
          cases h
          exact ⟨0, p, stop, cause, le_rfl, rfl, .atEnd hfinish, rfl⟩
  | cons lexeme rest ih =>
      rw [read] at h
      cases hstep : p.step depth lexeme.token with
      | error cause =>
          rw [hstep] at h
          cases h
          exact ⟨0, p, lexeme.start, cause, Nat.zero_le _, rfl, .token hstep, rfl⟩
      | ok next =>
          rw [hstep] at h
          obtain ⟨k, q, place, cause, hk, hrun, hrefuses, heq⟩ := ih h
          refine ⟨k + 1, q, place, cause, Nat.succ_le_succ hk, ?_, ?_, heq⟩
          · rw [List.take_succ_cons, List.map_cons, run_cons hstep, hrun]
          · simpa using hrefuses

theorem Expression.ofTokens_eq_answer {tokens : List Lexeme}
    (h : tokens ≠ []) :
    ofTokens tokens = (Progress.start.read 0
      ((tokens.getLast?.map Lexeme.stop).getD 0) tokens).answer := by
  rw [ofTokens, Parser.parse, if_neg (by simpa [Parser.ofTokens] using h)]
  rfl

/-- A list of tokens that is no expression goes wrong where its error says. -/
theorem Expression.exists_refuses_of_ofTokens
    {tokens : List Lexeme} (hne : tokens ≠ [])
    (hrejected : ∀ e, ofTokens tokens ≠ .ok e) :
    ∃ k q cause, k ≤ tokens.length ∧
      Progress.start.run 0 ((tokens.take k).map Lexeme.token) = .ok q ∧
      q.Refuses 0 ((tokens.getLast?.map Lexeme.stop).getD 0) tokens[k]?
        (placeAt tokens k) cause ∧
      ofTokens tokens = .error (.misplaced (placeAt tokens k) cause) := by
  rw [ofTokens_eq_answer hne] at hrejected ⊢
  generalize hstop : (tokens.getLast?.map Lexeme.stop).getD 0 = stop
  rw [hstop] at hrejected
  cases hanswer : (Progress.start.read 0 stop tokens).answer with
  | ok e => exact absurd hanswer (hrejected e)
  | error err =>
      obtain ⟨k, q, place, cause, hk, hrun, hrefuses, rfl⟩ :=
        Progress.exists_refuses_of_read hanswer
      have hplace : placeAt tokens k = place := by
        rw [placeAt, hstop]
        generalize tokens[k]? = found at hrefuses ⊢
        cases hrefuses with
        | token h => rfl
        | atEnd h => rfl
      subst hplace
      exact ⟨k, q, cause, hk, hrun, hrefuses, rfl⟩

section Stop

variable {tokens : List Lexeme} {k stop place : Nat} {q : Progress}
  {cause : ParseCause}

theorem Progress.Refuses.goesWrongAt
    (hk : k ≤ tokens.length)
    (hrun : Progress.start.run 0 ((tokens.take k).map Lexeme.token) = .ok q)
    (h : q.Refuses 0 stop tokens[k]? place cause) : GoesWrongAt tokens k where
  le_length := hk
  isViable_take := isViable_iff.mpr ⟨q, hrun⟩
  not_isViable_take := by
    intro hlt hviable
    rw [List.getElem?_eq_getElem hlt] at h
    obtain ⟨r, hr⟩ := isViable_iff.mp hviable
    rw [List.take_succ_eq_append_getElem hlt, List.map_append, List.map_singleton,
      run_append_singleton_eq_ok_iff] at hr
    obtain ⟨q', hrun', hreads⟩ := hr
    obtain rfl : q = q' := Except.ok.inj (hrun.symm.trans hrun')
    have hstep := hreads.step_eq_ok
    cases h with
    | token hrefused =>
        rw [hrefused] at hstep
        cases hstep
  not_accepted := by
    intro heq e he
    rw [heq, List.getElem?_eq_none le_rfl] at h
    rw [heq, List.take_length] at hrun
    rw [Expression.ofTokens_eq_ok_iff_run, hrun] at he
    cases h with
    | atEnd hrefused =>
        have hfinish := finish_eq_ok_iff.mpr (Except.ok.inj he)
        rw [hrefused] at hfinish
        cases hfinish

end Stop

/-! ## Reasons to refuse a token -/

namespace Progress

theorem step_of_mixed
    {depth : Nat} {enclosing : List Pending} {e : Expression}
    {own found : Connector} (hown : e.connector? = some own)
    (hne : own ≠ found) :
    step depth ⟨enclosing, .complete e⟩ (.connector found) =
      .error (.mixedConnectors own found) := by
  simp [step, hown, hne]

theorem step_of_tooDeep
    {depth : Nat} {enclosing : List Pending} {before : Pending}
    (hfull : maxDepth ≤ depth + enclosing.length) :
    step depth ⟨enclosing, .term before⟩ .opening = .error .nestingTooDeep :=
  if_pos hfull

/-- A token is refused because it mixes connectors, or opens one group too many,
or else because it is not expected. -/
theorem step_eq_error_cases
    {depth : Nat} {p : Progress} {t : Token} {cause : ParseCause}
    (h : p.step depth t = .error cause) :
    (∃ enclosing e own found, p = ⟨enclosing, .complete e⟩ ∧
      e.connector? = some own ∧ t = .connector found ∧ own ≠ found ∧
      cause = .mixedConnectors own found) ∨
    (∃ enclosing before, p = ⟨enclosing, .term before⟩ ∧ t = .opening ∧
      maxDepth ≤ depth + enclosing.length ∧ cause = .nestingTooDeep) ∨
    ∃ expected, cause = .unexpected expected (some t) := by
  obtain ⟨enclosing, focus⟩ := p
  cases focus with
  | term before =>
      cases t with
      | opening =>
          simp only [step] at h
          split at h
          · next hfull =>
            cases h
            exact .inr (.inl ⟨enclosing, before, rfl, rfl, hfull, rfl⟩)
          · cases h
      | field name => cases h
      | _ =>
          cases h
          exact .inr (.inr ⟨_, rfl⟩)
  | operator before name =>
      cases t with
      | operator op => cases h
      | _ =>
          cases h
          exact .inr (.inr ⟨_, rfl⟩)
  | literal before name op =>
      cases t with
      | literal value => cases h
      | _ =>
          cases h
          exact .inr (.inr ⟨_, rfl⟩)
  | complete e =>
      cases t with
      | connector k =>
          simp only [step] at h
          split at h
          · next own hown =>
            split at h
            · cases h
            · next hne =>
              cases h
              exact .inl ⟨enclosing, e, own, k, rfl, hown, rfl, hne, rfl⟩
          · cases h
      | closing =>
          cases enclosing with
          | nil =>
              cases h
              exact .inr (.inr ⟨_, rfl⟩)
          | cons before outer => cases h
      | _ =>
          cases h
          exact .inr (.inr ⟨_, rfl⟩)

theorem exists_unexpected_of_finish
    {p : Progress} {cause : ParseCause} (h : p.finish = .error cause) :
    ∃ expected, cause = .unexpected expected none := by
  obtain ⟨enclosing, focus⟩ := p
  cases focus with
  | complete e =>
      simp only [finish] at h
      split at h
      · cases h
      · cases h
        exact ⟨_, rfl⟩
  | _ =>
      cases h
      exact ⟨_, rfl⟩

/-! ## What the tokens tell of what has been read -/

/-- A term is being read exactly where one may start. -/
theorem termMayStart_iff
    {tokens : List Token} {q : Progress} (h : start.run 0 tokens = .ok q) :
    TermMayStart tokens ↔ ∃ before, q.focus = .term before := by
  rcases List.eq_nil_or_concat tokens with rfl | ⟨others, t, rfl⟩
  · obtain rfl : start = q := by simpa using h
    exact iff_of_true (.inl rfl) ⟨none, rfl⟩
  · rw [List.concat_eq_append, run_append_singleton_eq_ok_iff] at h
    obtain ⟨p, -, hreads⟩ := h
    cases hreads <;> simp [TermMayStart]

/-- An opening parenthesis opens one group, and a closing one closes one. -/
theorem openGroups_run
    {depth : Nat} {p q : Progress} {tokens : List Token}
    (h : p.run depth tokens = .ok q) :
    p.openGroups + tokens.count .opening =
      tokens.count .closing + q.openGroups := by
  induction tokens generalizing p with
  | nil =>
      obtain rfl : p = q := by simpa using h
      simp
  | cons t tokens ih =>
      obtain ⟨next, hstep, hrun⟩ := run_cons_eq_ok_iff.mp h
      have hbehind := ih hrun
      cases reads_of_step_eq_ok hstep <;>
        simp [openGroups] at hbehind ⊢ <;> omega

/-- Of the parentheses that have been read, as many are not closed as there are
open groups. -/
theorem count_opening
    {tokens : List Token} {q : Progress} (h : start.run 0 tokens = .ok q) :
    tokens.count .opening = tokens.count .closing + q.openGroups := by
  have hgroups := openGroups_run h
  rwa [show start.openGroups = 0 from rfl, Nat.zero_add] at hgroups

theorem fits_of_run
    {tokens : List Token} {q : Progress} (h : start.run 0 tokens = .ok q) :
    q.Fits 0 :=
  (run_fits_and_tokens h (fits_start (Nat.zero_le maxDepth))).1

theorem tokens_of_run
    {tokens : List Token} {q : Progress} (h : start.run 0 tokens = .ok q) :
    tokens = q.tokens := by
  have htokens :=
    (run_fits_and_tokens h (fits_start (Nat.zero_le maxDepth))).2
  simpa [Progress.tokens, start, Pending.tokensAround, Focus.tokens,
    Pending.tokens] using htokens.symm

/-- Behind a term and a connector another term is read on the same level. -/
theorem exists_run_behind_connector
    {depth : Nat} {a : Term} {k : Connector} {others : List Token}
    {enclosing : List Pending} {before : Pending} {q : Progress}
    (ha : depth + enclosing.length + a.depth ≤ maxDepth)
    (h : run depth ⟨enclosing, .term before⟩
      (a.tokens ++ .connector k :: others) = .ok q) :
    ∃ next, run depth ⟨enclosing, .term next⟩ others = .ok q := by
  rw [run_append (Term.run_tokens depth a enclosing before ha)] at h
  obtain ⟨p, hstep, hothers⟩ := run_cons_eq_ok_iff.mp h
  cases reads_of_step_eq_ok hstep with
  | connector accepts => exact ⟨_, hothers⟩

end Progress

mutual

/-- Where the tokens of a term can be read, there is room for its groups. -/
theorem Term.depth_le_of_run {depth : Nat} :
    (t : Term) → {enclosing : List Pending} → {before : Pending} →
      {q : Progress} → depth + enclosing.length ≤ maxDepth →
      Progress.run depth ⟨enclosing, .term before⟩ t.tokens = .ok q →
      depth + enclosing.length + t.depth ≤ maxDepth
  | .condition c, _, _, _, hroom, _ => hroom
  | .group e, enclosing, before, q, hroom, h => by
      rw [Term.tokens] at h
      obtain ⟨p, hstep, hrun⟩ := Progress.run_cons_eq_ok_iff.mp h
      obtain ⟨r, hbody, -⟩ := Progress.exists_run_of_run_append hrun
      cases Progress.reads_of_step_eq_ok hstep with
      | opening room =>
          have hdepth := Expression.depth_le_of_run e
            (by rw [List.length_cons]; omega) hbody
          rw [List.length_cons] at hdepth
          rw [Term.depth]
          omega

/-- Where the tokens of an expression can be read, there is room for its
groups. -/
theorem Expression.depth_le_of_run {depth : Nat} :
    (e : Expression) → {enclosing : List Pending} → {q : Progress} →
      depth + enclosing.length ≤ maxDepth →
      Progress.run depth ⟨enclosing, .term none⟩ e.tokens = .ok q →
      depth + enclosing.length + e.depth ≤ maxDepth
  | .single t, _, _, hroom, h => Term.depth_le_of_run t hroom h
  | .chain k ts, _, _, hroom, h => Terms.depth_le_of_run k ts hroom h

/-- Where the tokens of several terms can be read, there is room for their
groups. -/
theorem Terms.depth_le_of_run {depth : Nat} (k : Connector) :
    (ts : Terms) → {enclosing : List Pending} → {before : Pending} →
      {q : Progress} → depth + enclosing.length ≤ maxDepth →
      Progress.run depth ⟨enclosing, .term before⟩ (ts.tokens k) = .ok q →
      depth + enclosing.length + ts.depth ≤ maxDepth
  | .pair a b, enclosing, before, q, hroom, h => by
      obtain ⟨p, hfirst, -⟩ := Progress.exists_run_of_run_append h
      have ha := Term.depth_le_of_run a hroom hfirst
      obtain ⟨next, hsecond⟩ := Progress.exists_run_behind_connector ha h
      have hb := Term.depth_le_of_run b hroom hsecond
      rw [Terms.depth]
      omega
  | .cons a rest, enclosing, before, q, hroom, h => by
      obtain ⟨p, hfirst, -⟩ := Progress.exists_run_of_run_append h
      have ha := Term.depth_le_of_run a hroom hfirst
      obtain ⟨next, hothers⟩ := Progress.exists_run_behind_connector ha h
      have hrest := Terms.depth_le_of_run k rest hroom hothers
      rw [Terms.depth]
      omega

end

namespace Progress

theorem openGroups_le_of_fits_term
    {enclosing : List Pending} {before : Pending}
    (h : Fits 0 ⟨enclosing, .term before⟩) : enclosing.length ≤ maxDepth := by
  have hinside := h.inside.2
  simp only [openGroups] at hinside
  omega

/-- Behind the start of a level and the tokens of an expression, that expression
is the innermost level. -/
theorem focus_eq_complete_of_run
    {outside : List Token} {level : Expression} {q : Progress}
    (houtside : outside = [] ∨ outside.getLast? = some .opening)
    (h : start.run 0 (outside ++ level.tokens) = .ok q) :
    q.focus = .complete level := by
  obtain ⟨p, hp, hlevel⟩ := exists_run_of_run_append h
  have hfits := fits_of_run hp
  obtain ⟨enclosing, rfl⟩ : ∃ enclosing, p = ⟨enclosing, .term none⟩ := by
    rcases List.eq_nil_or_concat outside with rfl | ⟨others, t, rfl⟩
    · obtain rfl : start = p := by simpa using hp
      exact ⟨[], rfl⟩
    · rw [List.concat_eq_append, run_append_singleton_eq_ok_iff] at hp
      obtain ⟨r, -, hreads⟩ := hp
      obtain rfl : t = .opening := by simpa using houtside
      cases hreads with
      | opening room => exact ⟨_, rfl⟩
  have hroom := openGroups_le_of_fits_term hfits
  have hdepth := level.depth_le_of_run (by omega) hlevel
  rw [level.run_tokens 0 enclosing hdepth] at hlevel
  cases hlevel
  rfl

/-- Every level in progress starts where all tokens do or behind a
parenthesis. -/
theorem starts_level (enclosing : List Pending) :
    Pending.tokensAround enclosing = [] ∨
      (Pending.tokensAround enclosing).getLast? = some .opening := by
  cases enclosing with
  | nil => exact .inl rfl
  | cons before outer => exact .inr (by simp [Pending.tokensAround])

end Progress

section Reasons

variable {tokens : List Token} {k : Nat} {q : Progress}

theorem mixesAt_iff
    (hrun : Progress.start.run 0 (tokens.take k) = .ok q)
    (own found : Connector) :
    MixesAt tokens k own found ↔
      tokens[k]? = some (.connector found) ∧ own ≠ found ∧
        ∃ e, q.focus = .complete e ∧ e.connector? = some own := by
  constructor
  · rintro ⟨htoken, hne, outside, level, htake, houtside, hown⟩
    rw [htake] at hrun
    exact ⟨htoken, hne, level,
      Progress.focus_eq_complete_of_run houtside hrun, hown⟩
  · rintro ⟨htoken, hne, e, hfocus, hown⟩
    refine ⟨htoken, hne, Pending.tokensAround q.enclosing, e, ?_,
      Progress.starts_level q.enclosing, hown⟩
    rw [Progress.tokens_of_run hrun, Progress.tokens, hfocus]
    rfl

theorem deepensAt_iff
    (hrun : Progress.start.run 0 (tokens.take k) = .ok q) :
    DeepensAt tokens k ↔
      tokens[k]? = some .opening ∧ (∃ before, q.focus = .term before) ∧
        maxDepth ≤ q.openGroups := by
  have hcount := Progress.count_opening hrun
  constructor
  · rintro ⟨htoken, hterm, hfull⟩
    exact ⟨htoken, (Progress.termMayStart_iff hrun).mp hterm, by omega⟩
  · rintro ⟨htoken, ⟨before, hfocus⟩, hfull⟩
    have hterm := (Progress.termMayStart_iff hrun).mpr ⟨before, hfocus⟩
    have hfits := Progress.fits_of_run hrun
    obtain ⟨enclosing, focus⟩ := q
    obtain rfl : focus = .term before := hfocus
    have hroom := Progress.openGroups_le_of_fits_term hfits
    simp only [Progress.openGroups] at hcount hfull
    exact ⟨htoken, hterm, by omega⟩

end Reasons

/-- What an error says about the tokens: which of the three reasons it names,
and what was found instead of what was expected. -/
structure Explains (tokens : List Token) (k : Nat) (cause : ParseCause) :
    Prop where
  mixedConnectors_iff : ∀ own found,
    cause = .mixedConnectors own found ↔ MixesAt tokens k own found
  nestingTooDeep_iff : cause = .nestingTooDeep ↔ DeepensAt tokens k
  unexpected_iff : (∃ expected, cause = .unexpected expected tokens[k]?) ↔
    (∀ own found, ¬MixesAt tokens k own found) ∧ ¬DeepensAt tokens k

/-- The error at a token explains it. -/
theorem Progress.explains_of_step
    {tokens : List Token} {k : Nat} {q : Progress} {t : Token}
    {cause : ParseCause} (htoken : tokens[k]? = some t)
    (hrun : start.run 0 (tokens.take k) = .ok q)
    (hstep : q.step 0 t = .error cause) : Explains tokens k cause := by
  have hmixes (own found : Connector) :
      cause = .mixedConnectors own found ↔ MixesAt tokens k own found := by
    rw [mixesAt_iff hrun, htoken]
    constructor
    · rintro rfl
      rcases step_eq_error_cases hstep with
        ⟨enclosing, e, own', found', rfl, hown, rfl, hne, heq⟩ |
        ⟨_, _, _, _, _, heq⟩ | ⟨_, heq⟩
      · cases heq
        exact ⟨rfl, hne, e, rfl, hown⟩
      · cases heq
      · cases heq
    · rintro ⟨ht, hne, e, hfocus, hown⟩
      obtain ⟨enclosing, focus⟩ := q
      obtain rfl : focus = .complete e := hfocus
      obtain rfl := Option.some.inj ht
      rw [step_of_mixed hown hne] at hstep
      exact (Except.error.inj hstep).symm
  have hdeepens : cause = .nestingTooDeep ↔ DeepensAt tokens k := by
    rw [deepensAt_iff hrun, htoken]
    constructor
    · rintro rfl
      rcases step_eq_error_cases hstep with
        ⟨_, _, _, _, _, _, _, _, heq⟩ |
        ⟨enclosing, before, rfl, rfl, hfull, -⟩ | ⟨_, heq⟩
      · cases heq
      · rw [Nat.zero_add] at hfull
        exact ⟨rfl, ⟨before, rfl⟩, hfull⟩
      · cases heq
    · rintro ⟨ht, ⟨before, hfocus⟩, hfull⟩
      obtain ⟨enclosing, focus⟩ := q
      obtain rfl : focus = .term before := hfocus
      obtain rfl := Option.some.inj ht
      rw [step_of_tooDeep (by rwa [Nat.zero_add])] at hstep
      exact (Except.error.inj hstep).symm
  refine ⟨hmixes, hdeepens, ?_⟩
  constructor
  · rintro ⟨expected, rfl⟩
    refine ⟨fun own found hmixed => ?_, fun hdeep => ?_⟩
    · cases (hmixes own found).mpr hmixed
    · cases hdeepens.mpr hdeep
  · rintro ⟨hnotMixed, hnotDeep⟩
    rcases step_eq_error_cases hstep with
      ⟨_, _, own, found, _, _, _, _, rfl⟩ | ⟨_, _, _, _, _, rfl⟩ |
      ⟨expected, heq⟩
    · exact absurd ((hmixes own found).mp rfl) (hnotMixed own found)
    · exact absurd (hdeepens.mp rfl) hnotDeep
    · exact ⟨expected, by rw [heq, htoken]⟩

/-- The error at the end of the tokens explains it. -/
theorem Progress.explains_of_finish
    {tokens : List Token} {k : Nat} {q : Progress} {cause : ParseCause}
    (hend : tokens[k]? = none) (hfinish : q.finish = .error cause) :
    Explains tokens k cause := by
  obtain ⟨expected, rfl⟩ := exists_unexpected_of_finish hfinish
  have hnotMixed (own found : Connector) : ¬MixesAt tokens k own found := by
    intro hmixed
    have htoken := hmixed.token_eq
    rw [hend] at htoken
    cases htoken
  have hnotDeep : ¬DeepensAt tokens k := by
    intro hdeep
    have htoken := hdeep.token_eq
    rw [hend] at htoken
    cases htoken
  refine ⟨fun own found => ?_, ?_, ?_⟩
  · exact iff_of_false (by simp) (hnotMixed own found)
  · exact iff_of_false (by simp) hnotDeep
  · exact iff_of_true ⟨expected, by rw [hend]⟩ ⟨hnotMixed, hnotDeep⟩

theorem Progress.Refuses.explains
    {tokens : List Lexeme} {k stop place : Nat} {q : Progress}
    {cause : ParseCause}
    (hrun : start.run 0 ((tokens.take k).map Lexeme.token) = .ok q)
    (h : q.Refuses 0 stop tokens[k]? place cause) :
    Explains (tokens.map Lexeme.token) k cause := by
  rw [List.map_take] at hrun
  have hfound : (tokens.map Lexeme.token)[k]? = tokens[k]?.map Lexeme.token :=
    List.getElem?_map
  generalize tokens[k]? = found at h hfound
  cases h with
  | token hstep => exact explains_of_step hfound hrun hstep
  | atEnd hfinish => exact explains_of_finish hfound hfinish

namespace Expression

/-- Tokens that are no expression go wrong at exactly one index. The error is at
the place of that index, and says that connectors are mixed there, or groups
nested too deep, exactly if they are, and otherwise what was found. Only for no
tokens at all there is an error without a place. -/
theorem ofTokens_fails_behind_viable (tokens : List Lexeme) :
    (tokens = [] → ofTokens tokens = .error .empty) ∧
    (tokens ≠ [] → (∀ e, ofTokens tokens ≠ .ok e) →
      ∃ k cause, GoesWrongAt tokens k ∧
        (∀ j, GoesWrongAt tokens j → j = k) ∧
        ofTokens tokens = .error (.misplaced (placeAt tokens k) cause) ∧
        Explains (tokens.map Lexeme.token) k cause) := by
  constructor
  · rintro rfl
    rfl
  · intro hne hrejected
    obtain ⟨k, q, cause, hk, hrun, hrefuses, hanswer⟩ :=
      exists_refuses_of_ofTokens hne hrejected
    have hwrong := hrefuses.goesWrongAt hk hrun
    exact ⟨k, cause, hwrong, fun j hj => hj.unique hwrong, hanswer,
      hrefuses.explains hrun⟩

theorem ofTokens_fails_behind_viable_of_mixed_group :
    let tokens : List Lexeme :=
      [⟨.opening, 0, 1⟩, ⟨.field "a", 1, 2⟩, ⟨.operator .less, 3, 4⟩,
        ⟨.literal (.string "s"), 4, 7⟩, ⟨.connector .and, 8, 11⟩,
        ⟨.field "b", 12, 13⟩, ⟨.operator .equal, 13, 14⟩,
        ⟨.literal (.boolean true), 14, 18⟩, ⟨.connector .or, 19, 21⟩]
    tokens ≠ [] ∧ (∀ e, ofTokens tokens ≠ .ok e) ∧
      ∃ k, GoesWrongAt tokens k ∧ placeAt tokens k = 19 ∧
        MixesAt (tokens.map Lexeme.token) k .and .or := by
  intro tokens
  have hanswer : ofTokens tokens =
      .error (.misplaced 19 (.mixedConnectors .and .or)) := rfl
  have hne : tokens ≠ [] := by simp [tokens]
  have hrejected (e : Expression) : ofTokens tokens ≠ .ok e := by
    rw [hanswer]
    simp
  obtain ⟨k, cause, hwrong, -, herror, hexplains⟩ :=
    (ofTokens_fails_behind_viable tokens).2 hne hrejected
  rw [hanswer, Except.error.injEq, ParseError.misplaced.injEq] at herror
  exact ⟨hne, hrejected, k, hwrong, herror.1.symm,
    (hexplains.mixedConnectors_iff .and .or).mp herror.2.symm⟩

end Expression

end Rulebook
