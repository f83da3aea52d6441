import Mathlib
import Rulebook.Proofs.Descent

/-!
# A parser that is asked again

A parser that is asked again goes on where it stopped. Its position moves towards
the end of its tokens, and the number of open groups grows by the groups that a
call opens and does not close, so it is the same behind a call that succeeds. It
never is beyond the limit, since what is opened counts together with what was left
open before. A call that succeeds reads all tokens, so that nothing is left for the
ones behind it.
-/

namespace Rulebook

/-! ## What a call reads -/

namespace Progress

/-- Tokens are read up to some index, and if there is an answer then up to the
end. -/
theorem exists_run_of_read (depth stop : Nat) (p : Progress)
    (lexemes : List Lexeme) :
    ∃ k q, p.run depth ((lexemes.take k).map Lexeme.token) = .ok q ∧
      (p.read depth stop lexemes).rest = lexemes.drop k ∧
      k ≤ lexemes.length ∧
      (p.read depth stop lexemes).openGroups = q.openGroups ∧
      ∀ e, (p.read depth stop lexemes).answer = .ok e →
        k = lexemes.length ∧ q = ⟨[], .complete e⟩ := by
  induction lexemes generalizing p with
  | nil =>
      refine ⟨0, p, rfl, rfl, le_rfl, rfl, fun e he => ⟨rfl, ?_⟩⟩
      obtain ⟨q, hrun, hfinish⟩ := answer_read_eq_ok_iff.mp he
      obtain rfl : p = q := by simpa using hrun
      exact finish_eq_ok_iff.mp hfinish
  | cons lexeme rest ih =>
      rw [read]
      cases hstep : p.step depth lexeme.token with
      | error cause =>
          refine ⟨0, p, rfl, rfl, Nat.zero_le _, rfl, fun e he => ?_⟩
          cases he
      | ok next =>
          obtain ⟨k, q, hrun, hrest, hle, hgroups, hanswer⟩ := ih next
          refine ⟨k + 1, q, ?_, hrest, Nat.succ_le_succ hle, hgroups, ?_⟩
          · rw [List.take_succ_cons, List.map_cons, run_cons hstep, hrun]
          · intro e he
            obtain ⟨rfl, hq⟩ := hanswer e he
            exact ⟨rfl, hq⟩

/-- No token closes a group that was not opened in front of it. -/
theorem count_closing_le {depth : Nat} {q : Progress} {tokens before : List Token}
    (h : start.run depth tokens = .ok q) (hinitial : before <+: tokens) :
    before.count .closing ≤ before.count .opening := by
  obtain ⟨rest, rfl⟩ := hinitial
  obtain ⟨p, hrun, -⟩ := exists_run_of_run_append h
  have hgroups := openGroups_run hrun
  rw [show start.openGroups = 0 from rfl] at hgroups
  omega

end Progress

namespace Parser

variable {p : Parser}

/-- The tokens that a call reads. -/
def consumed (p : Parser) : List Token :=
  (p.rest.take (p.parse.2.position - p.position)).map Lexeme.token

theorem tokens_parse (p : Parser) : p.parse.2.tokens = p.tokens := by
  unfold parse
  split <;> rfl

theorem parse_of_empty (h : p.tokens = []) : p.parse = (.error .empty, p) := by
  rw [parse, if_pos (by simp [h])]

/-- A call reads tokens from the start of a level on, while the groups that were
left open are open outside. -/
theorem exists_run_consumed (h : p.position ≤ p.tokens.length) :
    ∃ q, Progress.start.run p.depth p.consumed = .ok q ∧
      p.parse.2.depth = p.depth + q.openGroups ∧
      ∀ e, p.parse.1 = .ok e →
        p.parse.2.position = p.tokens.length ∧ q = ⟨[], .complete e⟩ := by
  by_cases hempty : p.tokens = []
  · rw [consumed, parse_of_empty hempty]
    exact ⟨.start, by simp, rfl, nofun⟩
  · obtain ⟨k, q, hrun, hrest, hle, hgroups, hanswer⟩ :=
      Progress.exists_run_of_read p.depth (stopOf p.tokens) .start
        (p.tokens.drop p.position)
    rw [List.length_drop] at hle hanswer
    have hparse := parse_eq_read hempty
    have hposition : p.parse.2.position = p.position + k := by
      rw [hparse]
      simp only [hrest, List.drop_drop, List.length_drop]
      omega
    refine ⟨q, ?_, ?_, fun e he => ?_⟩
    · rwa [consumed, hposition, Nat.add_sub_cancel_left]
    · rw [hparse]
      simp only [hgroups]
    · rw [hparse] at he
      obtain ⟨hk, hq⟩ := hanswer e he
      exact ⟨by omega, hq⟩

/-- At the end of its tokens, a parser stays as it is. -/
theorem parse_at_end {last : Lexeme} (hlast : p.tokens.getLast? = some last)
    (h : p.position = p.tokens.length) :
    p.parse = (.error (.misplaced last.stop (.unexpected .term none)), p) := by
  have hne : p.tokens ≠ [] := by
    rintro hempty
    rw [hempty] at hlast
    cases hlast
  rw [parse_eq_read hne, h, List.drop_length, stopOf, hlast]
  simp [Progress.read, Progress.finish, Progress.start, Progress.openGroups,
    Except.mapError, ← h]

/-- A call moves the position on among the tokens, and the number of open groups
up to the limit at most. -/
theorem parse_moves (hposition : p.position ≤ p.tokens.length)
    (hdepth : p.depth ≤ maxDepth) :
    (p.position ≤ p.parse.2.position ∧
        p.parse.2.position ≤ p.tokens.length) ∧
      p.depth ≤ p.parse.2.depth ∧ p.parse.2.depth ≤ maxDepth := by
  have hbounded := descend_isBounded hposition hdepth
  have hcursor := (parse_eq_descend hposition hdepth).2
  have hstart := p.descend.start_le
  have hend := hbounded.position_le
  have hmem := hbounded.depth_mem
  rw [hcursor] at hstart hend hmem
  exact ⟨⟨hstart, hend⟩, Int.ofNat_le.mp hmem.1, Int.ofNat_le.mp hmem.2⟩

/-- A call that succeeds answers what is within the limit together with the
groups that were left open, and reads all tokens. -/
theorem parse_eq_ok {e : Expression} (hposition : p.position ≤ p.tokens.length)
    (hdepth : p.depth ≤ maxDepth) (h : p.parse.1 = .ok e) :
    p.parse.2.depth = p.depth ∧ p.parse.2.position = p.tokens.length ∧
      p.depth + e.depth ≤ maxDepth ∧
        ∃ last, p.tokens.getLast? = some last := by
  obtain ⟨q, hrun, hgroups, hanswer⟩ := exists_run_consumed hposition
  obtain ⟨hend, rfl⟩ := hanswer e h
  obtain ⟨hfits, -⟩ :=
    Progress.run_fits_and_tokens hrun (Progress.fits_start hdepth)
  refine ⟨hgroups, hend, hfits.inside, ?_⟩
  cases hlast : p.tokens.getLast? with
  | none =>
      rw [parse_of_empty (List.getLast?_eq_none_iff.mp hlast)] at h
      cases h
  | some last => exact ⟨last, rfl⟩

/-- A call adds as many groups to the open ones as were opened and not closed by
the tokens that it reads, and these close no other ones. -/
theorem depth_parse (hposition : p.position ≤ p.tokens.length) :
    p.parse.2.depth + p.consumed.count .closing =
        p.depth + p.consumed.count .opening ∧
      ∀ before, before <+: p.consumed →
        before.count .closing ≤ before.count .opening := by
  obtain ⟨q, hrun, hdepth, -⟩ := exists_run_consumed hposition
  have hgroups := Progress.openGroups_run hrun
  rw [show Progress.start.openGroups = 0 from rfl] at hgroups
  exact ⟨by omega, fun before hinitial =>
    Progress.count_closing_le hrun hinitial⟩

/-! ## Calls one after another -/

/-- A parser behind some calls. -/
def afterCalls (tokens : List Lexeme) : Nat → Parser
  | 0 => .ofTokens tokens
  | n + 1 => (afterCalls tokens n).parse.2

@[simp] theorem tokens_afterCalls (tokens : List Lexeme) (n : Nat) :
    (afterCalls tokens n).tokens = tokens := by
  induction n with
  | zero => rfl
  | succ n ih => rw [afterCalls, tokens_parse, ih]

theorem afterCalls_bounds (tokens : List Lexeme) (n : Nat) :
    (afterCalls tokens n).position ≤ (afterCalls tokens n).tokens.length ∧
      (afterCalls tokens n).depth ≤ maxDepth := by
  induction n with
  | zero => exact ⟨Nat.zero_le _, Nat.zero_le _⟩
  | succ n ih =>
      obtain ⟨⟨-, hposition⟩, -, hdepth⟩ := parse_moves ih.1 ih.2
      rw [afterCalls, tokens_parse]
      exact ⟨hposition, hdepth⟩

/-- Behind a call that came to the end of the tokens, a parser stays there. -/
theorem parse_afterCalls_of_at_end {tokens : List Lexeme} {n : Nat}
    {last : Lexeme} (hlast : tokens.getLast? = some last)
    (h : (afterCalls tokens n).position = tokens.length) {m : Nat}
    (hle : n ≤ m) :
    (afterCalls tokens m).parse =
      (.error (.misplaced last.stop (.unexpected .term none)),
        afterCalls tokens n) := by
  induction m, hle using Nat.le_induction with
  | base => exact parse_at_end (by simpa using hlast) (by simpa using h)
  | succ m hle ih =>
      rw [afterCalls, ih]
      exact parse_at_end (by simpa using hlast) (by simpa using h)

/-- However often a parser is asked, a call comes to the answer of a descent that
starts where the last call stopped, and stops where the cursor is left. The
position never decreases and stays among the tokens. The number of open groups
never falls below what it was at the start of the call, nor exceeds the limit, and
whenever it changes there is another token read.

A call that succeeds leaves the number of open groups as it was, and what it
answers is within the limit together with them. It reads all tokens, and every
call after it finds nothing at their end. A call that fails adds the number of
groups that were opened and not closed by the tokens that it read. -/
theorem parser_counts_unclosed_groups (tokens : List Lexeme) (n : Nat) :
    let p := afterCalls tokens n
    let q := afterCalls tokens (n + 1)
    let d := p.descend
    (p.parse.1 = d.answer ∧ d.cursor = ⟨q.position, q.depth⟩) ∧
    (p.position ≤ q.position ∧ q.position ≤ tokens.length) ∧
    (p.depth ≤ q.depth ∧ q.depth ≤ maxDepth) ∧
    ((∀ turn ∈ d.turns, p.position < turn.position ∧
        turn.position ≤ q.position ∧
          (p.depth : Int) ≤ turn.depth ∧ turn.depth ≤ maxDepth) ∧
      d.turns.Pairwise fun a b => a.position < b.position) ∧
    (∀ e, p.parse.1 = .ok e →
      q.depth = p.depth ∧ q.position = tokens.length ∧
        p.depth + e.depth ≤ maxDepth ∧
          ∃ last, tokens.getLast? = some last ∧ ∀ m, n < m →
            (afterCalls tokens m).parse.1 =
              .error (.misplaced last.stop (.unexpected .term none))) ∧
    ∀ cause, p.parse.1 = .error cause →
      q.depth + p.consumed.count .closing =
          p.depth + p.consumed.count .opening ∧
        ∀ before, before <+: p.consumed →
          before.count .closing ≤ before.count .opening := by
  intro p q d
  obtain ⟨hposition, hdepth⟩ := afterCalls_bounds tokens n
  obtain ⟨hanswer, hcursor⟩ := parse_eq_descend hposition hdepth
  obtain ⟨hpositions, hdepths⟩ := parse_moves hposition hdepth
  rw [tokens_afterCalls] at hpositions
  have hbounded := descend_isBounded hposition hdepth
  refine ⟨⟨hanswer, hcursor⟩, hpositions, hdepths,
    ⟨fun turn hturn => ?_, hbounded.turns_sorted⟩, fun e he => ?_,
    fun _ _ => depth_parse hposition⟩
  · have hmem := hbounded.turns_mem turn hturn
    rwa [hcursor] at hmem
  · obtain ⟨hsame, hend, hwithin, last, hlast⟩ :=
      parse_eq_ok hposition hdepth he
    rw [tokens_afterCalls] at hend hlast
    refine ⟨hsame, hend, hwithin, last, hlast, fun m hlt => ?_⟩
    rw [parse_afterCalls_of_at_end (n := n + 1) hlast hend hlt]

theorem parser_counts_unclosed_groups_of_group_left_open :
    let tokens : List Lexeme := [⟨.opening, 0, 1⟩, ⟨.field "a", 1, 2⟩,
      ⟨.operator .equal, 3, 4⟩, ⟨.field "b", 5, 6⟩, ⟨.operator .equal, 7, 8⟩,
      ⟨.literal (.boolean true), 9, 13⟩]
    let e : Expression := .single (.condition ⟨"b", .equal, .boolean true⟩)
    ((afterCalls tokens 0).parse.1 =
        .error (.misplaced 5 (.unexpected .literal (some (.field "b")))) ∧
      (afterCalls tokens 1).depth +
          (afterCalls tokens 0).consumed.count .closing =
        (afterCalls tokens 0).depth +
          (afterCalls tokens 0).consumed.count .opening ∧
      [.opening] <+: (afterCalls tokens 0).consumed ∧
      [Token.opening].count .closing ≤ [Token.opening].count .opening ∧
      ⟨1, 1⟩ ∈ (afterCalls tokens 0).descend.turns ∧
      (1 : Int) ≤ maxDepth) ∧
    (afterCalls tokens 1).parse.1 = .ok e ∧
      (afterCalls tokens 2).depth = (afterCalls tokens 1).depth ∧
      (afterCalls tokens 1).depth + e.depth ≤ maxDepth ∧
      ∃ last, tokens.getLast? = some last ∧ 1 < 2 ∧
        (afterCalls tokens 2).parse.1 =
          .error (.misplaced last.stop (.unexpected .term none)) := by
  intro tokens e
  have hfails : (afterCalls tokens 0).parse.1 =
      .error (.misplaced 5 (.unexpected .literal (some (.field "b")))) := by
    rfl
  have hinitial : [.opening] <+: (afterCalls tokens 0).consumed := by decide
  have hturn : ⟨1, 1⟩ ∈ (afterCalls tokens 0).descend.turns := by
    have hturns : (afterCalls tokens 0).descend.turns = [⟨1, 1⟩] := by cbv
    rw [hturns]
    exact List.mem_singleton_self _
  have hsucceeds : (afterCalls tokens 1).parse.1 = .ok e := by rfl
  obtain ⟨-, -, -, ⟨hturns, -⟩, -, herror⟩ :=
    parser_counts_unclosed_groups tokens 0
  obtain ⟨hcount, hclosing⟩ := herror _ hfails
  obtain ⟨-, -, -, -, hok, -⟩ := parser_counts_unclosed_groups tokens 1
  obtain ⟨hdepth, -, hwithin, last, hlast, hlater⟩ := hok e hsucceeds
  exact ⟨⟨hfails, hcount, hinitial, hclosing _ hinitial, hturn,
    (hturns _ hturn).2.2.2⟩, hsucceeds, hdepth, hwithin, last, hlast,
    by decide, hlater 2 (by decide)⟩

end Parser

end Rulebook
