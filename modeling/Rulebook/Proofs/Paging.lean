import Mathlib
import Rulebook.Proofs.Registry
import Rulebook.Settings.Basic

/-!
# Pages of the list of rules

The list of all rules is the one list of the stored rules in which each stands
in front of the next: it was created earlier, or at the same time and has the
smaller id. So it depends on nothing but the rules in the store.

The pages of any size cut this list into pieces, all of which are full except
perhaps the last. Places in the list are counted with 64 bits. Where a product
is too large for that, the page is beyond the end of the list anyway.
-/

namespace Rulebook

/-! ## The order of rules -/

/-- A rule is listed in front of another one if it was created earlier, or at
the same time and has the smaller id. -/
def Rule.InFrontOf (a b : Rule) : Prop :=
  a.createdAt.before b.createdAt = true ∨
    a.createdAt = b.createdAt ∧ a.id < b.id

namespace Rule

variable {a b c : Rule}

theorem listedBefore_iff :
    a.listedBefore b = true ↔
      a.createdAt.before b.createdAt = true ∨
        a.createdAt = b.createdAt ∧ a.id ≤ b.id := by
  rw [listedBefore, Bool.or_eq_true, Bool.and_eq_true, decide_eq_true_eq,
    Instant.atMost_iff_before_or_eq, or_and_right]
  constructor
  · rintro (hbefore | ⟨hbefore, -⟩ | heq)
    · exact .inl hbefore
    · exact .inl hbefore
    · exact .inr heq
  · rintro (hbefore | heq)
    · exact .inl hbefore
    · exact .inr (.inr heq)

theorem listedBefore_iff_inFrontOf_or :
    a.listedBefore b = true ↔
      a.InFrontOf b ∨ a.createdAt = b.createdAt ∧ a.id = b.id := by
  rw [listedBefore_iff, Std.le_iff_lt_or_eq, InFrontOf, and_or_left, or_assoc]

theorem listedBefore_trans (hab : a.listedBefore b = true)
    (hbc : b.listedBefore c = true) : a.listedBefore c = true := by
  rw [listedBefore_iff] at *
  rcases hab with hab | ⟨hab, hids⟩
  · rcases hbc with hbc | ⟨hbc, -⟩
    · exact .inl (Instant.before_trans hab hbc)
    · exact .inl (hbc ▸ hab)
  · rcases hbc with hbc | ⟨hbc, hids'⟩
    · exact .inl (hab ▸ hbc)
    · exact .inr ⟨hab.trans hbc, String.le_trans hids hids'⟩

theorem listedBefore_total (a b : Rule) :
    (a.listedBefore b || b.listedBefore a) = true := by
  rw [Bool.or_eq_true, listedBefore_iff, listedBefore_iff]
  rcases Instant.before_or_eq_or_before a.createdAt b.createdAt with
    hbefore | heq | hbefore
  · exact .inl (.inl hbefore)
  · rcases String.le_total a.id b.id with hids | hids
    · exact .inl (.inr ⟨heq, hids⟩)
    · exact .inr (.inr ⟨heq.symm, hids⟩)
  · exact .inr (.inl hbefore)

theorem InFrontOf.asymm (hab : a.InFrontOf b) : ¬b.InFrontOf a := by
  intro hba
  rcases hab with hab | ⟨hab, hids⟩
  · rcases hba with hba | ⟨hba, -⟩
    · exact Instant.not_before_self _ (Instant.before_trans hab hba)
    · rw [hba] at hab
      exact Instant.not_before_self _ hab
  · rcases hba with hba | ⟨-, hids'⟩
    · rw [hab] at hba
      exact Instant.not_before_self _ hba
    · exact String.lt_irrefl _ (String.lt_trans hids hids')

end Rule

namespace Store

variable {s t : Store}

/-- The rules in a store. -/
def Holds (s : Store) (r : Rule) : Prop :=
  ∃ id c, s.get? id = some c ∧ c.rule = r

/-- Whether every rule stands under its own id. So it is in the empty store, and
putting rules into a store keeps it so. -/
def HasOwnIds (s : Store) : Prop :=
  ∀ id c, s.get? id = some c → c.rule.id = id

theorem hasOwnIds_empty : empty.HasOwnIds := by
  intro id c h
  cases h

theorem HasOwnIds.put (h : s.HasOwnIds) (c : CompiledRule) :
    (s.put c).HasOwnIds := by
  intro id d hd
  rw [get?_put] at hd
  split at hd
  · next hid =>
    rw [← Option.some.inj hd]
    exact hid
  · exact h id d hd

/-- The list of the rules in a store, each in front of the next. -/
structure Lists (s : Store) (rules : List Rule) : Prop where
  mem_iff : ∀ r, r ∈ rules ↔ s.Holds r
  inFrontOf : rules.Pairwise Rule.InFrontOf

theorem Lists.nodup {rules : List Rule} (h : s.Lists rules) : rules.Nodup := by
  refine h.inFrontOf.imp fun {a b} hab heq => ?_
  rw [heq] at hab
  exact hab.asymm hab

/-- Rules in a store can be listed in only one way. -/
theorem Lists.eq {rules rules' : List Rule} (h : s.Lists rules)
    (h' : s.Lists rules') : rules = rules' := by
  have hperm : rules.Perm rules' := by
    refine (List.perm_ext_iff_of_nodup h.nodup h'.nodup).mpr fun r => ?_
    rw [h.mem_iff, h'.mem_iff]
  refine List.Perm.eq_of_pairwise ?_ h.inFrontOf h'.inFrontOf hperm
  intro a b _ _ hab hba
  exact absurd hba hab.asymm

/-- In whatever order the rules of a store are gone through, sorting lists
them. -/
theorem lists_mergeSort_of_perm
    (h : s.HasOwnIds) {rules : List Rule}
    (hperm : rules.Perm (s.rules.values.map CompiledRule.rule)) :
    s.Lists (rules.mergeSort Rule.listedBefore) := by
  have hsame : (rules.mergeSort Rule.listedBefore).Perm
      (s.rules.values.map CompiledRule.rule) :=
    (List.mergeSort_perm _ _).trans hperm
  constructor
  · intro r
    rw [hsame.mem_iff, ← @List.mem_mergeSort _ Rule.listedBefore]
    exact s.mem_listing_iff_exists r
  · have hsorted : (rules.mergeSort Rule.listedBefore).Pairwise
        fun a b => a.listedBefore b = true :=
      @List.pairwise_mergeSort _ Rule.listedBefore
        (fun _ _ _ => Rule.listedBefore_trans) Rule.listedBefore_total _
    have hids : ((rules.mergeSort Rule.listedBefore).map Rule.id).Nodup := by
      rw [(hsame.map Rule.id).nodup_iff, map_id_rules h]
      exact s.rules.nodup_names
    have hdistinct := List.pairwise_map.mp hids
    refine hsorted.imp₂ (fun a b hle hne => ?_) hdistinct
    rcases Rule.listedBefore_iff_inFrontOf_or.mp hle with hfront | ⟨-, heq⟩
    · exact hfront
    · exact absurd heq hne

theorem lists_listing (h : s.HasOwnIds) : s.Lists s.listing :=
  lists_mergeSort_of_perm h (List.Perm.refl _)

theorem listing_eq_of_holds_iff
    (hs : s.HasOwnIds) (ht : t.HasOwnIds)
    (hholds : ∀ r, s.Holds r ↔ t.Holds r) : s.listing = t.listing := by
  have hlists : s.Lists t.listing := by
    obtain ⟨hmem, hfront⟩ := lists_listing ht
    exact ⟨fun r => (hmem r).trans (hholds r).symm, hfront⟩
  exact (lists_listing hs).eq hlists

theorem length_listing (s : Store) : s.listing.length = s.rules.size := by
  rw [listing, List.length_mergeSort, List.length_map, Table.values,
    List.length_map, Table.size]

end Store

/-! ## Cutting a list into pages -/

namespace Page

variable {total number limit : Nat}

/-- There are as few pages as can hold all rules. -/
theorem count_le_iff (hlimit : 1 ≤ limit) (n : Nat) :
    count total limit ≤ n ↔ total ≤ n * limit := by
  have hsplit := Nat.div_add_mod total limit
  have hrest := Nat.mod_lt total hlimit
  rw [count]
  split
  · next hpos =>
    constructor
    · intro hle
      have hmul := Nat.mul_le_mul_right limit hle
      rw [Nat.succ_mul, Nat.mul_comm] at hmul
      omega
    · intro hle
      by_contra hlt
      have hmul := Nat.mul_le_mul_left limit (Nat.lt_succ_iff.mp (not_le.mp hlt))
      rw [Nat.mul_comm limit n] at hmul
      omega
  · next hzero =>
    have htotal : total = total / limit * limit := by
      rw [Nat.mul_comm]
      omega
    constructor
    · intro hle
      have hmul := Nat.mul_le_mul_right limit hle
      omega
    · intro hle
      rw [htotal] at hle
      exact Nat.le_of_mul_le_mul_right hle hlimit

/-- The number of pages is the quotient, rounded up. -/
theorem count_eq_ceil (hlimit : 1 ≤ limit) :
    count total limit = ⌈(total : ℚ) / limit⌉₊ := by
  have hpos : (0 : ℚ) < limit := by exact_mod_cast hlimit
  refine eq_of_forall_ge_iff fun n => ?_
  rw [count_le_iff hlimit, Nat.ceil_le, div_le_iff₀ hpos]
  exact_mod_cast Iff.rfl

theorem count_le_total (hlimit : 1 ≤ limit) : count total limit ≤ total := by
  rw [count_le_iff hlimit]
  exact Nat.le_mul_of_pos_right total hlimit

/-- What is behind the offset of a page does not depend on how far can be
counted, as long as all places of the list can be counted. -/
theorem drop_offset {α : Type} {xs : List α} (h : xs.length ≤ maxCount)
    (number limit : Nat) :
    xs.drop (offset number limit) = xs.drop ((number - 1) * limit) := by
  rw [offset]
  rcases Nat.le_total ((number - 1) * limit) maxCount with hle | hle
  · rw [Nat.min_eq_left hle]
  · rw [Nat.min_eq_right hle, List.drop_eq_nil_of_le h,
      List.drop_eq_nil_of_le (h.trans hle)]

/-- Pieces of one length, put together again. -/
theorem flatMap_take_drop {α : Type} (xs : List α) (limit count : Nat) :
    ((List.range count).flatMap fun i => (xs.drop (i * limit)).take limit) =
      xs.take (count * limit) := by
  induction count with
  | zero => simp
  | succ count ih =>
      rw [List.range_succ, List.flatMap_append, ih, Nat.succ_mul, List.take_add]
      simp

end Page

theorem RuleSettings.pageLimit_bounds
    {settings : RuleSettings} {asked : Option Nat}
    (hmax : 1 ≤ settings.maxPageSize)
    (hasked : 1 ≤ asked.getD settings.defaultPageSize) :
    1 ≤ settings.pageLimit asked ∧
      settings.pageLimit asked ≤ settings.maxPageSize :=
  ⟨Nat.le_min.mpr ⟨hasked, hmax⟩, Nat.min_le_right _ _⟩

namespace Store

variable {s t : Store} {number limit : Nat}

theorem page_eq_error_iff {cause : RuleError} :
    s.page number limit = .error cause ↔
      (number = 0 ∨ limit = 0) ∧ cause = .invalidPage number limit := by
  rw [page]
  split
  · next hzero => simp [hzero, eq_comm]
  · next hpos => simp [hpos]

theorem page_eq_ok (hnumber : 1 ≤ number) (hlimit : 1 ≤ limit) :
    s.page number limit = .ok (s.pageAt number limit) := by
  rw [page, if_neg (by omega)]

/-- How the pages with at most `limit` rules cut the list of all rules into
pieces: all are full but the last, which is not empty, and what is behind the
last one is empty. Every page tells how many there are. -/
structure IsCutInto (s : Store) (limit pages : Nat) : Prop where
  page_eq : ∀ number, 1 ≤ number →
    s.page number limit = .ok (s.pageAt number limit)
  total_eq : ∀ number, (s.pageAt number limit).total = s.listing.length
  pages_eq : ∀ number, (s.pageAt number limit).pages = pages
  flatMap_rules : ((List.range' 1 pages).flatMap fun number =>
    (s.pageAt number limit).rules) = s.listing
  length_of_lt : ∀ number, 1 ≤ number → number < pages →
    (s.pageAt number limit).rules.length = limit
  length_of_eq : ∀ number, 1 ≤ number → number = pages →
    1 ≤ (s.pageAt number limit).rules.length ∧
      (s.pageAt number limit).rules.length ≤ limit
  rules_of_gt : ∀ number, pages < number →
    (s.pageAt number limit).rules = []

theorem rules_pageAt (hcount : s.rules.size ≤ maxCount) (number limit : Nat) :
    (s.pageAt number limit).rules =
      (s.listing.drop ((number - 1) * limit)).take limit := by
  rw [← length_listing] at hcount
  rw [pageAt, Page.drop_offset hcount]

theorem isCutInto (hcount : s.rules.size ≤ maxCount) (hlimit : 1 ≤ limit) :
    s.IsCutInto limit (Page.count s.listing.length limit) := by
  have hlength (number : Nat) : (s.pageAt number limit).rules.length =
      min limit (s.listing.length - (number - 1) * limit) := by
    rw [rules_pageAt hcount, List.length_take, List.length_drop]
  -- A page that is not behind the last one begins in front of the end.
  have hbegin (number : Nat) :
      Page.count s.listing.length limit ≤ number - 1 ↔
        s.listing.length ≤ (number - 1) * limit :=
    Page.count_le_iff hlimit _
  constructor
  case page_eq =>
    intro number hnumber
    exact page_eq_ok hnumber hlimit
  case total_eq =>
    intro number
    exact s.length_listing.symm
  case pages_eq =>
    intro number
    rw [length_listing]
    rfl
  case flatMap_rules =>
    rw [List.range'_eq_map_range, List.flatMap_map]
    have hpieces := Page.flatMap_take_drop s.listing limit
      (Page.count s.listing.length limit)
    rw [List.take_of_length_le ((Page.count_le_iff hlimit _).mp le_rfl)]
      at hpieces
    refine Eq.trans (List.flatMap_congr fun i _ => ?_) hpieces
    rw [rules_pageAt hcount, Nat.add_sub_cancel_left]
  case length_of_lt =>
    intro number hnumber hlt
    have hend := mt (Page.count_le_iff hlimit number).mpr (not_le.mpr hlt)
    have hmul : number * limit = (number - 1) * limit + limit := by
      rw [← Nat.succ_mul, Nat.succ_eq_add_one, Nat.sub_add_cancel hnumber]
    rw [hlength]
    omega
  case length_of_eq =>
    intro number hnumber heq
    have hnot : ¬Page.count s.listing.length limit ≤ number - 1 := by omega
    rw [hbegin] at hnot
    rw [hlength]
    omega
  case rules_of_gt =>
    intro number hgt
    have hle : Page.count s.listing.length limit ≤ number - 1 := by omega
    rw [hbegin] at hle
    rw [rules_pageAt hcount, List.drop_eq_nil_of_le hle, List.take_nil]

/-- The pages of a store list its rules, which are no more than can be counted.
A number of rules on a page that is asked for or usual is kept within the bounds
of the settings. With any number of rules on a page, the pages cut the one list
of all rules into pieces, as many as the quotient of the two numbers, rounded
up, and nothing is counted beyond 64 bits on the way. Only a page zero or pages
without rules are refused. The order in which the store is gone through does not
matter, and stores of the same rules have the same pages. -/
theorem page_lists_every_rule_once
    (s : Store) (hids : s.HasOwnIds) (hcount : s.rules.size ≤ maxCount) :
    (∀ (settings : RuleSettings) (asked : Option Nat),
      1 ≤ settings.maxPageSize → 1 ≤ asked.getD settings.defaultPageSize →
      1 ≤ settings.pageLimit asked ∧
        settings.pageLimit asked ≤ settings.maxPageSize) ∧
    s.Lists s.listing ∧
    (∀ limit, 1 ≤ limit →
      s.IsCutInto limit ⌈(s.listing.length : ℚ) / limit⌉₊ ∧
      ⌈(s.listing.length : ℚ) / limit⌉₊ ≤ maxCount ∧
      ∀ number, Page.offset number limit ≤ maxCount) ∧
    (∀ number limit cause, s.page number limit = .error cause ↔
      (number = 0 ∨ limit = 0) ∧ cause = .invalidPage number limit) ∧
    (∀ rules : List Rule, rules.Perm (s.rules.values.map CompiledRule.rule) →
      rules.mergeSort Rule.listedBefore = s.listing) ∧
    ∀ t : Store, t.HasOwnIds → (∀ r, t.Holds r ↔ s.Holds r) →
      ∀ number limit, t.page number limit = s.page number limit := by
  have hlists := lists_listing hids
  refine ⟨?_, hlists, ?_, ?_, ?_, ?_⟩
  · intro settings asked hmax hasked
    exact RuleSettings.pageLimit_bounds hmax hasked
  · intro limit hlimit
    have hpages : Page.count s.listing.length limit ≤ s.listing.length :=
      Page.count_le_total hlimit
    rw [← Page.count_eq_ceil hlimit]
    refine ⟨isCutInto hcount hlimit, ?_, ?_⟩
    · rw [← length_listing] at hcount
      exact hpages.trans hcount
    · intro number
      exact Nat.min_le_right _ _
  · intro number limit cause
    exact page_eq_error_iff
  · intro rules hperm
    exact (lists_mergeSort_of_perm hids hperm).eq hlists
  · intro t ht hholds number limit
    have hlisting := listing_eq_of_holds_iff ht hids hholds
    have hsize : t.rules.size = s.rules.size := by
      rw [← length_listing, ← length_listing, hlisting]
    rw [page, page, pageAt, pageAt, hlisting, hsize]

theorem page_lists_every_rule_once_of_equal_times :
    let rule (id : String) (seconds : Int) : CompiledRule :=
      ⟨⟨id, "n", "", "f = true", ⟨seconds, 0⟩, ⟨9, 0⟩, []⟩,
        .single (.condition ⟨"f", .equal, .boolean true⟩), ["f"], 1⟩
    let s := ((empty.put (rule "c" 1)).put (rule "a" 5)).put (rule "b" 1)
    s.HasOwnIds ∧ s.rules.size ≤ maxCount ∧
      s.listing.map Rule.id = ["b", "c", "a"] ∧
      s.IsCutInto 2 2 ∧ (s.pageAt 2 2).rules.map Rule.id = ["a"] := by
  intro rule s
  have hids : s.HasOwnIds :=
    ((hasOwnIds_empty.put _).put _).put _
  have hsize : s.rules.size = 3 := by decide
  have hcount : s.rules.size ≤ maxCount := by
    rw [hsize]
    decide
  have hpages : ⌈(s.listing.length : ℚ) / (2 : Nat)⌉₊ = 2 := by
    rw [← Page.count_eq_ceil (by decide), length_listing, hsize]
    rfl
  have hcut :=
    ((page_lists_every_rule_once s hids hcount).2.2.1 2 (by decide)).1
  rw [hpages] at hcut
  exact ⟨hids, hcount, by cbv, hcut, by cbv⟩

end Store

end Rulebook
