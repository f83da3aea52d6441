import Mathlib
import Rulebook.Proofs.Lineage
import Rulebook.Proofs.Paging

/-!
# The list of rules while rules are written

Rules are listed by the time of their creation and by their ids, and neither ever
changes. So whatever users do, rules that are in the list keep their order, and
new ones come in between. If the clock is later whenever it is read, new rules
come behind all others: full pages stay as they are, and a client who looks at
one page after another sees every rule that was there when it began once.

Only operations that succeed read the clock or take a generated id, so only those
are supposed to have different ids and later times.
-/

namespace Rulebook

namespace Store

/-! ## Runs and what is listed behind them -/

/-- The operation that an action is, if it succeeds. -/
def accomplished? (s : Store) : UserAction → Option Authoring
  | .author w =>
    match (s.author w).1 with
    | .ok _ => some w
    | .error _ => none
  | _ => none

/-- The operations that succeed when a store is used. -/
def accomplished (traced : Bool) (s : Store) : List UserAction → List Authoring
  | [] => []
  | action :: rest =>
    (s.accomplished? action).toList ++
      accomplished traced (s.serve traced action).2 rest

/-- Whether the ids are different that are generated when a new store is used. -/
def TakesDistinctIds (traced : Bool) (actions : List UserAction) : Prop :=
  ((accomplished traced empty actions).filterMap Authoring.newId?).Nodup

/-- Whether the clock is later whenever it is read when a new store is used. -/
def ReadsLaterTimes (traced : Bool) (actions : List UserAction) : Prop :=
  ((accomplished traced empty actions).map Authoring.now).Pairwise
    fun a b => a.before b = true

/-- The ids of all rules in the order in which they are listed. -/
def order (s : Store) : List String := s.listing.map Rule.id

/-- The ids of the rules on a page. -/
def onPage (s : Store) (number limit : Nat) : List String :=
  (s.pageAt number limit).rules.map Rule.id

/-- The ids on all pages, one page behind another. -/
def onPages (s : Store) (limit : Nat) : List String :=
  (List.range' 1 (s.pageAt 1 limit).pages).flatMap fun number =>
    s.onPage number limit

/-- What a client sees who looks at one page after another, beginning at the
given one. Each is the page of a store that was used a while longer. -/
def browse (traced : Bool) (limit : Nat) :
    Nat → List (List UserAction) → List String
  | _, [] => []
  | number, moment :: rest =>
    (served traced moment).onPage number limit ++
      browse traced limit (number + 1) rest

variable {s : Store} {traced : Bool} {actions actions' : List UserAction}
  {action : UserAction} {c : CompiledRule}

theorem accomplished_append
    (traced : Bool) (s : Store) (actions actions' : List UserAction) :
    accomplished traced s (actions ++ actions') =
      accomplished traced s actions ++
        accomplished traced
          (actions.foldl (fun s action => (s.serve traced action).2) s)
          actions' := by
  induction actions generalizing s with
  | nil => rfl
  | cons action actions ih =>
      rw [List.cons_append, accomplished, accomplished, ih, List.append_assoc,
        List.foldl_cons]

theorem accomplished_append_singleton
    (traced : Bool) (actions : List UserAction) (action : UserAction) :
    accomplished traced empty (actions ++ [action]) =
      accomplished traced empty actions ++
        ((served traced actions).accomplished? action).toList := by
  rw [accomplished_append, accomplished, accomplished, List.append_nil, served]

theorem accomplished_isPrefix (hinitial : actions <+: actions') :
    accomplished traced empty actions <+:
      accomplished traced empty actions' := by
  obtain ⟨later, rfl⟩ := hinitial
  rw [accomplished_append]
  exact List.prefix_append _ _

theorem TakesDistinctIds.of_isPrefix
    (h : TakesDistinctIds traced actions') (hinitial : actions <+: actions') :
    TakesDistinctIds traced actions :=
  h.sublist ((accomplished_isPrefix hinitial).sublist.filterMap _)

theorem ReadsLaterTimes.of_isPrefix
    (h : ReadsLaterTimes traced actions') (hinitial : actions <+: actions') :
    ReadsLaterTimes traced actions :=
  List.Pairwise.sublist ((accomplished_isPrefix hinitial).sublist.map _) h

/-! ## Where the rules in a store come from -/

/-- An action keeps the store, or it is an operation that succeeds and records
what it writes. -/
theorem IsConsistent.accomplishes_cases
    (hs : s.IsConsistent) (traced : Bool) (action : UserAction) :
    s.accomplished? action = none ∧ (s.serve traced action).2 = s ∨
      ∃ w c, s.accomplished? action = some w ∧
        (s.serve traced action).2 = s.record c ∧ s.Writes c w := by
  match action with
  | .evaluate _ _ | .rule _ | .list _ _ => exact .inl ⟨rfl, rfl⟩
  | .author w =>
      rcases hs.act_cases (.author w) with
        ⟨cause, hfails⟩ | ⟨r, c, -, hrecords⟩
      · have hauthor : s.author w = (.error cause, s) := hfails
        exact .inl ⟨by rw [accomplished?, hauthor], congrArg Prod.snd hauthor⟩
      · obtain ⟨-, hwrites, -⟩ := hs.author_eq_ok hrecords
        have hauthor : s.author w = (.ok c, s.record c) := hrecords
        exact .inr ⟨w, c, by rw [accomplished?, hauthor],
          congrArg Prod.snd hauthor, hwrites⟩

theorem IsConsistent.serve
    (hs : s.IsConsistent) (traced : Bool) (action : UserAction) :
    (s.serve traced action).2.IsConsistent := by
  match action with
  | .evaluate _ _ | .rule _ | .list _ _ => exact hs
  | .author w => exact hs.act (.author w)

theorem isConsistent_served (traced : Bool) (actions : List UserAction) :
    (served traced actions).IsConsistent := by
  induction actions using List.reverseRecOn with
  | nil => exact isConsistent_empty
  | append_singleton actions action ih =>
      rw [served_append_singleton]
      exact ih.serve traced action

/-- Every rule was made by an operation that succeeded. -/
theorem exists_accomplished_makes (traced : Bool) (actions : List UserAction) :
    ∀ id c, (served traced actions).get? id = some c →
      ∃ w ∈ accomplished traced empty actions, w.Makes c.rule := by
  induction actions using List.reverseRecOn with
  | nil =>
      intro id c hc
      cases hc
  | append_singleton actions action ih =>
      intro id c hc
      have hconsistent := isConsistent_served traced actions
      rw [served_append_singleton] at hc
      rw [accomplished_append_singleton]
      have before {old : CompiledRule} {id : String}
          (hold : (served traced actions).get? id = some old) :
          ∃ w ∈ accomplished traced empty actions ++
            ((served traced actions).accomplished? action).toList,
              w.Makes old.rule := by
        obtain ⟨w, hw, hmakes⟩ := ih id old hold
        exact ⟨w, List.mem_append_left _ hw, hmakes⟩
      rcases hconsistent.accomplishes_cases traced action with
        ⟨-, hkept⟩ | ⟨w, d, hw, hrecords, hwrites⟩
      · rw [hkept] at hc
        exact before hc
      · rw [hrecords, get?_record] at hc
        split at hc
        · obtain rfl := Option.some.inj hc
          rcases hconsistent.makes_or_replaces hwrites with
            ⟨hmakes, -⟩ | ⟨-, old, hold, hsame⟩
          · exact ⟨w, by simp [hw], hmakes⟩
          · obtain ⟨v, hv, hmakes⟩ := before hold
            exact ⟨v, hv, hmakes.of_sameOrigin hsame⟩
        · exact before hc

theorem TakesDistinctIds.get?_newId
    {w : Authoring} {id : String}
    (h : TakesDistinctIds traced (actions ++ [action]))
    (hw : (served traced actions).accomplished? action = some w)
    (hid : w.newId? = some id) : (served traced actions).get? id = none := by
  by_contra hne
  obtain ⟨c, hc⟩ := Option.ne_none_iff_exists'.mp hne
  obtain ⟨v, hv, hmakes⟩ := exists_accomplished_makes traced actions id c hc
  have hgiven : id ∈
      (accomplished traced empty actions).filterMap Authoring.newId? := by
    refine List.mem_filterMap.mpr ⟨v, hv, ?_⟩
    rw [← (isConsistent_served traced actions).id_eq id c hc]
    exact hmakes.newId?_eq
  rw [TakesDistinctIds, accomplished_append_singleton, hw, List.filterMap_append,
    List.nodup_append] at h
  exact h.2.2 id hgiven id (by simp [hid]) rfl

theorem ReadsLaterTimes.createdAt_before
    {w : Authoring} {id : String}
    (h : ReadsLaterTimes traced (actions ++ [action]))
    (hw : (served traced actions).accomplished? action = some w)
    (hc : (served traced actions).get? id = some c) :
    c.rule.createdAt.before w.now = true := by
  obtain ⟨v, hv, hmakes⟩ := exists_accomplished_makes traced actions id c hc
  rw [ReadsLaterTimes, accomplished_append_singleton, hw, List.map_append,
    List.pairwise_append] at h
  rw [← hmakes.now_eq]
  exact h.2.2 _ (List.mem_map_of_mem hv) _ (by simp)

/-! ## What one operation does to the list -/

theorem holds_record_iff (hs : s.HasOwnIds) {r : Rule} :
    (s.record c).Holds r ↔ r = c.rule ∨ s.Holds r ∧ r.id ≠ c.rule.id := by
  constructor
  · rintro ⟨id, d, hd, rfl⟩
    rw [get?_record] at hd
    split at hd
    · rw [← Option.some.inj hd]
      exact .inl rfl
    · next hne =>
      refine .inr ⟨⟨id, d, hd, rfl⟩, ?_⟩
      rw [hs id d hd]
      exact fun heq => hne heq.symm
  · rintro (rfl | ⟨⟨id, d, hd, rfl⟩, hne⟩)
    · exact ⟨c.rule.id, c, by rw [get?_record, if_pos rfl], rfl⟩
    · rw [hs id d hd] at hne
      exact ⟨id, d, by rw [get?_record, if_neg (Ne.symm hne), hd], rfl⟩

theorem hasOwnIds_record (hs : s.HasOwnIds) (c : CompiledRule) :
    (s.record c).HasOwnIds := hs.put c

/-- Replacing a rule by one of the same origin leaves the order of the list as it
is. -/
theorem order_record_of_sameOrigin
    {old : CompiledRule} (hs : s.HasOwnIds)
    (hold : s.get? c.rule.id = some old) (hsame : old.rule.SameOrigin c.rule) :
    (s.record c).order = s.order := by
  let revised (r : Rule) : Rule := if r.id = c.rule.id then c.rule else r
  obtain ⟨hmem, hfront⟩ := lists_listing hs
  have heq_old : ∀ r, s.Holds r → r.id = c.rule.id → r = old.rule := by
    rintro r ⟨id, d, hd, rfl⟩ hid
    rw [hs id d hd] at hid
    rw [hid, hold] at hd
    rw [Option.some.inj hd]
  have hid : ∀ r, (revised r).id = r.id := by
    intro r
    unfold revised
    split
    · next heq => exact heq.symm
    · rfl
  have htime : ∀ r, s.Holds r → (revised r).createdAt = r.createdAt := by
    intro r hr
    unfold revised
    split
    · next heq => rw [heq_old r hr heq, hsame.createdAt_eq]
    · rfl
  have hlists : (s.record c).Lists (s.listing.map revised) := by
    constructor
    · intro r
      rw [holds_record_iff hs, List.mem_map]
      constructor
      · rintro ⟨r', hr', rfl⟩
        by_cases heq : r'.id = c.rule.id
        · exact .inl (if_pos heq)
        · have hkept : revised r' = r' := if_neg heq
          rw [hkept]
          exact .inr ⟨(hmem r').mp hr', heq⟩
      · rintro (rfl | ⟨hr, hne⟩)
        · exact ⟨old.rule, (hmem _).mpr ⟨_, old, hold, rfl⟩, if_pos hsame.id_eq⟩
        · exact ⟨r, (hmem r).mpr hr, if_neg hne⟩
    · rw [List.pairwise_map]
      refine hfront.imp_of_mem ?_
      intro a b ha hb hab
      rwa [Rule.InFrontOf, htime a ((hmem a).mp ha), htime b ((hmem b).mp hb),
        hid, hid]
  rw [order, order, (lists_listing (hasOwnIds_record hs c)).eq hlists,
    List.map_map]
  exact List.map_congr_left fun r _ => hid r

/-- A new rule comes between others, which keep their order. -/
theorem order_sublist_record
    (hs : s.HasOwnIds) (hnew : s.get? c.rule.id = none) :
    s.order.Sublist (s.record c).order := by
  obtain ⟨hmem, hfront⟩ := lists_listing (hasOwnIds_record hs c)
  have hlists : s.Lists
      ((s.record c).listing.filter fun r => decide (r.id ≠ c.rule.id)) := by
    constructor
    · intro r
      rw [List.mem_filter, hmem, holds_record_iff hs, decide_eq_true_eq]
      constructor
      · rintro ⟨rfl | ⟨hr, -⟩, hne⟩
        · exact absurd rfl hne
        · exact hr
      · rintro ⟨id, d, hd, rfl⟩
        have hne : d.rule.id ≠ c.rule.id := by
          intro heq
          rw [hs id d hd] at heq
          rw [heq, hnew] at hd
          cases hd
        exact ⟨.inr ⟨⟨id, d, hd, rfl⟩, hne⟩, hne⟩
    · exact hfront.sublist List.filter_sublist
  rw [order, order, (lists_listing hs).eq hlists]
  exact List.filter_sublist.map Rule.id

/-- A new rule that is later than all others comes behind them. -/
theorem order_record_of_later
    (hs : s.HasOwnIds) (hnew : s.get? c.rule.id = none)
    (hlater : ∀ id d, s.get? id = some d →
      d.rule.createdAt.before c.rule.createdAt = true) :
    (s.record c).order = s.order ++ [c.rule.id] := by
  obtain ⟨hmem, hfront⟩ := lists_listing hs
  have hlists : (s.record c).Lists (s.listing ++ [c.rule]) := by
    constructor
    · intro r
      rw [holds_record_iff hs, List.mem_append, hmem, List.mem_singleton]
      constructor
      · rintro (⟨id, d, hd, rfl⟩ | rfl)
        · refine .inr ⟨⟨id, d, hd, rfl⟩, ?_⟩
          intro heq
          rw [hs id d hd] at heq
          rw [heq, hnew] at hd
          cases hd
        · exact .inl rfl
      · rintro (rfl | ⟨hr, -⟩)
        · exact .inr rfl
        · exact .inl hr
    · refine List.pairwise_append.mpr ⟨hfront, List.pairwise_singleton _ _, ?_⟩
      intro a ha b hb
      obtain ⟨id, d, hd, rfl⟩ := (hmem a).mp ha
      rw [List.mem_singleton.mp hb]
      exact .inl (hlater id d hd)
  rw [order, order, (lists_listing (hasOwnIds_record hs c)).eq hlists,
    List.map_append]
  rfl

/-! ## What a run does to the list -/

/-- One more action leaves the order as it is, or makes a rule whose id is not in
use. -/
theorem TakesDistinctIds.order_cases
    (h : TakesDistinctIds traced (actions ++ [action])) :
    (served traced (actions ++ [action])).order = (served traced actions).order ∨
      ∃ w c, (served traced actions).accomplished? action = some w ∧
        c.rule.createdAt = w.now ∧
        (served traced actions).get? c.rule.id = none ∧
        served traced (actions ++ [action]) = (served traced actions).record c := by
  have hconsistent := isConsistent_served traced actions
  rw [served_append_singleton]
  rcases hconsistent.accomplishes_cases traced action with
    ⟨-, hkept⟩ | ⟨w, c, hw, hrecords, hwrites⟩
  · rw [hkept]
    exact .inl rfl
  · rw [hrecords]
    rcases hconsistent.makes_or_replaces hwrites with
      ⟨hmakes, -⟩ | ⟨-, old, hold, hsame⟩
    · exact .inr ⟨w, c, hw, hmakes.now_eq.symm, h.get?_newId hw hmakes.newId?_eq,
        rfl⟩
    · exact .inl (order_record_of_sameOrigin hconsistent.id_eq hold hsame)

theorem order_sublist_step (h : TakesDistinctIds traced (actions ++ [action])) :
    (served traced actions).order.Sublist
      (served traced (actions ++ [action])).order := by
  rcases h.order_cases with hkept | ⟨w, c, -, -, hnew, hrecords⟩
  · rw [hkept]
  · rw [hrecords]
    exact order_sublist_record (isConsistent_served traced actions).id_eq hnew

theorem order_isPrefix_step
    (h : TakesDistinctIds traced (actions ++ [action]))
    (htimes : ReadsLaterTimes traced (actions ++ [action])) :
    (served traced actions).order <+:
      (served traced (actions ++ [action])).order := by
  rcases h.order_cases with hkept | ⟨w, c, hw, htime, hnew, hrecords⟩
  · rw [hkept]
  · rw [hrecords, order_record_of_later (isConsistent_served traced actions).id_eq
      hnew]
    · exact List.prefix_append _ _
    · intro id d hd
      rw [htime]
      exact htimes.createdAt_before hw hd

/-- Rules that are listed at some time are listed in the same order later. -/
theorem order_sublist
    (h : TakesDistinctIds traced actions') (hinitial : actions <+: actions') :
    (served traced actions).order.Sublist (served traced actions').order := by
  obtain ⟨later, rfl⟩ := hinitial
  induction later using List.reverseRecOn with
  | nil => rw [List.append_nil]
  | append_singleton later action ih =>
      rw [← List.append_assoc] at h ⊢
      exact (ih (h.of_isPrefix (List.prefix_append _ _))).trans
        (order_sublist_step h)

/-- If times are later and later, the list only grows at its end. -/
theorem order_isPrefix
    (h : TakesDistinctIds traced actions')
    (htimes : ReadsLaterTimes traced actions') (hinitial : actions <+: actions') :
    (served traced actions).order <+: (served traced actions').order := by
  obtain ⟨later, rfl⟩ := hinitial
  induction later using List.reverseRecOn with
  | nil => rw [List.append_nil]
  | append_singleton later action ih =>
      rw [← List.append_assoc] at h htimes ⊢
      have hbefore := List.prefix_append (actions ++ later) [action]
      exact (ih (h.of_isPrefix hbefore) (htimes.of_isPrefix hbefore)).trans
        (order_isPrefix_step h htimes)

theorem nodup_order (traced : Bool) (actions : List UserAction) :
    (served traced actions).order.Nodup := by
  have hids := map_id_rules (isConsistent_served traced actions).id_eq
  rw [order, listing, ((List.mergeSort_perm _ _).map Rule.id).nodup_iff, hids]
  exact Table.nodup_names _

theorem length_order (s : Store) : s.order.length = s.rules.size := by
  rw [order, List.length_map, length_listing]

/-! ## Pages -/

variable {number limit : Nat}

theorem onPage_eq (hcount : s.rules.size ≤ maxCount) (number limit : Nat) :
    s.onPage number limit = (s.order.drop ((number - 1) * limit)).take limit := by
  rw [onPage, rules_pageAt hcount, List.map_take, List.map_drop, order]

/-- All pages together list all rules. -/
theorem onPages_eq (hcount : s.rules.size ≤ maxCount) (hlimit : 1 ≤ limit) :
    s.onPages limit = s.order := by
  have hcut := isCutInto hcount hlimit
  have hids := congrArg (List.map Rule.id) hcut.flatMap_rules
  rw [List.map_flatMap] at hids
  rw [onPages, hcut.pages_eq]
  exact hids

/-- A full page stays the same when the list grows at its end. -/
theorem onPage_eq_of_full
    {t : Store} (hgrows : s.order <+: t.order)
    (hfull : (s.onPage number limit).length = limit) :
    t.onPage number limit = s.onPage number limit := by
  have hpage (u : Store) : u.onPage number limit =
      (u.order.drop (Page.offset number limit)).take limit := by
    rw [onPage, pageAt, List.map_take, List.map_drop, order]
  have hlonger := (hgrows.drop (Page.offset number limit)).take limit
  rw [← hpage, ← hpage] at hlonger
  refine (hlonger.eq_of_length_le ?_).symm
  rw [hfull, hpage]
  exact List.length_take_le _ _

/-! ## Clients who look at pages one after another -/

/-- What a client sees is in order, and nothing is seen that is in front of the
first page. -/
theorem browse_sublist
    {order : List String} (limit : Nat) (moments : List (List UserAction))
    (hnumber : 1 ≤ number)
    (hmoments : ∀ moment ∈ moments, (served traced moment).order <+: order ∧
      (served traced moment).rules.size ≤ maxCount) :
    (browse traced limit number moments).Sublist
      (order.drop ((number - 1) * limit)) := by
  induction moments generalizing number with
  | nil => exact List.nil_sublist _
  | cons moment rest ih =>
      obtain ⟨hgrows, hcount⟩ := hmoments moment List.mem_cons_self
      have hrest := ih (Nat.le_add_left 1 number) fun later hlater =>
        hmoments later (List.mem_cons_of_mem moment hlater)
      have hnext : number * limit = (number - 1) * limit + limit := by
        rw [← Nat.succ_mul, Nat.succ_eq_add_one, Nat.sub_add_cancel hnumber]
      rw [Nat.add_sub_cancel, hnext, ← List.drop_drop] at hrest
      rw [browse, onPage_eq hcount]
      have hpage := (hgrows.drop ((number - 1) * limit)).take limit
      have hboth := hpage.sublist.append hrest
      rwa [List.take_append_drop] at hboth

/-- What was listed at the beginning, as far as the pages go, is seen. -/
theorem sublist_browse
    {order : List String} (limit : Nat) (moments : List (List UserAction))
    (hnumber : 1 ≤ number)
    (hmoments : ∀ moment ∈ moments, order <+: (served traced moment).order ∧
      (served traced moment).rules.size ≤ maxCount) :
    ((order.drop ((number - 1) * limit)).take (moments.length * limit)).Sublist
      (browse traced limit number moments) := by
  induction moments generalizing number with
  | nil => simp
  | cons moment rest ih =>
      obtain ⟨hgrows, hcount⟩ := hmoments moment List.mem_cons_self
      have hrest := ih (Nat.le_add_left 1 number) fun later hlater =>
        hmoments later (List.mem_cons_of_mem moment hlater)
      have hnext : number * limit = (number - 1) * limit + limit := by
        rw [← Nat.succ_mul, Nat.succ_eq_add_one, Nat.sub_add_cancel hnumber]
      rw [Nat.add_sub_cancel, hnext, ← List.drop_drop] at hrest
      rw [browse, onPage_eq hcount, List.length_cons, Nat.succ_mul, Nat.add_comm,
        List.take_add]
      exact ((hgrows.drop ((number - 1) * limit)).take limit).sublist.append hrest

/-- When a client who begins with the first page stops: behind a page that is not
full, or that is the last one according to what it tells. -/
def StopsBehind (traced : Bool) (limit : Nat) (moments : List (List UserAction)) :
    Prop :=
  ∃ moment, moments.getLast? = some moment ∧
    (((served traced moment).onPage moments.length limit).length < limit ∨
      ((served traced moment).pageAt moments.length limit).pages ≤ moments.length)

/-- A client who stops has looked at as many pages as all rules need that were
there at the beginning. -/
theorem StopsBehind.length_le
    {order : List String} {moments : List (List UserAction)} (hlimit : 1 ≤ limit)
    (h : StopsBehind traced limit moments)
    (hmoments : ∀ moment ∈ moments, order <+: (served traced moment).order ∧
      (served traced moment).rules.size ≤ maxCount) :
    order.length ≤ moments.length * limit := by
  obtain ⟨moment, hlast, hstops⟩ := h
  have hmoment := List.mem_of_getLast? hlast
  obtain ⟨hgrows, hcount⟩ := hmoments moment hmoment
  have hlength : 1 ≤ moments.length := List.length_pos_of_mem hmoment
  refine hgrows.length_le.trans ?_
  rcases hstops with hshort | hpages
  · have hsplit : moments.length * limit = (moments.length - 1) * limit + limit := by
      rw [← Nat.succ_mul, Nat.succ_eq_add_one, Nat.sub_add_cancel hlength]
    rw [onPage_eq hcount, List.length_take, List.length_drop] at hshort
    omega
  · rw [length_order]
    exact (Page.count_le_iff hlimit _).mp hpages

/-- New rules do not change the order of those that are listed, and nor does
anything else, as long as generated ids are different. On all pages together is
the whole list. If moreover times are later and later, the list only grows at its
end, so full pages stay as they are. Then a client who looks at one page after
another, while the store is used, sees no rule twice, and every rule that was
there at the beginning once, as far as the pages go; when the client stops, that
is every one. -/
theorem listing_keeps_its_order
    (traced : Bool) (actions : List UserAction)
    (hids : TakesDistinctIds traced actions) :
    (∀ (s : Store) (limit : Nat), s.rules.size ≤ maxCount → 1 ≤ limit →
      s.onPages limit = s.order) ∧
    (∀ earlier later, earlier <+: later → later <+: actions →
      (served traced earlier).order.Sublist (served traced later).order) ∧
    (ReadsLaterTimes traced actions →
      (∀ earlier later, earlier <+: later → later <+: actions →
        (served traced earlier).order <+: (served traced later).order ∧
        ∀ number limit p, (served traced earlier).page number limit = .ok p →
          p.rules.length = limit →
          ∃ q, (served traced later).page number limit = .ok q ∧
            q.rules.map Rule.id = p.rules.map Rule.id) ∧
      ∀ start limit moments, (served traced actions).rules.size ≤ maxCount →
        1 ≤ limit →
        (∀ moment ∈ moments, start <+: moment ∧ moment <+: actions) →
        (browse traced limit 1 moments).Nodup ∧
        (∀ id ∈ (served traced start).order.take (moments.length * limit),
          (browse traced limit 1 moments).count id = 1) ∧
        (StopsBehind traced limit moments →
          ∀ id, ((served traced start).get? id).isSome = true →
            (browse traced limit 1 moments).count id = 1)) := by
  refine ⟨fun s limit => onPages_eq, ?_, ?_⟩
  · intro earlier later hearlier hlater
    exact order_sublist (hids.of_isPrefix hlater) hearlier
  intro htimes
  have hgrows {earlier later : List UserAction} (hearlier : earlier <+: later)
      (hlater : later <+: actions) :
      (served traced earlier).order <+: (served traced later).order :=
    order_isPrefix (hids.of_isPrefix hlater) (htimes.of_isPrefix hlater) hearlier
  constructor
  · intro earlier later hearlier hlater
    refine ⟨hgrows hearlier hlater, ?_⟩
    intro number limit p hpage hfull
    rw [page] at hpage ⊢
    split at hpage
    · cases hpage
    · next hpos =>
      obtain rfl := Except.ok.inj hpage
      rw [if_neg hpos]
      refine ⟨_, rfl, onPage_eq_of_full (hgrows hearlier hlater) ?_⟩
      rw [onPage, List.length_map, hfull]
  · intro start limit moments hcount hlimit hmoments
    have hcounts : ∀ moment ∈ moments,
        (served traced moment).rules.size ≤ maxCount := by
      intro moment hmoment
      have hle := (hgrows (hmoments moment hmoment).2 List.prefix_rfl).length_le
      rw [length_order, length_order] at hle
      exact hle.trans hcount
    have hsees := browse_sublist limit moments le_rfl
      fun moment hmoment => ⟨hgrows (hmoments moment hmoment).2 List.prefix_rfl,
        hcounts moment hmoment⟩
    have hnodup : (browse traced limit 1 moments).Nodup :=
      (nodup_order traced actions).sublist
        (hsees.trans (List.drop_sublist _ _))
    have hlonger : ∀ moment ∈ moments,
        (served traced start).order <+: (served traced moment).order ∧
          (served traced moment).rules.size ≤ maxCount :=
      fun moment hmoment => ⟨hgrows (hmoments moment hmoment).1
        (hmoments moment hmoment).2, hcounts moment hmoment⟩
    have hseen := sublist_browse limit moments le_rfl hlonger
    rw [Nat.sub_self, Nat.zero_mul, List.drop_zero] at hseen
    have honce : ∀ id ∈ (served traced start).order.take (moments.length * limit),
        (browse traced limit 1 moments).count id = 1 :=
      fun id hid => List.count_eq_one_of_mem hnodup (hseen.subset hid)
    refine ⟨hnodup, honce, ?_⟩
    intro hstops id hid
    obtain ⟨c, hc⟩ := Option.isSome_iff_exists.mp hid
    have hconsistent := isConsistent_served traced start
    have hlisted : id ∈ (served traced start).order := by
      rw [← hconsistent.id_eq id c hc]
      exact List.mem_map_of_mem
        (((lists_listing hconsistent.id_eq).mem_iff c.rule).mpr ⟨id, c, hc, rfl⟩)
    apply honce
    rwa [List.take_of_length_le (hstops.length_le hlimit hlonger)]

theorem listing_keeps_its_order_of_revised_rule :
    let start : List UserAction :=
      [.author (.create "b" ⟨1, 0⟩ ⟨"first", "", "v = true"⟩),
        .author (.create "a" ⟨2, 0⟩ ⟨"second", "", "m='q'"⟩)]
    let actions : List UserAction := start ++
      [.author (.create "b" ⟨0, 0⟩ ⟨" ", "", "v = true"⟩),
        .author (.revise "b" ⟨3, 0⟩ ⟨"revised", "", "v = false"⟩),
        .author (.combine "0" ⟨4, 0⟩ ⟨["a", "b"], "both", "", .and⟩)]
    TakesDistinctIds true actions ∧ ReadsLaterTimes true actions ∧
      (served true start).order = ["b", "a"] ∧
      (served true start).order <+: (served true actions).order ∧
      StopsBehind true 1 [start, start, actions] ∧
      (browse true 1 1 [start, start, actions]).Nodup ∧
      ∀ id ∈ ["b", "a"], (browse true 1 1 [start, start, actions]).count id = 1 := by
  intro start actions
  have hids : TakesDistinctIds true actions := by
    have hnew : (accomplished true empty actions).filterMap Authoring.newId? =
        ["b", "a", "0"] := by cbv
    rw [TakesDistinctIds, hnew]
    decide
  have htimes : ReadsLaterTimes true actions := by
    have hread : (accomplished true empty actions).map Authoring.now =
        [⟨1, 0⟩, ⟨2, 0⟩, ⟨3, 0⟩, ⟨4, 0⟩] := by cbv
    rw [ReadsLaterTimes, hread]
    decide
  have hstart : (served true start).order = ["b", "a"] := by cbv
  have hsize : (served true actions).rules.size = 3 := by cbv
  have hlast : ((served true actions).pageAt 3 1).pages = 3 := by cbv
  obtain ⟨-, -, hlater⟩ := listing_keeps_its_order true actions hids
  obtain ⟨hgrows, hbrowse⟩ := hlater htimes
  have hstops : StopsBehind true 1 [start, start, actions] :=
    ⟨actions, rfl, .inr (le_of_eq hlast)⟩
  obtain ⟨hnodup, honce, -⟩ := hbrowse start 1 [start, start, actions]
    (by rw [hsize]; decide) le_rfl (by
      intro moment hmoment
      have hcases : moment = start ∨ moment = actions := by
        simpa using hmoment
      rcases hcases with rfl | rfl
      · exact ⟨List.prefix_rfl, List.prefix_append _ _⟩
      · exact ⟨List.prefix_append _ _, List.prefix_rfl⟩)
  refine ⟨hids, htimes, hstart,
    (hgrows start actions (List.prefix_append _ _) List.prefix_rfl).1, hstops,
    hnodup, ?_⟩
  intro id hid
  apply honce
  rw [hstart]
  exact hid

end Store

end Rulebook
