import Mathlib
import Rulebook.Http.Call

/-!
# Routes

An endpoint is found under its own path and nowhere else, and what may stand for
an id in a path is any text that is not empty and has no slash. So a call tells
with which method it was made, and under which path.
-/

namespace Rulebook

/-! ## Splitting a text -/

theorem Text.split_eq_splitOn (separator : Char) (s : List Char) :
    split separator s = s.splitOn separator := by
  induction s with
  | nil => rfl
  | cons c rest ih =>
      have hne := split_ne_nil separator rest
      rw [split, List.splitOn_cons_eq_if_modifyHead, ← ih]
      cases hparts : split separator rest with
      | nil => exact absurd hparts hne
      | cons part parts => simp

theorem Text.not_mem_of_mem_split
    {separator : Char} {s part : List Char}
    (h : part ∈ split separator s) : separator ∉ part := by
  induction s generalizing part with
  | nil =>
      rw [List.mem_singleton.mp h]
      exact List.not_mem_nil
  | cons c rest ih =>
      obtain ⟨first, parts, hparts⟩ :=
        List.exists_cons_of_ne_nil (split_ne_nil separator rest)
      rw [split, hparts] at h
      rw [hparts] at ih
      by_cases hc : c = separator
      · rw [if_pos hc] at h
        rcases List.mem_cons.mp h with rfl | h
        · exact List.not_mem_nil
        · exact ih h
      · rw [if_neg hc] at h
        rcases List.mem_cons.mp h with rfl | h
        · have hfirst := ih List.mem_cons_self
          simpa [Ne.symm hc] using hfirst
        · exact ih (List.mem_cons_of_mem _ h)

namespace Http

/-! ## The paths of endpoints -/

namespace Endpoint

/-- The path of an endpoint. -/
def path : Endpoint → String
  | .create => "/api/v1/create"
  | .update id => "/api/v1/update/" ++ String.ofList id
  | .combine => "/api/v1/combine"
  | .evaluate => "/api/v1/evaluate"
  | .rule id => "/api/v1/rule/" ++ String.ofList id
  | .fetch => "/api/v1/fetch"
  | .health => "/api/v1/health"

/-- Whether what stands for an id can be a part of a path. -/
def HasPart : Endpoint → Prop
  | .update id | .rule id => id ≠ [] ∧ '/' ∉ id
  | _ => True

theorem ofPath?_path {e : Endpoint} (h : e.HasPart) :
    ofPath? e.path = some e := by
  have hpart {id : List Char} (hslash : '/' ∉ id) :
      Text.split '/' id = [id] := by
    have hjoin : (['/'].intercalate [id]).splitOn '/' = [id] :=
      List.splitOn_intercalate '/' (by simpa using hslash) (by simp)
    rwa [List.intercalate_singleton, ← Text.split_eq_splitOn] at hjoin
  cases e with
  | create => rfl
  | update id =>
      obtain ⟨hne, hslash⟩ := h
      change ofPath? ("/api/v1/update/" ++ String.ofList id) = _
      simp [ofPath?, Text.split, hpart hslash, hne]
  | combine => rfl
  | evaluate => rfl
  | rule id =>
      obtain ⟨hne, hslash⟩ := h
      change ofPath? ("/api/v1/rule/" ++ String.ofList id) = _
      simp [ofPath?, Text.split, hpart hslash, hne]
  | fetch => rfl
  | health => rfl

theorem eq_path_of_ofPath? {p : String} {e : Endpoint}
    (h : ofPath? p = some e) : p = e.path ∧ e.HasPart := by
  have hjoin : ['/'].intercalate (Text.split '/' p.toList) = p.toList := by
    rw [Text.split_eq_splitOn, List.intercalate_splitOn]
  have hslash (part : List Char) (hmem : part ∈ Text.split '/' p.toList) :
      '/' ∉ part := Text.not_mem_of_mem_split hmem
  unfold ofPath? at h
  split at h
  · next name rest hsplit =>
    rw [hsplit] at hjoin hslash
    have hplain {text : String} (hname : String.ofList name = text)
        (hrest : rest = []) : p = "/api/v1/" ++ text := by
      rw [← hname, ← String.toList_inj, ← hjoin, hrest]
      simp
    have hwithId {text : String} {id : List Char}
        (hname : String.ofList name = text) (hrest : rest = [id]) :
        p = "/api/v1/" ++ text ++ "/" ++ String.ofList id ∧ '/' ∉ id := by
      constructor
      · rw [← hname, ← String.toList_inj, ← hjoin, hrest]
        simp
      · apply hslash
        simp [hrest]
    split at h
    · next hname =>
      cases h
      exact ⟨hplain hname rfl, trivial⟩
    · next id hname =>
      obtain ⟨hp, hid⟩ := hwithId hname rfl
      split_ifs at h with hempty
      cases h
      exact ⟨hp, by simpa using hempty, hid⟩
    · next hname =>
      cases h
      exact ⟨hplain hname rfl, trivial⟩
    · next hname =>
      cases h
      exact ⟨hplain hname rfl, trivial⟩
    · next id hname =>
      obtain ⟨hp, hid⟩ := hwithId hname rfl
      split_ifs at h with hempty
      cases h
      exact ⟨hp, by simpa using hempty, hid⟩
    · next hname =>
      cases h
      exact ⟨hplain hname rfl, trivial⟩
    · next hname =>
      cases h
      exact ⟨hplain hname rfl, trivial⟩
    · cases h
  · cases h

/-- An endpoint is found under its own path and nowhere else. -/
theorem ofPath?_eq_some_iff (p : String) (e : Endpoint) :
    ofPath? p = some e ↔ p = e.path ∧ e.HasPart := by
  constructor
  · exact eq_path_of_ofPath?
  · rintro ⟨rfl, hpart⟩
    exact ofPath?_path hpart

end Endpoint

/-! ## Where calls are made -/

theorem exists_of_bind_eq_ok
    {ε α β : Type} {x : Except ε α} {f : α → Except ε β} {b : β}
    (h : x >>= f = .ok b) : ∃ a, x = .ok a ∧ f a = .ok b := by
  cases x with
  | error cause => cases h
  | ok a => exact ⟨a, rfl, h⟩

theorem Request.readBody_eq_ok_iff
    {α : Type} {r : Request} {read : String → Except Json.Fault α} {a : α} :
    r.readBody read = .ok a ↔
      r.hasJsonBody = true ∧ r.body.utf8ByteSize ≤ maxBodySize ∧
        read r.body = .ok a := by
  unfold readBody
  cases hjson : r.hasJsonBody with
  | false => exact ⟨nofun, nofun⟩
  | true =>
      by_cases hsize : maxBodySize < r.body.utf8ByteSize
      · rw [if_neg (by decide), if_pos hsize]
        exact ⟨nofun, fun h => absurd hsize (not_lt.mpr h.2.1)⟩
      · rw [if_neg (by decide), if_neg hsize]
        cases hread : read r.body with
        | error fault => exact ⟨nofun, nofun⟩
        | ok found =>
            change Except.ok found = _ ↔ _
            simp [not_lt.mp hsize]

namespace Call

/-- Where a call is made. -/
inductive MadeAt : Call → Endpoint → Prop
  | create (draft : RuleDraft) : MadeAt (.create draft) .create
  | update {part : List Char} {id : String} (hid : readId part = .ok id)
      (draft : RuleDraft) : MadeAt (.update id draft) (.update part)
  | combine (request : CombinationRequest) : MadeAt (.combine request) .combine
  | evaluate (request : EvaluationRequest) :
      MadeAt (.evaluate request) .evaluate
  | rule {part : List Char} {id : String} (hid : readId part = .ok id) :
      MadeAt (.rule id) (.rule part)
  | fetch (page limit : Option Nat) : MadeAt (.fetch page limit) .fetch
  | health : MadeAt .health .health

theorem madeAt_of_ofEndpoint {r : Request} {e : Endpoint} {call : Call}
    (h : ofEndpoint r e = .ok call) : call.MadeAt e := by
  cases e with
  | create =>
      obtain ⟨draft, -, h⟩ := exists_of_bind_eq_ok h
      obtain ⟨-, -, h⟩ := exists_of_bind_eq_ok h
      cases h
      exact .create draft
  | update part =>
      obtain ⟨id, hid, h⟩ := exists_of_bind_eq_ok h
      obtain ⟨draft, -, h⟩ := exists_of_bind_eq_ok h
      obtain ⟨-, -, h⟩ := exists_of_bind_eq_ok h
      cases h
      exact .update hid draft
  | combine =>
      obtain ⟨request, -, h⟩ := exists_of_bind_eq_ok h
      obtain ⟨-, -, h⟩ := exists_of_bind_eq_ok h
      cases h
      exact .combine request
  | evaluate =>
      obtain ⟨request, -, h⟩ := exists_of_bind_eq_ok h
      by_cases hid : request.ruleId = ""
      · rw [if_pos hid] at h
        cases h
      · rw [if_neg hid] at h
        cases h
        exact .evaluate request
  | rule part =>
      obtain ⟨id, hid, h⟩ := exists_of_bind_eq_ok h
      cases h
      exact .rule hid
  | fetch =>
      simp only [ofEndpoint] at h
      split at h
      · cases h
        exact .fetch _ _
      · cases h
  | health =>
      cases h
      exact .health

/-- A call is made under the path of its endpoint, with one of its methods. -/
theorem exists_madeAt_of_ofRequest {r : Request} {call : Call}
    (h : ofRequest r = .ok call) :
    ∃ e : Endpoint, call.MadeAt e ∧ e.HasPart ∧ r.target.path = e.path ∧
      r.method ∈ e.methods := by
  unfold ofRequest at h
  cases hfound : Endpoint.ofPath? r.target.path with
  | none =>
      rw [hfound] at h
      cases h
  | some e =>
      obtain ⟨hpath, hpart⟩ := (Endpoint.ofPath?_eq_some_iff _ _).mp hfound
      simp only [hfound] at h
      by_cases hmethod : e.methods.contains r.method = true
      · rw [if_pos hmethod] at h
        refine ⟨e, madeAt_of_ofEndpoint h, hpart, hpath, ?_⟩
        exact List.contains_iff_mem.mp hmethod
      · rw [if_neg hmethod] at h
        cases h

theorem ofRequest_eq_ofEndpoint {r : Request} {e : Endpoint}
    (hpath : r.target.path = e.path) (hpart : e.HasPart)
    (hmethod : r.method ∈ e.methods) : ofRequest r = ofEndpoint r e := by
  have hfound := (Endpoint.ofPath?_eq_some_iff _ _).mpr ⟨hpath, hpart⟩
  simp only [ofRequest, hfound, List.contains_iff_mem.mpr hmethod, if_true]

end Call

end Http

end Rulebook
