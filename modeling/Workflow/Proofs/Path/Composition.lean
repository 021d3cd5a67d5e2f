import Workflow.Proofs.Path.Segments

/-! Where paths lead. A path that is put together from two leads where the second one leads from the
end of the first, and a last hop `length` is all that `lookup` adds to `get?`. In keys in quotes and
brackets every character stands for itself but `]`, which ends the bracket though the quote is still
open. -/
namespace Workflow.Path

theorem follow?_append (v : Json) (a b : List String) :
    follow? v (a ++ b) = (follow? v a).bind (follow? · b) := by
  induction a generalizing v with
  | nil => rfl
  | cons s rest ih =>
    rw [List.cons_append, follow?, follow?, Option.bind_assoc]
    exact congrArg _ (funext ih)

/-- Arrays and texts, which have a length. -/
def HasLength (v : Json) : Prop :=
  (∃ items, v = .array items) ∨ ∃ s, v = .string s

theorem hasLength_iff {v : Json} : HasLength v ↔ ∃ n, length? v = some n := by
  constructor
  · rintro (⟨items, rfl⟩ | ⟨s, rfl⟩)
    · exact ⟨items.length, rfl⟩
    · exact ⟨s.length, rfl⟩
  · rintro ⟨n, hn⟩
    cases v with
    | array items => exact Or.inl ⟨items, rfl⟩
    | string s => exact Or.inr ⟨s, rfl⟩
    | _ => exact absurd hn nofun

theorem lookupSegments_length {v : Json} {n : Nat} (h : length? v = some n) :
    lookupSegments v ["length"] = some (.ofNat n) := by
  rw [lookupSegments, h]

/-- What has a length does not store it. -/
theorem step?_length {v : Json} {n : Nat} (h : length? v = some n) : step? v "length" = none := by
  cases v with
  | array items =>
    have hword : Text.unsigned? 10 0x1_0000_0000_0000_0000 "length".toList = none := by decide
    rw [step?, hword]
  | string s => rfl
  | _ => exact absurd h nofun

theorem lookupSegments_cons {v : Json} {s : String} {rest : List String}
    (h : s = "length" → rest = [] → length? v = none) :
    lookupSegments v (s :: rest) = (step? v s).bind (lookupSegments · rest) := by
  by_cases hs : s = "length" ∧ rest = []
  · obtain ⟨rfl, rfl⟩ := hs
    rw [lookupSegments, h rfl rfl]
    exact (Option.bind_fun_some _).symm
  · rw [lookupSegments]
    simpa using hs

/-- A hop is one step, or counts what has a length and is the last one. -/
theorem last_length_or (v : Json) (s : String) (rest : List String) :
    (s = "length" ∧ rest = [] ∧ ∃ n, length? v = some n) ∨
      (s = "length" → rest = [] → length? v = none) := by
  by_cases h : s = "length" ∧ rest = []
  · cases hn : length? v with
    | some n => exact Or.inl ⟨h.1, h.2, n, rfl⟩
    | none => exact Or.inr fun _ _ => rfl
  · exact Or.inr fun hs hr => absurd ⟨hs, hr⟩ h

/-- Nothing lies behind a count, and nothing behind a hop `length` of what has a length: so it makes
no difference that `length` counts only where it is the last hop. -/
theorem lookupSegments_append (v : Json) (a b : List String) :
    lookupSegments v (a ++ b) = (lookupSegments v a).bind (lookupSegments · b) := by
  induction a generalizing v with
  | nil => rfl
  | cons s rest ih =>
    rcases last_length_or v s rest with ⟨rfl, rfl, n, hn⟩ | h
    · rw [lookupSegments_length hn, List.cons_append, List.nil_append, Option.bind_some]
      cases b with
      | nil => rw [lookupSegments_length hn, lookupSegments]
      | cons t more =>
        rw [lookupSegments_cons fun _ hm => absurd hm (List.cons_ne_nil _ _), step?_length hn,
          lookupSegments_cons fun _ _ => rfl]
        rfl
    · have happend : s = "length" → rest ++ b = [] → length? v = none :=
        fun hs hr => h hs (List.append_eq_nil_iff.1 hr).1
      rw [List.cons_append, lookupSegments_cons happend, lookupSegments_cons h, Option.bind_assoc]
      exact congrArg _ (funext ih)

theorem lookupSegments_of_follow? {v w : Json} {hops : List String} (h : follow? v hops = some w) :
    lookupSegments v hops = some w := by
  induction hops generalizing v with
  | nil => exact h
  | cons s rest ih =>
    obtain ⟨u, hu, hw⟩ := Option.bind_eq_some_iff.1 h
    rcases last_length_or v s rest with ⟨rfl, rfl, n, hn⟩ | hlast
    · rw [step?_length hn] at hu
      contradiction
    · rw [lookupSegments_cons hlast, hu]
      exact ih hw

theorem lookupSegments_ne_follow?_iff {v : Json} {hops : List String} :
    lookupSegments v hops ≠ follow? v hops ↔
      ∃ init w, hops = init ++ ["length"] ∧ follow? v init = some w ∧ HasLength w := by
  constructor
  · intro h
    induction hops generalizing v with
    | nil => exact absurd rfl h
    | cons s rest ih =>
      rcases last_length_or v s rest with ⟨rfl, rfl, n, hn⟩ | hlast
      · exact ⟨[], v, rfl, rfl, hasLength_iff.2 ⟨n, hn⟩⟩
      · rw [lookupSegments_cons hlast, follow?] at h
        cases hu : step? v s with
        | none =>
          rw [hu] at h
          exact absurd rfl h
        | some u =>
          rw [hu] at h
          obtain ⟨init, w, rfl, hinit, hw⟩ := ih h
          exact ⟨s :: init, w, rfl, by rw [follow?, hu]; exact hinit, hw⟩
  · rintro ⟨init, w, rfl, hinit, hw⟩
    obtain ⟨n, hn⟩ := hasLength_iff.1 hw
    rw [lookupSegments_append, lookupSegments_of_follow? hinit, follow?_append, hinit,
      Option.bind_some, Option.bind_some, lookupSegments_length hn, follow?, step?_length hn]
    exact Option.some_ne_none _

/-- Keys of an object are its entries, also at the start of a path. -/
theorem lookupIn_eq_lookup (m : Fields Json) (path : List Char) :
    lookupIn m path = lookup (.object m) path := by
  unfold lookupIn lookup
  cases segments path with
  | nil => rfl
  | cons head rest =>
    rw [lookupSegments_cons fun _ _ => rfl]
    rfl

/-- Paths compose, as texts and as lists of segments; `lookup` finds whatever `get?` finds, and more
only where the last segment counts an array or a text. -/
theorem paths_compose (v : Json) (m : Fields Json) (p q : List Char) (a b : List String) :
    (Closed p →
      segments (p ++ '.' :: q) = segments p ++ segments q ∧
        get? v (p ++ '.' :: q) = (get? v p).bind (get? · q) ∧
        lookup v (p ++ '.' :: q) = (lookup v p).bind (lookup · q)) ∧
      lookupSegments v (a ++ b) = (lookupSegments v a).bind (lookupSegments · b) ∧
      follow? v (a ++ b) = (follow? v a).bind (follow? · b) ∧
      (∀ w, get? v p = some w → lookup v p = some w) ∧
      (lookup v p ≠ get? v p ↔
        ∃ init w, segments p = init ++ ["length"] ∧ follow? v init = some w ∧ HasLength w) ∧
      lookupIn m p = lookup (.object m) p := by
  refine ⟨fun hp => ?_, lookupSegments_append v a b, follow?_append v a b,
    fun w => lookupSegments_of_follow?, lookupSegments_ne_follow?_iff, lookupIn_eq_lookup m p⟩
  have hsegments := segments_append_dot hp q
  refine ⟨hsegments, ?_, ?_⟩
  · unfold get?
    rw [hsegments, follow?_append]
  · unfold lookup
    rw [hsegments, lookupSegments_append]

theorem paths_compose_before_length :
    Closed "items[0]".toList ∧
      get? (.object [("items", .array [.string "abc"])]) "items[0]".toList = some (.string "abc") ∧
      lookup (.object [("items", .array [.string "abc"])]) "items[0]".toList =
        some (.string "abc") ∧
      lookup (.object [("items", .array [.string "abc"])])
          ("items[0]".toList ++ '.' :: "length".toList) =
        (lookup (.object [("items", .array [.string "abc"])]) "items[0]".toList).bind
          (lookup · "length".toList) := by
  have hclosed : Closed "items[0]".toList := by decide
  have hsegments : segments "items[0]".toList = ["items", "0"] := by decide +kernel
  have hget : get? (.object [("items", .array [.string "abc"])]) "items[0]".toList =
      some (.string "abc") := by
    unfold get?
    rw [hsegments]
    rfl
  have h := paths_compose (.object [("items", .array [.string "abc"])]) [] "items[0]".toList
    "length".toList [] []
  exact ⟨hclosed, hget, h.2.2.2.1 _ hget, (h.1 hclosed).2.2⟩

/-- A key in quotes and brackets. -/
def quoted (key : String) : List Char :=
  '[' :: '\x22' :: (key.toList ++ ['\x22', ']'])

/-- The path of keys one behind another, each in quotes and brackets. -/
def quotedPath (keys : List String) : List Char :=
  keys.flatMap quoted

theorem quoted_append (key : String) (rest : List Char) :
    quoted key ++ rest = '[' :: '\x22' :: (key.toList ++ '\x22' :: ']' :: rest) := by
  simp only [quoted, List.cons_append, List.append_assoc, List.nil_append]

theorem segmentsFrom_quoted {key : String} (hne : key ≠ "") (hq : '\x22' ∉ key.toList)
    (hb : ']' ∉ key.toList) (rest : List Char) :
    segmentsFrom [] (quoted key ++ rest) = key.toList :: segmentsFrom [] rest := by
  have hkey : key.toList ≠ [] := mt String.toList_eq_nil_iff.1 hne
  rw [quoted_append, segmentsFrom, if_pos rfl, bracket_quoted hq hb, segment_of_ne_nil hkey]
  rfl

/-- A key with `]` in it is cut there: it is not even the first segment. -/
theorem segmentsFrom_quoted_ne {key : String} (hq : '\x22' ∉ key.toList) (hb : ']' ∈ key.toList)
    (rest : List Char) (more : List (List Char)) :
    segmentsFrom [] (quoted key ++ rest) ≠ key.toList :: more := by
  obtain ⟨front, back, hkey, hfront⟩ := List.eq_append_cons_of_mem hb
  rw [hkey, List.mem_append, List.mem_cons, not_or, not_or] at hq
  obtain ⟨hqfront, -, hqback⟩ := hq
  have hopen : ']' ∉ '\x22' :: front := List.not_mem_cons_of_ne_of_not_mem (by decide) hfront
  have hcut : segmentsFrom [] (quoted key ++ rest) =
      segment front (segmentsFrom [] (back ++ '\x22' :: ']' :: rest)) := by
    rw [quoted_append, hkey, List.append_assoc, List.cons_append, segmentsFrom, if_pos rfl,
      ← List.cons_append, bracket_append_cons hopen, bracket_quote hfront, filter_quote hqfront]
    rfl
  intro h
  rw [hcut, hkey] at h
  cases front with
  | cons c front =>
    rw [segment_of_ne_nil (List.cons_ne_nil _ _)] at h
    have hlength := congrArg List.length (List.cons.inj h).1
    simp at hlength
  | nil =>
    change segmentsFrom [] (back ++ '\x22' :: ']' :: rest) = (']' :: back) :: more at h
    have hrun : ∀ c ∈ back ++ ['\x22'], c ≠ '.' ∧ c ≠ '[' := by
      have hkey := not_mem_of_mem_segmentsFrom (List.forall_mem_nil _)
        (List.mem_of_mem_head? (congrArg List.head? h)) List.mem_cons_self
      rw [List.forall_mem_append, List.forall_mem_singleton]
      exact ⟨(List.forall_mem_cons.1 hkey).2, by decide⟩
    -- the first segment is a run of characters that goes on over the closing quote
    have hsplit : back ++ '\x22' :: ']' :: rest = back ++ ['\x22'] ++ ']' :: rest := by
      rw [List.append_assoc, List.singleton_append]
    have hne : (back ++ ['\x22']).reverse ++ [] ≠ [] := by simp
    obtain ⟨t, more', hfirst⟩ := exists_segmentsFrom_eq_cons hne (']' :: rest)
    rw [hsplit, segmentsFrom_name hrun, hfirst] at h
    have hquote : '\x22' ∈ ']' :: back := by
      rw [← (List.cons.inj h).1]
      simp
    exact List.not_mem_cons_of_ne_of_not_mem (by decide) hqback hquote

/-- Keys without double quotes are the segments of their path iff none has `]` in it. -/
theorem segments_quotedPath_iff {keys : List String}
    (h : ∀ key ∈ keys, key ≠ "" ∧ '\x22' ∉ key.toList) :
    segments (quotedPath keys) = keys ↔ ∀ key ∈ keys, ']' ∉ key.toList := by
  have hlists : segments (quotedPath keys) = keys ↔
      segmentsFrom [] (quotedPath keys) = keys.map String.toList := by
    unfold segments
    constructor
    · intro he
      have hm := congrArg (List.map String.toList) he
      simpa only [List.map_map, Function.comp_def, String.toList_ofList, List.map_id'] using hm
    · intro he
      rw [he]
      simp only [List.map_map, Function.comp_def, String.ofList_toList, List.map_id']
  rw [hlists]
  clear hlists
  induction keys with
  | nil => simp [quotedPath, segmentsFrom, segment]
  | cons key keys ih =>
    obtain ⟨⟨hne, hq⟩, hkeys⟩ := List.forall_mem_cons.1 h
    rw [List.forall_mem_cons, quotedPath, List.flatMap_cons, List.map_cons]
    by_cases hb : ']' ∈ key.toList
    · have hcut := segmentsFrom_quoted_ne hq hb (keys.flatMap quoted) (keys.map String.toList)
      exact iff_of_false hcut fun hall => hall.1 hb
    · rw [segmentsFrom_quoted hne hq hb, List.cons.injEq, and_iff_right rfl, and_iff_right hb]
      exact ih hkeys

/-- Paths of keys without double quotes lead along exactly these keys, whatever else is in them, iff
no key has `]` in it. -/
theorem quotedPath_followed_iff {keys : List String}
    (h : ∀ key ∈ keys, key ≠ "" ∧ '\x22' ∉ key.toList) :
    (segments (quotedPath keys) = keys ∧
        ∀ v, get? v (quotedPath keys) = follow? v keys ∧
          lookup v (quotedPath keys) = lookupSegments v keys) ↔
      ∀ key ∈ keys, ']' ∉ key.toList := by
  rw [← segments_quotedPath_iff h]
  constructor
  · exact fun hall => hall.1
  · intro hsegments
    refine ⟨hsegments, fun v => ?_⟩
    unfold get? lookup
    rw [hsegments]
    exact ⟨rfl, rfl⟩

theorem quotedPath_followed_dotted :
    (∀ key ∈ ["a.b", "['", " "], key ≠ "" ∧ '\x22' ∉ key.toList) ∧
      ((segments (quotedPath ["a.b", "['", " "]) = ["a.b", "['", " "] ∧
          ∀ v, get? v (quotedPath ["a.b", "['", " "]) = follow? v ["a.b", "['", " "] ∧
            lookup v (quotedPath ["a.b", "['", " "]) = lookupSegments v ["a.b", "['", " "]) ↔
        ∀ key ∈ ["a.b", "['", " "], ']' ∉ key.toList) := by
  have h : ∀ key ∈ ["a.b", "['", " "], key ≠ "" ∧ '\x22' ∉ key.toList := by decide
  exact ⟨h, quotedPath_followed_iff h⟩

/-- The key `a]b` is read as two segments, one of which has a quote in it. -/
theorem not_every_quotedPath_followed :
    ¬∀ keys : List String, (∀ key ∈ keys, key ≠ "" ∧ '\x22' ∉ key.toList) →
      segments (quotedPath keys) = keys := by
  intro hall
  have hcut : segments (quotedPath ["a]b"]) = ["a", "b\x22]"] := by decide +kernel
  have hwhole := hall ["a]b"] (by decide)
  rw [hcut] at hwhole
  exact absurd hwhole (by decide)

end Workflow.Path
