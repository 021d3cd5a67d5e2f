import Mathlib.Tactic.Common
import Workflow.Fields

/-! Maps by their entries: what insertion adds, and that a map is given by the values of its keys. -/
namespace Workflow.Fields

variable {α : Type}

theorem mem_insert {m : Fields α} {key : String} {v : α} {e : String × α}
    (h : e ∈ insert m key v) : e = (key, v) ∨ e ∈ m := by
  induction m with
  | nil => exact Or.inl (List.mem_singleton.1 h)
  | cons f rest ih =>
    obtain ⟨k, w⟩ := f
    unfold insert at h
    split at h
    · exact List.mem_cons.1 h
    · split at h
      · exact (List.mem_cons.1 h).imp_right (List.mem_cons_of_mem _)
      · rcases List.mem_cons.1 h with rfl | h
        · exact Or.inr List.mem_cons_self
        · exact (ih h).imp_right (List.mem_cons_of_mem _)

theorem mem_of_mem_insertAll {entries : List (String × α)} {m : Fields α} {e : String × α}
    (h : e ∈ insertAll m entries) : e ∈ m ∨ e ∈ entries := by
  induction entries generalizing m with
  | nil => exact Or.inl h
  | cons f rest ih =>
    rcases ih h with h | h
    · rcases mem_insert h with rfl | h
      · exact Or.inr List.mem_cons_self
      · exact Or.inl h
    · exact Or.inr (List.mem_cons_of_mem _ h)

/-- Each entry of a map is one of those that it was made of. -/
theorem mem_of_mem_ofList {entries : List (String × α)} {e : String × α}
    (h : e ∈ ofList entries) : e ∈ entries :=
  (mem_of_mem_insertAll h).resolve_left List.not_mem_nil

theorem length_insert_le (m : Fields α) (key : String) (v : α) :
    (insert m key v).length ≤ m.length + 1 := by
  induction m with
  | nil => exact Nat.le_refl _
  | cons f rest ih =>
    unfold insert
    split
    · exact Nat.le_refl _
    · split
      · exact Nat.le_succ _
      · exact Nat.succ_le_succ ih

theorem length_ofList_le (entries : List (String × α)) :
    (ofList entries).length ≤ entries.length := by
  have hall (m : Fields α) : (insertAll m entries).length ≤ m.length + entries.length := by
    induction entries generalizing m with
    | nil => exact Nat.le_refl _
    | cons f rest ih =>
      have hrest := ih (insert m f.1 f.2)
      have hfirst := length_insert_le m f.1 f.2
      rw [List.length_cons]
      show (insertAll (insert m f.1 f.2) rest).length ≤ _
      omega
  have h := hall []
  rwa [List.length_nil, Nat.zero_add] at h

theorem insert_of_gt {m : Fields α} {key : String} (h : ∀ e ∈ m, e.1 < key) (v : α) :
    insert m key v = m ++ [(key, v)] := by
  induction m with
  | nil => rfl
  | cons e rest ih =>
    obtain ⟨hk, hrest⟩ := List.forall_mem_cons.1 h
    unfold insert
    have hne : key ≠ e.1 := fun he => String.lt_irrefl key (he ▸ hk)
    rw [if_neg (String.lt_asymm hk), if_neg hne, ih hrest]
    rfl

/-- Entries in the order of their keys stay as they are. -/
theorem ofList_of_sorted {entries : List (String × α)} (h : Sorted entries) :
    ofList entries = entries := by
  suffices ∀ m : Fields α, Sorted (m ++ entries) → insertAll m entries = m ++ entries from
    this [] h
  clear h
  induction entries with
  | nil => exact fun m _ => (List.append_nil m).symm
  | cons e rest ih =>
    intro m hm
    have hlt : ∀ e' ∈ m, e'.1 < e.1 := fun e' he' =>
      (List.pairwise_append.1 hm).2.2 e' he' e List.mem_cons_self
    have hstep : insertAll m (e :: rest) = insertAll (insert m e.1 e.2) rest := rfl
    rw [hstep, insert_of_gt hlt, ih, List.append_assoc]
    · rfl
    · rwa [List.append_assoc]

theorem sorted_insert {m : Fields α} (h : Sorted m) (key : String) (v : α) :
    Sorted (insert m key v) := by
  induction m with
  | nil => exact List.pairwise_singleton _ _
  | cons e rest ih =>
    obtain ⟨k, w⟩ := e
    obtain ⟨hk, hrest⟩ := List.pairwise_cons.1 h
    unfold insert
    split
    · rename_i hlt
      refine List.pairwise_cons.2 ⟨fun e he => ?_, h⟩
      rcases List.mem_cons.1 he with rfl | he
      · exact hlt
      · exact String.lt_trans hlt (hk e he)
    · rename_i hge
      split
      · rename_i heq
        subst heq
        exact List.pairwise_cons.2 ⟨hk, hrest⟩
      · rename_i hne
        refine List.pairwise_cons.2 ⟨fun e he => ?_, ih hrest⟩
        rcases mem_insert he with rfl | he
        · exact Decidable.byContradiction fun hle =>
            hne (String.le_antisymm (String.not_lt.1 hle) (String.not_lt.1 hge))
        · exact hk e he

theorem get?_cons (k : String) (v : α) (rest : Fields α) (key : String) :
    get? ((k, v) :: rest) key = if key = k then some v else get? rest key := by
  unfold get?
  rw [List.lookup_cons]
  by_cases h : key = k
  · rw [beq_iff_eq.2 h, if_pos h]
  · rw [beq_false_of_ne h, if_neg h]

theorem get?_eq_none_of_lt {m : Fields α} {key : String} (h : ∀ e ∈ m, key < e.1) :
    get? m key = none := by
  refine List.lookup_eq_none_iff.2 fun e he => ?_
  have hne : key ≠ e.1 := fun heq => String.lt_irrefl key (heq ▸ h e he)
  simpa using hne

theorem mem_of_lookup {m : Fields α} {key : String} {v : α} (h : m.lookup key = some v) :
    (key, v) ∈ m := by
  obtain ⟨before, after, rfl, -⟩ := List.lookup_eq_some_iff.1 h
  exact List.mem_append_right _ List.mem_cons_self

theorem get?_eq_some_of_mem {m : Fields α} (h : Sorted m) {key : String} {v : α}
    (hm : (key, v) ∈ m) : get? m key = some v := by
  induction m with
  | nil => exact absurd hm List.not_mem_nil
  | cons e rest ih =>
    obtain ⟨k, w⟩ := e
    obtain ⟨hk, hrest⟩ := List.pairwise_cons.1 h
    rw [get?_cons]
    rcases List.mem_cons.1 hm with heq | hm
    · obtain ⟨rfl, rfl⟩ := Prod.mk.inj heq
      rw [if_pos rfl]
    · have hne : key ≠ k := fun heq => String.lt_irrefl key (heq ▸ hk _ hm)
      rw [if_neg hne, ih hrest hm]

theorem get?_filter_ne (m : Fields α) (key k : String) :
    get? (m.filter (·.1 ≠ key)) k = if k = key then none else get? m k := by
  induction m with
  | nil =>
    rw [List.filter_nil, get?_nil, ite_self]
  | cons e rest ih =>
    obtain ⟨l, v⟩ := e
    by_cases hl : l = key
    · rw [List.filter_cons_of_neg (by simpa using hl), ih, get?_cons]
      by_cases hk : k = key
      · rw [if_pos hk, if_pos hk]
      · rw [if_neg hk, if_neg hk, if_neg fun heq => hk (heq.trans hl)]
    · rw [List.filter_cons_of_pos (by simpa using hl), get?_cons, get?_cons, ih]
      by_cases hk : k = l
      · rw [if_pos hk, if_neg fun heq => hl (hk.symm.trans heq), if_pos hk]
      · rw [if_neg hk, if_neg hk]

/-- Two maps in which each key has the same value are the same. -/
theorem eq_of_get?_eq {m n : Fields α} (hm : Sorted m) (hn : Sorted n)
    (h : ∀ key, get? m key = get? n key) : m = n := by
  induction m generalizing n with
  | nil =>
    cases n with
    | nil => rfl
    | cons f rest =>
      have hf := h f.1
      rw [get?_cons f.1 f.2, if_pos rfl] at hf
      exact absurd hf (by simp)
  | cons e m ih =>
    obtain ⟨k, v⟩ := e
    obtain ⟨hk, hmtail⟩ := List.pairwise_cons.1 hm
    cases n with
    | nil =>
      have he := h k
      rw [get?_cons, if_pos rfl] at he
      exact absurd he (by simp)
    | cons f n =>
      obtain ⟨l, w⟩ := f
      obtain ⟨hl, hntail⟩ := List.pairwise_cons.1 hn
      have hkl : k = l := by
        -- the lesser of the two keys would be missing in the other map
        by_cases hlt : k < l
        · have hnone : get? ((l, w) :: n) k = none :=
            get?_eq_none_of_lt (List.forall_mem_cons.2
              ⟨hlt, fun e he => String.lt_trans hlt (hl e he)⟩)
          rw [← h k, get?_cons, if_pos rfl] at hnone
          exact absurd hnone (by simp)
        by_cases hgt : l < k
        · have hnone : get? ((k, v) :: m) l = none :=
            get?_eq_none_of_lt (List.forall_mem_cons.2
              ⟨hgt, fun e he => String.lt_trans hgt (hk e he)⟩)
          rw [h l, get?_cons, if_pos rfl] at hnone
          exact absurd hnone (by simp)
        exact String.le_antisymm (String.not_lt.1 hgt) (String.not_lt.1 hlt)
      subst hkl
      have hvw : v = w := by
        have hv := h k
        rw [get?_cons, get?_cons, if_pos rfl, if_pos rfl] at hv
        exact Option.some.inj hv
      have hrest (key : String) : get? m key = get? n key := by
        have hkey := h key
        rw [get?_cons, get?_cons] at hkey
        by_cases heq : key = k
        · rw [heq, get?_eq_none_of_lt hk, get?_eq_none_of_lt hl]
        · rwa [if_neg heq, if_neg heq] at hkey
      have htail : m = n := ih hmtail hntail hrest
      rw [hvw, htail]

section Mapped

variable {β : Type}

/-- Each key has one value, which alone decides whether it is kept. -/
theorem get?_filter {m : Fields α} (h : Sorted m) (p : String → α → Bool) (key : String) :
    get? (m.filter fun e => p e.1 e.2) key = (get? m key).filter (p key) := by
  induction m with
  | nil => rfl
  | cons e rest ih =>
    obtain ⟨k, v⟩ := e
    obtain ⟨hk, hrest⟩ := List.pairwise_cons.1 h
    have hfound := ih hrest
    by_cases hp : p k v = true
    · rw [List.filter_cons_of_pos (p := fun e : String × α => p e.1 e.2) hp, get?_cons, get?_cons,
        hfound]
      by_cases hkey : key = k
      · subst hkey
        rw [if_pos rfl, if_pos rfl, Option.filter_some, if_pos hp]
      · rw [if_neg hkey, if_neg hkey]
    · rw [List.filter_cons_of_neg (p := fun e : String × α => p e.1 e.2) hp, get?_cons, hfound]
      by_cases hkey : key = k
      · subst hkey
        rw [get?_eq_none_of_lt hk, if_pos rfl, Option.filter_some, if_neg hp, Option.filter_none]
      · rw [if_neg hkey]

theorem get?_map (m : Fields α) (f : String → α → β) (key : String) :
    get? (m.map fun e => (e.1, f e.1 e.2)) key = (get? m key).map (f key) := by
  induction m with
  | nil => rfl
  | cons e rest ih =>
    obtain ⟨k, v⟩ := e
    rw [List.map_cons, get?_cons, get?_cons, ih]
    by_cases hkey : key = k
    · subst hkey
      rw [if_pos rfl, if_pos rfl, Option.map_some]
    · rw [if_neg hkey, if_neg hkey]

theorem get?_append (m n : Fields α) (key : String) :
    get? (m ++ n) key = (get? m key).or (get? n key) := by
  induction m with
  | nil => rfl
  | cons e rest ih =>
    obtain ⟨k, v⟩ := e
    rw [List.cons_append, get?_cons, get?_cons, ih]
    by_cases hkey : key = k
    · rw [if_pos hkey, if_pos hkey, Option.some_or]
    · rw [if_neg hkey, if_neg hkey]

theorem sorted_insertAll {m : Fields α} (h : Sorted m) (entries : List (String × α)) :
    Sorted (insertAll m entries) := by
  induction entries generalizing m with
  | nil => exact h
  | cons e rest ih => exact ih (sorted_insert h e.1 e.2)

theorem sorted_ofList (entries : List (String × α)) : Sorted (ofList entries) :=
  sorted_insertAll List.Pairwise.nil entries

theorem get?_insertAll {entries : List (String × α)} (h : entries.Pairwise (·.1 ≠ ·.1))
    (m : Fields α) (key : String) :
    get? (insertAll m entries) key = (get? entries key).or (get? m key) := by
  induction entries generalizing m with
  | nil => rfl
  | cons e rest ih =>
    obtain ⟨k, v⟩ := e
    obtain ⟨hk, hrest⟩ := List.pairwise_cons.1 h
    show get? (insertAll (insert m k v) rest) key = _
    rw [ih hrest, get?_insert, get?_cons]
    by_cases hkey : key = k
    · have hnone : get? rest key = none := by
        apply List.lookup_eq_none_iff.2
        intro e he
        have hne : key ≠ e.1 := hkey ▸ hk e he
        simpa using hne
      rw [if_pos hkey, if_pos hkey, hnone, Option.none_or, Option.some_or]
    · rw [if_neg hkey, if_neg hkey]

/-- Entries whose keys are different are found in the map that is made of them. -/
theorem get?_ofList {entries : List (String × α)} (h : entries.Pairwise (·.1 ≠ ·.1))
    (key : String) : get? (ofList entries) key = get? entries key := by
  have hall := get?_insertAll h [] key
  rwa [get?_nil, Option.or_none] at hall

end Mapped

end Workflow.Fields
