import Workflow.Proofs.Eval.Meter
import Workflow.Proofs.Eval.Yields

/-! Evaluations that end with a value if the limits leave enough room, and those of them whose
results are known. -/
namespace Workflow.Eval

/-- With so many levels of nesting left and room for so many items, the evaluation ends with a
result of the kind, and uses up no more. -/
def Affords {α : Type} (s : Setting) (levels units : Nat) (m : EvalM α) (P : α → Prop) : Prop :=
  ∀ t : Meter, t.depth + levels ≤ s.limits.nesting →
    t.allocated + units ≤ s.limits.maxTotalElements →
      ∃ a t', m s t = .ok a t' ∧ P a ∧ t'.depth = t.depth ∧ t'.allocated ≤ t.allocated + units

/-- No look at the clock ends the evaluation. -/
def Untimed (s : Setting) : Prop :=
  ∀ ticks, s.elapsed ticks < s.limits.timeoutMs

namespace Affords

variable {α β : Type} {s : Setting} {levels units : Nat} {m : EvalM α} {P : α → Prop}

theorem pure {a : α} (h : P a) : Affords s levels 0 (Pure.pure a) P :=
  fun t _ _ => ⟨a, t, rfl, h, rfl, Nat.le_refl _⟩

theorem mono {levels' units' : Nat} (h : Affords s levels units m P) (hl : levels ≤ levels')
    (hu : units ≤ units') : Affords s levels' units' m P := by
  intro t ht ha
  obtain ⟨a, t', he, hp, hd, hle⟩ := h t (by omega) (by omega)
  exact ⟨a, t', he, hp, hd, by omega⟩

theorem bind {units' : Nat} {f : α → EvalM β} {Q : β → Prop} (hm : Affords s levels units m P)
    (hf : ∀ a, P a → Affords s levels units' (f a) Q) :
    Affords s levels (units + units') (m >>= f) Q := by
  intro t ht ha
  obtain ⟨a, t', he, hp, hd, hle⟩ := hm t ht (by omega)
  obtain ⟨b, t'', he', hq, hd', hle'⟩ := hf a hp t' (by omega) (by omega)
  refine ⟨b, t'', ?_, hq, by omega, by omega⟩
  rw [run_bind, he]
  exact he'

theorem bind_free {f : α → EvalM β} {Q : β → Prop} (hm : Affords s levels units m P)
    (hf : ∀ a, P a → Affords s levels 0 (f a) Q) : Affords s levels units (m >>= f) Q :=
  hm.bind hf

theorem tick (hs : Untimed s) : Affords s levels 0 tick fun _ => True := by
  intro t _ _
  exact ⟨(), { t with ticks := t.ticks + 1 }, run_tick_of_clock hs t, trivial, rfl, Nat.le_refl _⟩

theorem checkLength (hs : Untimed s) {length : Nat} (h : length ≤ s.limits.maxCollectionLength) :
    Affords s levels 0 (checkLength length) fun _ => True := by
  intro t ht ha
  obtain ⟨_, t', he, -, hd, hle⟩ := tick hs t ht ha
  refine ⟨(), t', ?_, trivial, hd, hle⟩
  rw [run_check_length, he]
  dsimp only
  rw [if_neg (Nat.not_lt.2 h)]

theorem charge (units : Nat) : Affords s levels units (charge units) fun _ => True := by
  intro t _ ha
  have hmin : min (t.allocated + units) Number.maxSize ≤ t.allocated + units := Nat.min_le_left ..
  refine ⟨(), { t with allocated := min (t.allocated + units) Number.maxSize }, ?_, trivial, rfl,
    hmin⟩
  rw [run_charge, if_neg (Nat.not_lt.2 (Nat.le_trans hmin ha))]

theorem reserveItems (hs : Untimed s) {length : Nat} (h : length ≤ s.limits.maxCollectionLength) :
    Affords s levels length (reserveItems length) fun _ => True :=
  ((checkLength hs h).bind fun _ _ => charge length).mono (Nat.le_refl _)
    (Nat.le_of_eq (Nat.zero_add _))

theorem check_bytes {bytes : Nat} (h : bytes ≤ s.limits.maxStringLength) :
    Affords s levels 0 (checkBytes bytes) fun _ => True :=
  fun t _ _ => ⟨(), t, by rw [run_check_bytes, if_neg (Nat.not_lt.2 h)], trivial, rfl, Nat.le_refl _⟩

theorem new_string {text : String} (h : text.utf8ByteSize ≤ s.limits.maxStringLength) :
    Affords s levels text.utf8ByteSize (newString text) (· = .string text) := by
  have hreserve : Affords s levels text.utf8ByteSize (reserveBytes text.utf8ByteSize)
      fun _ => True :=
    ((check_bytes h).bind fun _ _ => charge _).mono (Nat.le_refl _) (Nat.le_of_eq (Nat.zero_add _))
  exact hreserve.bind fun _ _ => pure (P := fun v => v = Value.string text) rfl

theorem freshMark : Affords s levels 0 freshMark fun _ => True :=
  fun t _ _ => ⟨_, { t with made := t.made + 1 }, rfl, trivial, rfl, Nat.le_refl _⟩

theorem freeArray (items : List Value) :
    Affords s levels 0 (freeArray items) fun w => ∃ mark, w = .array mark items :=
  freshMark.bind fun mark _ => pure ⟨mark, rfl⟩

theorem freeObject (entries : List (String × Value)) :
    Affords s levels 0 (freeObject entries) fun w =>
      ∃ mark, w = .object mark (Fields.ofList entries) :=
  freshMark.bind fun mark _ => pure ⟨mark, rfl⟩

theorem some_of {m : EvalM Value} {P : Value → Prop} (h : Affords s levels units m P) :
    Affords s levels units (some <$> m) fun link => ∃ w, link = some w ∧ P w :=
  h.bind_free fun w hw => pure ⟨w, rfl, hw⟩

theorem imp {Q : α → Prop} (h : Affords s levels units m P) (hpq : ∀ a, P a → Q a) :
    Affords s levels units m Q := by
  intro t ht ha
  obtain ⟨a, t', he, hp, hd, hle⟩ := h t ht ha
  exact ⟨a, t', he, hpq a hp, hd, hle⟩

theorem as_value {m : EvalM Link} {P : Value → Prop} (hs : Untimed s)
    (h : Affords s levels units m fun link => ∃ v, link = some v ∧ P v) :
    Affords s (levels + 1) units (asValue m) P := by
  intro t ht ha
  obtain ⟨_, t₁, he, -, hd, hle⟩ := tick hs t (by omega) (by omega)
  obtain ⟨_, t₂, he', ⟨v, rfl, hv⟩, hd', hle'⟩ :=
    h { t₁ with depth := t₁.depth + 1 } (by dsimp only; omega) (by dsimp only; omega)
  dsimp only at hd' hle'
  refine ⟨v, { t₂ with depth := t₂.depth - 1 }, ?_, hv, by dsimp only; omega,
    by dsimp only; omega⟩
  unfold asValue
  rw [run_deeper, he]
  dsimp only
  rw [if_neg (by omega), run_bind, he']
  rfl

end Affords

theorem display_string (s : String) : (Value.string s).display = s :=
  String.empty_append

/-- There is no result but those of the kind, and one if arrays of `length` items, texts of `bytes`
bytes and `units` of both together are allowed. -/
structure Delivers {α : Type} (length bytes units : Nat) (m : EvalM α) (P : α → Prop) : Prop where
  only : ∀ a, Yields m a → P a
  ends : ∀ s : Setting, Untimed s → length ≤ s.limits.maxCollectionLength →
    bytes ≤ s.limits.maxStringLength → Affords s 0 units m P

namespace Delivers

variable {α β : Type} {length bytes units : Nat} {m : EvalM α} {P : α → Prop}

theorem pure {a : α} (h : P a) : Delivers length bytes 0 (Pure.pure a) P where
  only _ hb := eq_of_yields_pure hb ▸ h
  ends _ _ _ _ := .pure h

theorem bind {units' : Nat} {f : α → EvalM β} {Q : β → Prop} (hm : Delivers length bytes units m P)
    (hf : ∀ a, P a → Delivers length bytes units' (f a) Q) :
    Delivers length bytes (units + units') (m >>= f) Q where
  only b hb := by
    obtain ⟨a, ha, hb⟩ := yields_bind hb
    exact (hf a (hm.only a ha)).only b hb
  ends s hs hl hb := (hm.ends s hs hl hb).bind fun a ha => (hf a ha).ends s hs hl hb

/-- What comes first uses nothing up. -/
theorem free_bind {f : α → EvalM β} {Q : β → Prop} (hm : Delivers length bytes 0 m P)
    (hf : ∀ a, P a → Delivers length bytes units (f a) Q) :
    Delivers length bytes units (m >>= f) Q :=
  Nat.zero_add units ▸ hm.bind hf

theorem mono {length' bytes' units' : Nat} (h : Delivers length bytes units m P)
    (hl : length ≤ length') (hb : bytes ≤ bytes') (hu : units ≤ units') :
    Delivers length' bytes' units' m P where
  only := h.only
  ends s hs hl' hb' :=
    (h.ends s hs (Nat.le_trans hl hl') (Nat.le_trans hb hb')).mono (Nat.le_refl 0) hu

theorem imp {Q : α → Prop} (h : Delivers length bytes units m P) (hpq : ∀ a, P a → Q a) :
    Delivers length bytes units m Q where
  only a ha := hpq a (h.only a ha)
  ends s hs hl hb := (h.ends s hs hl hb).imp hpq

theorem tick : Delivers length bytes 0 tick fun _ => True where
  only _ _ := trivial
  ends _ hs _ _ := .tick hs

theorem check_bytes {n : Nat} (hn : n ≤ bytes) :
    Delivers length bytes 0 (checkBytes n) fun _ => True where
  only _ _ := trivial
  ends _ _ _ hb := .check_bytes (Nat.le_trans hn hb)

theorem new_string {text : String} (h : text.utf8ByteSize ≤ bytes) :
    Delivers length bytes text.utf8ByteSize (newString text) (· = .string text) where
  only v hv := by
    obtain ⟨_, -, hv⟩ := yields_bind hv
    exact eq_of_yields_pure hv
  ends _ _ _ hb := .new_string (Nat.le_trans h hb)

theorem new_array {items : List Value} (h : items.length ≤ length) :
    Delivers length bytes items.length (newArray items) fun v => ∃ mark, v = .array mark items where
  only v hv := by
    obtain ⟨_, -, hv⟩ := yields_bind hv
    obtain ⟨mark, -, hv⟩ := yields_bind hv
    exact ⟨mark, eq_of_yields_pure hv⟩
  ends _ hs hl _ := (Affords.reserveItems hs (Nat.le_trans h hl)).bind fun _ _ => .freeArray items

end Delivers

end Workflow.Eval
