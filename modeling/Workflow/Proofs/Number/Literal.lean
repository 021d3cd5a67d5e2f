import Mathlib.Data.List.TakeWhile
import Mathlib.Tactic.Common
import Workflow.Number.Literal

/-! Texts that stand for no number. What no decimal is made of stays behind when one is read, and an
exponent is read where digits follow its letter and its sign. -/
namespace Workflow.Text

theorem mem_dropWhile {α : Type} {p : α → Bool} {l : List α} {a : α} (h : a ∈ l)
    (ha : p a = false) : a ∈ l.dropWhile p := by
  rw [← List.takeWhile_append_dropWhile (p := p) (l := l), List.mem_append] at h
  refine h.resolve_left fun h => ?_
  have := List.mem_takeWhile_imp h
  rw [ha] at this
  cases this

theorem mem_trim {s : List Char} {c : Char} (h : c ∈ s) (hc : isBlank c = false) : c ∈ trim s := by
  unfold trim trimStart trimEnd
  rw [List.mem_reverse]
  exact mem_dropWhile (List.mem_reverse.2 (mem_dropWhile h hc)) hc

theorem digits?_of_mem {radix : Nat} {s : List Char} {c : Char} (h : c ∈ s)
    (hc : digit? radix c = none) : digits? radix s = none := by
  have hfold (n : Nat) : s.foldlM (fun n c => (digit? radix c).map (n * radix + ·)) n = none := by
    induction s generalizing n with
    | nil => cases h
    | cons d s ih =>
      rw [List.foldlM_cons]
      rcases List.mem_cons.1 h with rfl | h
      · rw [hc]
        rfl
      · cases digit? radix d with
        | none => rfl
        | some k => exact ih h _
  unfold digits?
  rw [hfold, ite_self]

theorem signed?_of_mem {radix bound : Nat} {s : List Char} {c : Char} (h : c ∈ s)
    (hc : digit? radix c = none) (hp : c ≠ '+') (hm : c ≠ '-') : signed? radix bound s = none := by
  unfold signed? unsigned?
  dsimp only
  split
  · rw [digits?_of_mem (List.mem_of_ne_of_mem hm h) hc]
    rfl
  · split
    · rw [digits?_of_mem (List.mem_of_ne_of_mem hp h) hc]
      rfl
    · rw [digits?_of_mem h hc]
      rfl

end Workflow.Text

namespace Workflow.Number

open Text

/-- A sign that may be left out, and whether it is a minus. -/
inductive IsSign : Bool → List Char → Prop
  | none : IsSign false []
  | plus : IsSign false ['+']
  | minus : IsSign true ['-']

/-- An exponent is read where digits follow its letter and its sign. -/
theorem scanExponent_eq_some_iff {s rest : List Char} {e : Int} :
    scanExponent s = (some e, rest) ↔ ∃ (c : Char) (negative : Bool) (sign body : List Char) (n : Nat),
      s = c :: (sign ++ body) ∧ (c = 'e' ∨ c = 'E') ∧ IsSign negative sign ∧
        digits? 10 (body.takeWhile isDigit) = some n ∧ e = signed negative n ∧
          rest = body.dropWhile isDigit := by
  constructor
  · intro h
    unfold scanExponent at h
    split at h
    · rename_i c body
      split at h
      · rename_i hc
        dsimp only at h
        split at h
        · rename_i n hn
          obtain ⟨he, hr⟩ := Prod.mk.inj h
          replace he := (Option.some.inj he).symm
          replace hr := hr.symm
          revert hn he hr
          -- the sign in front of the digits
          split
          · exact fun hn he hr => ⟨c, _, _, _, n, rfl, hc, .plus, hn, he, hr⟩
          · exact fun hn he hr => ⟨c, _, _, _, n, rfl, hc, .minus, hn, he, hr⟩
          · exact fun hn he hr => ⟨c, _, _, _, n, rfl, hc, .none, hn, he, hr⟩
        · cases h
      · cases h
    · cases h
  · rintro ⟨c, negative, sign, body, n, rfl, hc, hsign, hn, rfl, rfl⟩
    cases hsign with
    | none =>
      obtain ⟨d, t, rfl, hd⟩ : ∃ d t, body = d :: t ∧ isDigit d = true := by
        cases body with
        | nil => cases hn
        | cons d t =>
          refine ⟨d, t, rfl, ?_⟩
          by_contra hd
          rw [List.takeWhile_cons_of_neg hd] at hn
          cases hn
      have hp : d ≠ '+' := fun h => absurd (h ▸ hd) (by decide)
      have hm : d ≠ '-' := fun h => absurd (h ▸ hd) (by decide)
      -- the reader looks for a sign first, and there is none
      unfold scanExponent
      dsimp only
      rw [if_pos hc]
      split
      · rename_i k hk
        revert hk
        split
        · exact absurd (List.cons.inj ‹_›).1 hp
        · exact absurd (List.cons.inj ‹_›).1 hm
        · intro hk
          obtain rfl := Option.some.inj (hn.symm.trans hk)
          rfl
      · rename_i hk
        revert hk
        split
        · exact absurd (List.cons.inj ‹_›).1 hp
        · exact absurd (List.cons.inj ‹_›).1 hm
        · intro hk
          cases hn.symm.trans hk
    | plus =>
      show scanExponent (c :: '+' :: body) = _
      rw [scanExponent, if_pos hc, hn]
    | minus =>
      show scanExponent (c :: '-' :: body) = _
      rw [scanExponent, if_pos hc, hn]

theorem scanExponent_of_none {s : List Char} (h : (scanExponent s).1 = none) :
    (scanExponent s).2 = s := by
  unfold scanExponent at h ⊢
  split
  · split
    · rename_i hc
      dsimp only at h ⊢
      rw [if_pos hc] at h
      split
      · rename_i n hn
        rw [hn] at h
        cases h
      · rfl
    · rfl
  · rfl

/-- Digits, points, signs and the letter of an exponent make up a decimal. -/
def isPart (c : Char) : Bool :=
  isDigit c || c == '.' || c == '+' || c == '-' || c == 'e' || c == 'E'

section

variable {s : List Char} {c : Char}

theorem isPart_eq_false : isPart c = false ↔
    isDigit c = false ∧ c ≠ '.' ∧ c ≠ '+' ∧ c ≠ '-' ∧ c ≠ 'e' ∧ c ≠ 'E' := by
  simp only [isPart, Bool.or_eq_false_iff, beq_eq_false_iff_ne, and_assoc]

theorem mem_scanExponent (h : c ∈ s) (hc : isPart c = false) : c ∈ (scanExponent s).2 := by
  obtain ⟨hd, -, hp, hm, he, hE⟩ := isPart_eq_false.1 hc
  unfold scanExponent
  split
  · rename_i d rest
    split
    · rename_i hde
      have hcd : c ≠ d := by
        rcases hde with rfl | rfl
        · exact he
        · exact hE
      have hrest : c ∈ rest := List.mem_of_ne_of_mem hcd h
      dsimp only
      split
      · split
        · exact mem_dropWhile (List.mem_of_ne_of_mem hp hrest) hd
        · exact mem_dropWhile (List.mem_of_ne_of_mem hm hrest) hd
        · exact mem_dropWhile hrest hd
      · exact h
    · exact h
  · exact h

theorem mem_scan (h : c ∈ s) (hc : isPart c = false) : c ∈ (scan s).rest := by
  obtain ⟨hd, hpoint, -⟩ := isPart_eq_false.1 hc
  have htail := mem_dropWhile h hd
  have hexponent {b : Bool} {tail : List Char} (h : c ∈ tail) :
      c ∈ (if b = true then (none, tail) else scanExponent tail).2 := by
    split
    · exact h
    · exact mem_scanExponent h hc
  unfold scan
  refine hexponent ?_
  split
  · rename_i r heq
    split
    · exact htail
    · have hr : c ∈ '.' :: r := heq ▸ htail
      exact mem_dropWhile (List.mem_of_ne_of_mem hpoint hr) hd
  · exact htail

theorem unsignedDecimal?_of_mem (h : c ∈ s) (hc : isPart c = false) :
    unsignedDecimal? s = none := by
  unfold unsignedDecimal?
  dsimp only
  rw [if_neg]
  rw [List.isEmpty_iff]
  exact List.ne_nil_of_mem (mem_scan h hc)

end

theorem withSign_of_no_sign {s : List Char} (hp : ∀ rest, s ≠ '+' :: rest)
    (hm : ∀ rest, s ≠ '-' :: rest) (read : List Char → Option Float) :
    withSign read s = read s := by
  unfold withSign
  split
  · exact absurd rfl (hp _)
  · exact absurd rfl (hm _)
  · rfl

theorem ofText_of_colon {s : List Char} (h : ':' ∈ s) : ofText s = nan := by
  have ht : ':' ∈ trim s := mem_trim h (by decide)
  have hne {t : List Char} (hn : ':' ∉ t) : trim s ≠ t := fun heq => hn (heq ▸ ht)
  have hempty : ¬ (trim s).isEmpty = true := by
    rw [List.isEmpty_iff]
    exact List.ne_nil_of_mem ht
  have hpart : isPart ':' = false := by decide
  have hdigit : digit? 16 ':' = none := by decide
  have hhex {d e : Char} {hex : List Char} (hd : ':' ≠ d) (he : ':' ≠ e)
      (h : ':' ∈ d :: e :: hex) : signed? 16 0x8000_0000_0000_0000 hex = none :=
    signed?_of_mem (List.mem_of_ne_of_mem he (List.mem_of_ne_of_mem hd h)) hdigit (by decide)
      (by decide)
  unfold ofText
  dsimp only
  rw [if_neg hempty, if_neg (not_or.2 ⟨hne (by decide), hne (by decide)⟩), if_neg (hne (by decide))]
  split
  · rename_i heq
    rw [hhex (by decide) (by decide) (heq ▸ ht)]
    rfl
  · rename_i heq
    rw [hhex (by decide) (by decide) (heq ▸ ht)]
    rfl
  · unfold withSign
    split
    · rename_i heq
      rw [unsignedDecimal?_of_mem (List.mem_of_ne_of_mem (by decide) (heq ▸ ht)) hpart]
      rfl
    · rename_i heq
      rw [unsignedDecimal?_of_mem (List.mem_of_ne_of_mem (by decide) (heq ▸ ht)) hpart]
      rfl
    · rw [unsignedDecimal?_of_mem ht hpart]
      rfl

end Workflow.Number
