import Mathlib.Data.List.Forall2
import Workflow.Proofs.Attempt
import Workflow.Proofs.Text.Decimal
import Workflow.Proofs.Text.Pieces
import Workflow.Schedule.Parser

/-! The texts of cron schedules as a grammar, and that reading accepts just these. The width of a
step may be written with a plus sign; apart from that the texts are the documented ones. -/
namespace Workflow

namespace Schedule

open Text

/-- Digits for a value of the field. -/
def IsNumber (f : Field) (s : List Char) (n : Nat) : Prop :=
  Digits s n ∧ f.Admits n

/-- Two numbers with a minus between them, the first not above the second. -/
def IsRange (f : Field) (s : List Char) (start stop : Nat) : Prop :=
  ∃ a b, s = a ++ '-' :: b ∧ IsNumber f a start ∧ IsNumber f b stop ∧ start ≤ stop

/-- What stands before the width of a step, and the range that it means. -/
inductive IsBase (f : Field) : List Char → Option (Nat × Nat) → Prop
  | all : IsBase f ['*'] none
  | onward {s : List Char} {n : Nat} : IsNumber f s n → IsBase f s (some (n, f.high))
  | within {s : List Char} {start stop : Nat} :
    IsRange f s start stop → IsBase f s (some (start, stop))

/-- Digits for a positive number. -/
def PositiveDigits (s : List Char) (n : Nat) : Prop :=
  Digits s n ∧ 0 < n

/-- What is understood as the width of a step. -/
def PositiveWord (s : List Char) (n : Nat) : Prop :=
  (∃ body, (s = body ∨ s = '+' :: body) ∧ PositiveDigits body n) ∧ n < numberBound

theorem number_eq_ok_iff {f : Field} {s : List Char} {n : Nat} :
    f.number s = .ok n ↔ IsNumber f s n := by
  unfold Field.number IsNumber
  rw [← digits?_eq_some_iff]
  cases hd : digits? 10 s with
  | none => simp
  | some m =>
    rw [Option.filter_some]
    by_cases hm : m < numberBound
    · simp only [hm, decide_true, if_true]
      by_cases ha : f.Admits m
      · simp only [ha, if_true, Except.ok.injEq, Option.some.injEq]
        constructor
        · rintro rfl
          exact ⟨rfl, ha⟩
        · exact And.left
      · simp only [ha, if_false, Option.some.injEq, reduceCtorEq, false_iff]
        rintro ⟨rfl, h⟩
        exact ha h
    · simp only [hm, decide_false, Bool.false_eq_true, if_false, Option.some.injEq, reduceCtorEq,
        false_iff]
      -- no field has values that large
      rintro ⟨rfl, -, h⟩
      have hhigh : f.high < numberBound := by
        cases f <;> decide
      exact hm (Nat.lt_of_le_of_lt h hhigh)

theorem IsNumber.not_mem {f : Field} {s : List Char} {n : Nat} (h : IsNumber f s n) {c : Char}
    (hc : Number.isDigit c = false) : c ∉ s :=
  h.1.not_mem hc

theorem ends_eq_ok_iff {f : Field} {s : List Char} {r : Nat × Nat} :
    f.ends s = .ok r ↔ IsRange f s r.1 r.2 := by
  unfold Field.ends IsRange
  constructor
  · intro h
    cases hc : cutChar? '-' s with
    | none =>
      rw [hc] at h
      exact absurd h (by simp)
    | some cut =>
      obtain ⟨a, b⟩ := cut
      rw [hc] at h
      obtain ⟨start, ha, h⟩ := bind_eq_ok_iff.1 h
      obtain ⟨stop, hb, h⟩ := bind_eq_ok_iff.1 h
      by_cases hle : start ≤ stop
      · rw [if_pos hle] at h
        obtain rfl := Except.ok.inj h
        exact ⟨a, b, (cutChar?_eq_some_iff.1 hc).1, number_eq_ok_iff.1 ha, number_eq_ok_iff.1 hb,
          hle⟩
      · rw [if_neg hle] at h
        exact absurd h (by simp [throw, throwThe, MonadExceptOf.throw])
  · rintro ⟨a, b, rfl, ha, hb, hle⟩
    rw [cutChar?_eq_some_iff.2 ⟨rfl, ha.not_mem rfl⟩]
    dsimp only
    rw [number_eq_ok_iff.2 ha, number_eq_ok_iff.2 hb]
    show (if r.1 ≤ r.2 then Except.ok (r.1, r.2) else _) = _
    rw [if_pos hle]

theorem IsRange.not_mem {f : Field} {s : List Char} {start stop : Nat}
    (h : IsRange f s start stop) {c : Char} (hc : Number.isDigit c = false) (hm : c ≠ '-') :
    c ∉ s := by
  obtain ⟨a, b, rfl, ha, hb, -⟩ := h
  simp [ha.not_mem hc, hb.not_mem hc, hm]

theorem IsRange.minus_mem {f : Field} {s : List Char} {start stop : Nat}
    (h : IsRange f s start stop) : '-' ∈ s := by
  obtain ⟨a, b, rfl, -, -, -⟩ := h
  simp

theorem ne_star {s : List Char} (h : '*' ∉ s) : s ≠ ['*'] := by
  rintro rfl
  exact h (List.mem_singleton_self '*')

theorem stepEnds_eq_ok_iff {f : Field} {s : List Char} {r : Option (Nat × Nat)} :
    f.stepEnds s = .ok r ↔ IsBase f s r := by
  unfold Field.stepEnds
  constructor
  · intro h
    by_cases hs : s = ['*']
    · rw [if_pos hs] at h
      obtain rfl := Except.ok.inj h
      exact hs ▸ .all
    · rw [if_neg hs] at h
      by_cases hm : s.contains '-' = true
      · rw [if_pos hm] at h
        obtain ⟨⟨start, stop⟩, he, h⟩ := bind_eq_ok_iff.1 h
        obtain rfl := Except.ok.inj h
        exact .within (ends_eq_ok_iff.1 he)
      · rw [if_neg hm] at h
        obtain ⟨n, hn, h⟩ := bind_eq_ok_iff.1 h
        obtain rfl := Except.ok.inj h
        exact .onward (number_eq_ok_iff.1 hn)
  · intro h
    cases h with
    | all => rfl
    | onward hn =>
      have hs : s ≠ ['*'] := ne_star (hn.not_mem rfl)
      have hm : ¬s.contains '-' = true := by simpa using hn.not_mem (c := '-') rfl
      rw [if_neg hs, if_neg hm, number_eq_ok_iff.2 hn]
      rfl
    | @within _ start stop hr =>
      have hs : s ≠ ['*'] := ne_star (hr.not_mem rfl (by decide))
      have hm : s.contains '-' = true := by simpa using hr.minus_mem
      rw [if_neg hs, if_pos hm, (ends_eq_ok_iff (r := (start, stop))).2 hr]
      rfl

theorem IsBase.slash_not_mem {f : Field} {s : List Char} {r : Option (Nat × Nat)}
    (h : IsBase f s r) : '/' ∉ s := by
  cases h with
  | all => decide
  | onward hn => exact hn.not_mem rfl
  | within hr => exact hr.not_mem rfl (by decide)

theorem unsigned?_eq_some_iff {bound n : Nat} {s : List Char} :
    unsigned? 10 bound s = some n ↔
      (∃ body, (s = body ∨ s = '+' :: body) ∧ Digits body n) ∧ n < bound := by
  have hplus : ∀ body : List Char, unsigned? 10 bound ('+' :: body) =
      (digits? 10 body).filter (· < bound) := fun _ => rfl
  cases s with
  | nil =>
    have hnil : ¬Digits [] n := fun h => h.1 rfl
    simp [unsigned?, digits?, hnil]
  | cons c rest =>
    by_cases hc : c = '+'
    · subst hc
      have hsign : ¬Digits ('+' :: rest) n := fun h => h.not_mem rfl List.mem_cons_self
      rw [hplus, Option.filter_eq_some_iff, digits?_eq_some_iff, decide_eq_true_eq]
      refine and_congr_left fun _ => ⟨fun h => ⟨rest, Or.inr rfl, h⟩, ?_⟩
      rintro ⟨body, rfl | hbody, h⟩
      · exact absurd h hsign
      · exact (List.cons.inj hbody).2 ▸ h
    · rw [unsigned?_of_ne_plus hc, Option.filter_eq_some_iff, digits?_eq_some_iff,
        decide_eq_true_eq]
      refine and_congr_left fun _ => ⟨fun h => ⟨c :: rest, Or.inl rfl, h⟩, ?_⟩
      rintro ⟨body, rfl | hbody, h⟩
      · exact h
      · exact absurd (List.cons.inj hbody).1 hc

theorem stepWidth_eq_ok_iff {s : List Char} {n : Nat} :
    stepWidth s = .ok n ↔ PositiveWord s n := by
  have hiff : (unsigned? 10 numberBound s).filter (0 < ·) = some n ↔ PositiveWord s n := by
    rw [Option.filter_eq_some_iff, unsigned?_eq_some_iff, decide_eq_true_eq]
    unfold PositiveWord PositiveDigits
    constructor
    · rintro ⟨⟨⟨body, hs, hd⟩, hlt⟩, hpos⟩
      exact ⟨⟨body, hs, hd, hpos⟩, hlt⟩
    · rintro ⟨⟨body, hs, hd, hpos⟩, hlt⟩
      exact ⟨⟨⟨body, hs, hd⟩, hlt⟩, hpos⟩
  rw [← hiff]
  unfold stepWidth
  cases (unsigned? 10 numberBound s).filter (0 < ·) with
  | none => simp
  | some m => simp

section Written

variable (width : List Char → Nat → Prop)

/-- The text of an atom. -/
inductive Atom.Written (f : Field) : List Char → Atom → Prop
  | wildcard : Written f ['*'] .wildcard
  | value {s : List Char} {n : Nat} : IsNumber f s n → Written f s (.value n)
  | range {s : List Char} {start stop : Nat} :
    IsRange f s start stop → Written f s (.range start stop)
  | step {base w : List Char} {ends : Option (Nat × Nat)} {n : Nat} :
    IsBase f base ends → width w n → Written f (base ++ '/' :: w) (.step ends n)

/-- One atom, or several with commas between them. -/
inductive Entry.Written (f : Field) : List Char → Entry → Prop
  | one {s : List Char} {a : Atom} : Atom.Written width f s a → Written f s (.one a)
  | list {texts : List (List Char)} {items : List Atom} :
    2 ≤ texts.length → List.Forall₂ (Atom.Written width f) texts items →
      Written f ([','].intercalate texts) (.list items)

/-- An entry for each field, with white space between them. -/
def Cron.Written (s : List Char) (c : Cron) : Prop :=
  ∃ texts, Spaced s texts ∧
    List.Forall₂ (fun f text => Entry.Written width f text (c.entry f)) Field.all texts

end Written

theorem atom_parse_eq_ok_iff {f : Field} {s : List Char} {a : Atom} :
    Atom.parse f s = .ok a ↔ Atom.Written PositiveWord f s a := by
  unfold Atom.parse
  constructor
  · intro h
    by_cases hs : s = ['*']
    · rw [if_pos hs] at h
      obtain rfl := Except.ok.inj h
      exact hs ▸ .wildcard
    · rw [if_neg hs] at h
      cases hc : cutChar? '/' s with
      | some cut =>
        obtain ⟨base, w⟩ := cut
        rw [hc] at h
        obtain ⟨n, hn, h⟩ := bind_eq_ok_iff.1 h
        obtain ⟨r, hr, h⟩ := bind_eq_ok_iff.1 h
        obtain rfl := Except.ok.inj h
        rw [(cutChar?_eq_some_iff.1 hc).1]
        exact .step (stepEnds_eq_ok_iff.1 hr) (stepWidth_eq_ok_iff.1 hn)
      | none =>
        rw [hc] at h
        dsimp only at h
        by_cases hm : s.contains '-' = true
        · rw [if_pos hm] at h
          obtain ⟨⟨start, stop⟩, he, h⟩ := bind_eq_ok_iff.1 h
          obtain rfl := Except.ok.inj h
          exact .range (ends_eq_ok_iff.1 he)
        · rw [if_neg hm] at h
          obtain ⟨n, hn, h⟩ := bind_eq_ok_iff.1 h
          obtain rfl := Except.ok.inj h
          exact .value (number_eq_ok_iff.1 hn)
  · intro h
    cases h with
    | wildcard => rfl
    | value hn =>
      have hs : s ≠ ['*'] := ne_star (hn.not_mem rfl)
      have hm : ¬s.contains '-' = true := by simpa using hn.not_mem (c := '-') rfl
      rw [if_neg hs, cutChar?_eq_none (hn.not_mem rfl)]
      dsimp only
      rw [if_neg hm, number_eq_ok_iff.2 hn]
      rfl
    | @range _ start stop hr =>
      have hs : s ≠ ['*'] := ne_star (hr.not_mem rfl (by decide))
      have hm : s.contains '-' = true := by simpa using hr.minus_mem
      rw [if_neg hs, cutChar?_eq_none (hr.not_mem rfl (by decide))]
      dsimp only
      rw [if_pos hm, (ends_eq_ok_iff (r := (start, stop))).2 hr]
      rfl
    | @step base w ends n hb hw =>
      have hs : base ++ '/' :: w ≠ ['*'] := by
        intro he
        have hmem : '/' ∈ ['*'] := he ▸ List.mem_append_right base List.mem_cons_self
        exact absurd hmem (by decide)
      -- the base has no slash, so that the text is cut where the width begins
      rw [if_neg hs, cutChar?_eq_some_iff.2 ⟨rfl, hb.slash_not_mem⟩]
      dsimp only
      rw [stepWidth_eq_ok_iff.2 hw, stepEnds_eq_ok_iff.2 hb]
      rfl

/-- The characters of an atom apart from those of the width of a step. -/
theorem Atom.Written.not_mem {width : List Char → Nat → Prop} {c : Char}
    (hw : ∀ w n, width w n → c ∉ w) (hc : Number.isDigit c = false) (hm : c ∉ ['*', '-', '/'])
    {f : Field} {s : List Char} {a : Atom} (h : Atom.Written width f s a) : c ∉ s := by
  rw [List.mem_cons, List.mem_cons, List.mem_singleton, not_or, not_or] at hm
  obtain ⟨hstar, hminus, hslash⟩ := hm
  cases h with
  | wildcard => rwa [List.mem_singleton]
  | value hn => exact hn.not_mem hc
  | range hr => exact hr.not_mem hc hminus
  | step hb hn =>
    rw [List.mem_append, List.mem_cons, not_or, not_or]
    refine ⟨?_, hslash, hw _ _ hn⟩
    cases hb with
    | all => rwa [List.mem_singleton]
    | onward hn => exact hn.not_mem hc
    | within hr => exact hr.not_mem hc hminus

theorem PositiveWord.comma_not_mem {w : List Char} {n : Nat} (h : PositiveWord w n) : ',' ∉ w := by
  obtain ⟨⟨body, hbody, hd, -⟩, -⟩ := h
  have hfree : ',' ∉ body := hd.not_mem rfl
  rcases hbody with rfl | rfl
  · exact hfree
  · rw [List.mem_cons, not_or]
    exact ⟨by decide, hfree⟩

theorem gather_eq_ok_iff {ε α : Type} {results : List (Except ε α)} {items : List α} :
    gather results = .ok items ↔ results = items.map .ok := by
  induction results generalizing items with
  | nil =>
    cases items with
    | nil => simp [gather]
    | cons a items => simp [gather]
  | cons r rest ih =>
    unfold gather
    cases r with
    | error e =>
      cases items with
      | nil => simp
      | cons a items => simp
    | ok a =>
      cases hrest : gather rest with
      | error errors =>
        have hne : ∀ items : List α, rest ≠ items.map .ok := fun items h => by
          rw [ih.2 h] at hrest
          exact absurd hrest (by simp)
        cases items with
        | nil => simp
        | cons b items => simp [hne items]
      | ok more =>
        obtain rfl := ih.1 hrest
        cases items with
        | nil => simp
        | cons b items =>
          have hinj : Function.Injective (Except.ok : α → Except ε α) := fun _ _ => Except.ok.inj
          simp [List.map_inj_right hinj]

theorem atom_parse_map_eq_iff {f : Field} {texts : List (List Char)} {items : List Atom} :
    texts.map (fun text => (Atom.parse f text).mapError (Fault.atom f)) = items.map .ok ↔
      List.Forall₂ (Atom.Written PositiveWord f) texts items := by
  rw [← List.forall₂_eq_eq_eq, List.forall₂_map_left_iff, List.forall₂_map_right_iff]
  simp only [mapError_eq_ok_iff, atom_parse_eq_ok_iff]

theorem exists_of_forall₂ {α β : Type} {R : α → β → Prop} {l : List α} {m : List β}
    (h : List.Forall₂ R l m) {a : α} (ha : a ∈ l) : ∃ b, R a b := by
  induction h with
  | nil => exact absurd ha List.not_mem_nil
  | @cons x y l m hx _ ih =>
    rcases List.mem_cons.1 ha with rfl | ha
    · exact ⟨y, hx⟩
    · exact ih ha

/-- The characters of an entry apart from those of the widths of its steps. -/
theorem Entry.Written.not_mem {width : List Char → Nat → Prop} {c : Char}
    (hw : ∀ w n, width w n → c ∉ w) (hc : Number.isDigit c = false)
    (hm : c ∉ [',', '*', '-', '/']) {f : Field} {s : List Char} {e : Entry}
    (h : Entry.Written width f s e) : c ∉ s := by
  rw [List.mem_cons, not_or] at hm
  obtain ⟨hcomma, hm⟩ := hm
  cases h with
  | one ha => exact ha.not_mem hw hc hm
  | list _ hitems =>
    intro hmem
    rcases mem_intercalate_iff.1 hmem with ⟨text, ht, hmem⟩ | ⟨heq, -⟩
    · obtain ⟨a, ha⟩ := exists_of_forall₂ hitems ht
      exact ha.not_mem hw hc hm hmem
    · exact hcomma heq

theorem forall₂_of_forall_mem {α β : Type} {R S : α → β → Prop} {l : List α} {m : List β}
    (h : List.Forall₂ R l m) (hRS : ∀ b ∈ m, ∀ a, R a b → S a b) : List.Forall₂ S l m := by
  induction h with
  | nil => exact .nil
  | @cons x y l m hx _ ih =>
    exact .cons (hRS y List.mem_cons_self x hx)
      (ih fun b hb => hRS b (List.mem_cons_of_mem _ hb))

theorem entry_parse_eq_ok_iff {f : Field} {s : List Char} {e : Entry} :
    Entry.parse f s = .ok e ↔ Entry.Written PositiveWord f s e := by
  unfold Entry.parse
  constructor
  · intro h
    by_cases hs : s.contains ',' = true
    · rw [if_pos hs] at h
      obtain ⟨items, hg, rfl⟩ := map_eq_ok_iff.1 h
      obtain ⟨hpieces, hne, hfree⟩ := splitWhen_eq_iff.1 (Eq.refl (splitWhen (· = ',') s))
      have hitems := atom_parse_map_eq_iff.1 (gather_eq_ok_iff.1 hg)
      -- a single piece would be the text itself, which has a comma
      have hlen : 2 ≤ (splitWhen (· = ',') s).length := by
        rcases hsplit : splitWhen (· = ',') s with _ | ⟨a, _ | ⟨b, rest⟩⟩
        · exact absurd hsplit hne
        · rw [hsplit] at hpieces hfree
          have ha : s = a := by simpa [List.intercalate] using hpieces
          exact absurd (by simpa [ha] using hs) (hfree a List.mem_cons_self)
        · simp
      rw [hpieces]
      exact .list hlen hitems
    · rw [if_neg hs] at h
      obtain ⟨a, ha, rfl⟩ := map_eq_ok_iff.1 (mapError_eq_ok_iff.1 h)
      exact .one (atom_parse_eq_ok_iff.1 (mapError_eq_ok_iff.1 ha))
  · intro h
    cases h with
    | one ha =>
      have hs : ¬s.contains ',' = true := by
        simpa using ha.not_mem (fun _ _ => PositiveWord.comma_not_mem) rfl (by decide)
      rw [if_neg hs]
      dsimp only
      rw [atom_parse_eq_ok_iff.2 ha]
      rfl
    | @list texts items hlen hitems =>
      have hs : ([','].intercalate texts).contains ',' = true := by
        simpa using mem_intercalate_iff.2 (Or.inr ⟨rfl, hlen⟩)
      have hfree : ∀ text ∈ texts, ',' ∉ text := by
        intro text ht
        obtain ⟨a, ha⟩ := exists_of_forall₂ hitems ht
        exact ha.not_mem (fun _ _ => PositiveWord.comma_not_mem) rfl (by decide)
      have hne : texts ≠ [] := by
        rintro rfl
        exact absurd hlen (by decide)
      rw [if_pos hs, splitWhen_eq_iff.2 ⟨rfl, hne, hfree⟩,
        gather_eq_ok_iff.2 (atom_parse_map_eq_iff.2 hitems)]
      rfl

/-- Reading accepts just the texts of schedules in which steps are understood. -/
theorem cron_parse_eq_ok_iff {s : List Char} {c : Cron} :
    Cron.parse s = .ok c ↔ Cron.Written PositiveWord s c := by
  unfold Cron.parse Cron.Written
  constructor
  · intro h
    split at h
    · rename_i minute hour dayOfMonth month dayOfWeek hwords
      refine ⟨_, words_eq_iff.1 hwords, ?_⟩
      dsimp only at h
      split at h
      · rename_i h1 h2 h3 h4 h5
        obtain rfl := Except.ok.inj h
        exact .cons (entry_parse_eq_ok_iff.1 h1) (.cons (entry_parse_eq_ok_iff.1 h2)
          (.cons (entry_parse_eq_ok_iff.1 h3) (.cons (entry_parse_eq_ok_iff.1 h4)
            (.cons (entry_parse_eq_ok_iff.1 h5) .nil))))
      · exact absurd h (by simp)
    · exact absurd h (by simp)
  · rintro ⟨texts, hs, hentries⟩
    rw [words_eq_iff.2 hs]
    unfold Field.all at hentries
    cases hentries with
    | cons h1 hentries =>
    cases hentries with
    | cons h2 hentries =>
    cases hentries with
    | cons h3 hentries =>
    cases hentries with
    | cons h4 hentries =>
    cases hentries with
    | cons h5 hentries =>
    cases hentries
    dsimp only
    rw [entry_parse_eq_ok_iff.2 h1, entry_parse_eq_ok_iff.2 h2, entry_parse_eq_ok_iff.2 h3,
      entry_parse_eq_ok_iff.2 h4, entry_parse_eq_ok_iff.2 h5]
    rfl

theorem PositiveDigits.plus_not_mem {w : List Char} {n : Nat} (h : PositiveDigits w n) :
    '+' ∉ w :=
  h.1.not_mem rfl

/-- Without a plus sign a width is digits alone. -/
theorem PositiveWord.positiveDigits {w : List Char} {n : Nat} (h : PositiveWord w n)
    (hp : '+' ∉ w) : PositiveDigits w n := by
  obtain ⟨⟨body, rfl | rfl, hd⟩, -⟩ := h
  · exact hd
  · exact absurd List.mem_cons_self hp

/-- What a schedule means if its steps are written with digits alone. -/
def Cron.Grammatical (s : List Char) : Prop :=
  ∃ c, Cron.Written PositiveDigits s c

theorem Entry.Written.plus_not_mem {f : Field} {s : List Char} {e : Entry}
    (h : Entry.Written PositiveDigits f s e) : '+' ∉ s :=
  h.not_mem (fun _ _ => PositiveDigits.plus_not_mem) rfl (by decide)

theorem Cron.Grammatical.plus_not_mem {s : List Char} (h : Cron.Grammatical s) : '+' ∉ s := by
  obtain ⟨c, texts, hs, hentries⟩ := h
  intro hp
  obtain ⟨text, ht, hp⟩ := hs.exists_mem hp rfl
  obtain ⟨f, hf⟩ := exists_of_forall₂ hentries.flip ht
  exact hf.plus_not_mem hp

theorem Atom.Written.positiveDigits {f : Field} {s : List Char} {a : Atom}
    (h : Atom.Written PositiveWord f s a) (hp : '+' ∉ s) : Atom.Written PositiveDigits f s a := by
  cases h with
  | wildcard => exact .wildcard
  | value hn => exact .value hn
  | range hr => exact .range hr
  | step hb hw =>
    rw [List.mem_append, List.mem_cons, not_or, not_or] at hp
    exact .step hb (hw.positiveDigits hp.2.2)

theorem Entry.Written.positiveDigits {f : Field} {s : List Char} {e : Entry}
    (h : Entry.Written PositiveWord f s e) (hp : '+' ∉ s) :
    Entry.Written PositiveDigits f s e := by
  cases h with
  | one ha => exact .one (ha.positiveDigits hp)
  | list hlen hitems =>
    refine .list hlen (forall₂_of_forall_mem hitems.flip fun text ht a ha => ?_).flip
    exact ha.positiveDigits fun hm => hp (mem_intercalate_iff.2 (Or.inl ⟨text, ht, hm⟩))

theorem Cron.Written.grammatical {s : List Char} {c : Cron} (h : Cron.Written PositiveWord s c)
    (hp : '+' ∉ s) : Cron.Grammatical s := by
  obtain ⟨texts, hs, hentries⟩ := h
  refine ⟨c, texts, hs, forall₂_of_forall_mem hentries fun text ht f hf => ?_⟩
  exact hf.positiveDigits fun hm => hp (hs.mem ht hm)

/-- The text of a schedule follows the grammar exactly if there is no plus sign in it. -/
theorem grammatical_iff_no_plus {s : List Char} {c : Cron} (h : Cron.parse s = .ok c) :
    Cron.Grammatical s ↔ '+' ∉ s :=
  ⟨Cron.Grammatical.plus_not_mem, (cron_parse_eq_ok_iff.1 h).grammatical⟩

theorem grammatical_office_hours :
    Cron.Grammatical "0,30 9-17/2 */10 1 1-5".toList := by
  have h : Cron.parse "0,30 9-17/2 */10 1 1-5".toList = .ok
      { minute := .list [.value 0, .value 30], hour := .one (.step (some (9, 17)) 2),
        dayOfMonth := .one (.step none 10), month := .exactly 1,
        dayOfWeek := .one (.range 1 5) } := by
    rfl
  exact (grammatical_iff_no_plus h).2 (by decide)

/-- A step with a plus sign is understood. -/
theorem not_grammatical_plus_step :
    Cron.parse "*/+5 * * * *".toList = .ok
        { minute := .one (.step none 5), hour := .any, dayOfMonth := .any, month := .any,
          dayOfWeek := .any } ∧
      ¬Cron.Grammatical "*/+5 * * * *".toList :=
  ⟨rfl, fun h => h.plus_not_mem (by decide)⟩

end Schedule

end Workflow
