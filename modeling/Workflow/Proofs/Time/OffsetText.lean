import Mathlib.Data.List.Basic
import Workflow.Proofs.Text.Pieces
import Workflow.Proofs.Text.Radix
import Workflow.Time.Zone

/-! The texts of fixed offsets from universal time as a grammar. Reading accepts just these unless the
hours or the minutes have a sign of their own. -/
namespace Workflow.Time

open Text

section

variable (number : List Char → Int → Prop)

/-- Hours and minutes: up to two characters for hours alone, two for either, or both with a colon
between them. -/
inductive HoursMinutes : List Char → Int → Int → Prop
  | alone {s : List Char} {hours : Int} :
    number s hours → s.length ≤ 2 → HoursMinutes s hours 0
  | joined {a b : List Char} {hours minutes : Int} :
    number a hours → number b minutes → a.length = 2 → b.length = 2 →
      HoursMinutes (a ++ b) hours minutes
  | apart {a b : List Char} {hours minutes : Int} :
    number a hours → number b minutes → HoursMinutes (a ++ ':' :: b) hours minutes

/-- Hours and minutes ahead of universal time or behind it. -/
inductive SignedTime : List Char → Int → Int → Int → Prop
  | ahead {s : List Char} {hours minutes : Int} :
    HoursMinutes number s hours minutes → SignedTime ('+' :: s) 1 hours minutes
  | behind {s : List Char} {hours minutes : Int} :
    HoursMinutes number s hours minutes → SignedTime ('-' :: s) (-1) hours minutes

end

/-- A number in digits alone. -/
def IsCount (s : List Char) (n : Int) : Prop :=
  ∃ k : Nat, Digits s k ∧ n = k

/-- A number that is understood, which can have a sign of its own. -/
def IsWord (s : List Char) (n : Int) : Prop :=
  SignedDigits 10 (Zone.wordCount / 2) s n

/-- The text of an offset in seconds. -/
def OffsetText (t : List Char) (offset : Int) : Prop :=
  ∃ sign hours minutes, SignedTime IsCount t sign hours minutes ∧ hours ≤ 23 ∧ minutes ≤ 59 ∧
    offset = sign * (hours * 3600 + minutes * 60)

/-- A sign behind the one that the text begins with. -/
def HasInnerSign (t : List Char) : Prop :=
  '+' ∈ t.tail ∨ '-' ∈ t.tail

theorem IsWord.colon_not_mem {s : List Char} {n : Int} (h : IsWord s n) : ':' ∉ s := by
  cases h with
  | bare hn => exact (digits?_eq_some_iff.1 hn).not_mem rfl
  | plus hn =>
    rw [List.mem_cons, not_or]
    exact ⟨by decide, (digits?_eq_some_iff.1 hn).not_mem rfl⟩
  | minus hn =>
    rw [List.mem_cons, not_or]
    exact ⟨by decide, (digits?_eq_some_iff.1 hn).not_mem rfl⟩

theorem IsCount.not_mem {s : List Char} {n : Int} (h : IsCount s n) {c : Char}
    (hc : Number.isDigit c = false) : c ∉ s := by
  obtain ⟨k, hk, -⟩ := h
  exact hk.not_mem hc

theorem IsCount.nonneg {s : List Char} {n : Int} (h : IsCount s n) : 0 ≤ n := by
  obtain ⟨k, -, rfl⟩ := h
  exact Int.natCast_nonneg k

/-- Without a sign of its own a number is digits alone. -/
theorem IsWord.isCount {s : List Char} {n : Int} (h : IsWord s n) (hp : '+' ∉ s) (hm : '-' ∉ s) :
    IsCount s n := by
  cases h with
  | bare hn => exact ⟨_, digits?_eq_some_iff.1 hn, rfl⟩
  | plus => exact absurd List.mem_cons_self hp
  | minus => exact absurd List.mem_cons_self hm

/-- A small number in digits alone is understood. -/
theorem IsCount.isWord {s : List Char} {n : Int} (h : IsCount s n) (hn : n ≤ 59) : IsWord s n := by
  obtain ⟨k, hk, rfl⟩ := h
  refine .bare (digits?_eq_some_iff.2 hk) ?_
  unfold Zone.wordCount
  omega

section

variable {p q : List Char → Int → Prop} {s : List Char} {sign hours minutes : Int}

/-- The numbers of a text can be understood otherwise one by one. -/
theorem HoursMinutes.imp (h : HoursMinutes p s hours minutes)
    (himp : ∀ a n, a ⊆ s → n = hours ∨ n = minutes → p a n → q a n) :
    HoursMinutes q s hours minutes := by
  cases h with
  | alone hh hlength => exact .alone (himp _ _ (List.Subset.refl _) (Or.inl rfl) hh) hlength
  | joined hh hm hlength hlength' =>
    exact .joined (himp _ _ (List.subset_append_left _ _) (Or.inl rfl) hh)
      (himp _ _ (List.subset_append_right _ _) (Or.inr rfl) hm) hlength hlength'
  | @apart a b _ _ hh hm =>
    have hsub : b ⊆ a ++ ':' :: b :=
      List.subset_append_of_subset_right a (List.subset_cons_self ':' b)
    exact .apart (himp _ _ (List.subset_append_left _ _) (Or.inl rfl) hh)
      (himp _ _ hsub (Or.inr rfl) hm)

theorem SignedTime.imp (h : SignedTime p s sign hours minutes)
    (himp : ∀ a n, a ⊆ s.tail → n = hours ∨ n = minutes → p a n → q a n) :
    SignedTime q s sign hours minutes := by
  cases h with
  | ahead h => exact .ahead (h.imp himp)
  | behind h => exact .behind (h.imp himp)

theorem HoursMinutes.not_mem (h : HoursMinutes IsCount s hours minutes) {c : Char}
    (hc : Number.isDigit c = false) (hcolon : c ≠ ':') : c ∉ s := by
  cases h with
  | alone hh => exact hh.not_mem hc
  | joined hh hm =>
    rw [List.mem_append, not_or]
    exact ⟨hh.not_mem hc, hm.not_mem hc⟩
  | apart hh hm =>
    rw [List.mem_append, List.mem_cons, not_or, not_or]
    exact ⟨hh.not_mem hc, hcolon, hm.not_mem hc⟩

theorem HoursMinutes.nonneg (h : HoursMinutes IsCount s hours minutes) :
    0 ≤ hours ∧ 0 ≤ minutes := by
  cases h with
  | alone hh => exact ⟨hh.nonneg, Int.le_refl 0⟩
  | joined hh hm => exact ⟨hh.nonneg, hm.nonneg⟩
  | apart hh hm => exact ⟨hh.nonneg, hm.nonneg⟩

end

theorem hoursMinutes?_eq_some_iff {s : List Char} {time : Int × Int} :
    Zone.hoursMinutes? s = some time ↔ HoursMinutes IsWord s time.1 time.2 := by
  have hword {s : List Char} {n : Int} : Zone.word? s = some n ↔ IsWord s n := signed?_eq_some_iff
  unfold Zone.hoursMinutes?
  constructor
  · intro h
    split at h
    · rename_i a b hcut
      obtain ⟨hours, hh, h⟩ := Option.bind_eq_some_iff.1 h
      obtain ⟨minutes, hm, h⟩ := Option.bind_eq_some_iff.1 h
      obtain rfl := Option.some.inj h
      rw [(cutChar?_eq_some_iff.1 hcut).1]
      exact .apart (hword.1 hh) (hword.1 hm)
    · split at h
      · rename_i hlength
        obtain ⟨hours, hh, h⟩ := Option.bind_eq_some_iff.1 h
        obtain ⟨minutes, hm, h⟩ := Option.bind_eq_some_iff.1 h
        obtain rfl := Option.some.inj h
        have hjoined := HoursMinutes.joined (hword.1 hh) (hword.1 hm)
          (by rw [List.length_take, hlength]; rfl) (by rw [List.length_drop, hlength])
        rwa [List.take_append_drop] at hjoined
      · split at h
        · rename_i hlength
          obtain ⟨hours, hh, h⟩ := Option.bind_eq_some_iff.1 h
          obtain rfl := Option.some.inj h
          exact .alone (hword.1 hh) hlength
        · cases h
  · obtain ⟨hours, minutes⟩ := time
    intro h
    dsimp only at h
    cases h with
    | alone hh hlength =>
      rw [cutChar?_eq_none hh.colon_not_mem]
      dsimp only
      rw [if_neg (by omega), if_pos hlength, hword.2 hh]
      rfl
    | @joined a b _ _ hh hm ha hb =>
      have hcolon : ':' ∉ a ++ b := by
        rw [List.mem_append, not_or]
        exact ⟨hh.colon_not_mem, hm.colon_not_mem⟩
      have htake : (a ++ b).take 2 = a := List.take_left' ha
      have hdrop : (a ++ b).drop 2 = b := List.drop_left' ha
      rw [cutChar?_eq_none hcolon]
      dsimp only
      rw [if_pos (by rw [List.length_append, ha, hb]), htake, hdrop, hword.2 hh, hword.2 hm]
      rfl
    | apart hh hm =>
      rw [cutChar?_eq_some_iff.2 ⟨rfl, hh.colon_not_mem⟩]
      dsimp only
      rw [hword.2 hh, hword.2 hm]
      rfl

/-- The offset that hours and minutes come to in a word of seconds. -/
def wordOffset (sign hours minutes : Int) : Int :=
  (sign * (hours * 3600 + minutes * 60)).bmod Zone.wordCount

theorem fixed?_eq_some_iff {t : List Char} {z : Zone} :
    Zone.fixed? t = some z ↔ ∃ sign hours minutes, SignedTime IsWord t sign hours minutes ∧
      hours ≤ 23 ∧ minutes ≤ 59 ∧ (wordOffset sign hours minutes).natAbs < 86400 ∧
        z = .fixed (wordOffset sign hours minutes) := by
  have hread (sign : Int) (body : List Char) :
      ((Zone.hoursMinutes? body).bind fun time =>
        if time.1 ≤ 23 ∧ time.2 ≤ 59 ∧ (wordOffset sign time.1 time.2).natAbs < 86400 then
          some (Zone.fixed (wordOffset sign time.1 time.2))
        else none) = some z ↔ ∃ hours minutes, HoursMinutes IsWord body hours minutes ∧
      hours ≤ 23 ∧ minutes ≤ 59 ∧ (wordOffset sign hours minutes).natAbs < 86400 ∧
        z = .fixed (wordOffset sign hours minutes) := by
    constructor
    · intro h
      obtain ⟨⟨hours, minutes⟩, htime, h⟩ := Option.bind_eq_some_iff.1 h
      dsimp only at h
      split at h
      · rename_i hbounds
        obtain rfl := Option.some.inj h
        exact ⟨hours, minutes, hoursMinutes?_eq_some_iff.1 htime, hbounds.1, hbounds.2.1,
          hbounds.2.2, rfl⟩
      · cases h
    · rintro ⟨hours, minutes, htime, hh, hm, hnear, rfl⟩
      have hbody : Zone.hoursMinutes? body = some (hours, minutes) :=
        hoursMinutes?_eq_some_iff.2 htime
      rw [hbody]
      exact if_pos ⟨hh, hm, hnear⟩
  unfold Zone.fixed?
  constructor
  · intro h
    split at h
    · rename_i body
      obtain ⟨hours, minutes, htime, hrest⟩ := (hread 1 body).1 h
      exact ⟨1, hours, minutes, .ahead htime, hrest⟩
    · rename_i body
      obtain ⟨hours, minutes, htime, hrest⟩ := (hread (-1) body).1 h
      exact ⟨-1, hours, minutes, .behind htime, hrest⟩
    · cases h
  · rintro ⟨sign, hours, minutes, htime, hrest⟩
    cases htime with
    | ahead htime => exact (hread 1 _).2 ⟨hours, minutes, htime, hrest⟩
    | behind htime => exact (hread (-1) _).2 ⟨hours, minutes, htime, hrest⟩

/-- In hours and minutes of a day nothing is lost to the size of a word. -/
theorem SignedTime.wordOffset_eq {t : List Char} {sign hours minutes : Int}
    (h : SignedTime IsCount t sign hours minutes) (hh : hours ≤ 23) (hm : minutes ≤ 59) :
    wordOffset sign hours minutes = sign * (hours * 3600 + minutes * 60) ∧
      (sign * (hours * 3600 + minutes * 60)).natAbs < 86400 := by
  have hbounds : (sign = 1 ∨ sign = -1) ∧ 0 ≤ hours ∧ 0 ≤ minutes := by
    cases h with
    | ahead h => exact ⟨Or.inl rfl, h.nonneg⟩
    | behind h => exact ⟨Or.inr rfl, h.nonneg⟩
  obtain ⟨hsign, hh0, hm0⟩ := hbounds
  have hnear : (sign * (hours * 3600 + minutes * 60)).natAbs < 86400 := by
    rcases hsign with rfl | rfl
    · omega
    · omega
  refine ⟨Int.bmod_eq_of_le ?_ ?_, hnear⟩
  · unfold Zone.wordCount
    omega
  · unfold Zone.wordCount
    omega

theorem OffsetText.fixed? {t : List Char} {offset : Int} (h : OffsetText t offset) :
    Zone.fixed? t = some (.fixed offset) := by
  obtain ⟨sign, hours, minutes, htime, hh, hm, rfl⟩ := h
  obtain ⟨hword, hnear⟩ := htime.wordOffset_eq hh hm
  have hwords : SignedTime IsWord t sign hours minutes :=
    htime.imp fun a n _ hn hcount => hcount.isWord (by omega)
  exact fixed?_eq_some_iff.2 ⟨sign, hours, minutes, hwords, hh, hm, by rwa [hword], by rw [hword]⟩

theorem OffsetText.not_hasInnerSign {t : List Char} {offset : Int} (h : OffsetText t offset) :
    ¬HasInnerSign t := by
  obtain ⟨sign, hours, minutes, htime, -⟩ := h
  cases htime with
  | ahead h => exact not_or.2 ⟨h.not_mem rfl (by decide), h.not_mem rfl (by decide)⟩
  | behind h => exact not_or.2 ⟨h.not_mem rfl (by decide), h.not_mem rfl (by decide)⟩

/-- Without an inner sign an offset that is understood is written as the grammar says. -/
theorem offsetText_of_fixed? {t : List Char} {z : Zone} (h : Zone.fixed? t = some z)
    (hsign : ¬HasInnerSign t) : ∃ offset, z = .fixed offset ∧ OffsetText t offset := by
  obtain ⟨sign, hours, minutes, hwords, hh, hm, -, rfl⟩ := fixed?_eq_some_iff.1 h
  obtain ⟨hp, hn⟩ := not_or.1 hsign
  have htime : SignedTime IsCount t sign hours minutes :=
    hwords.imp fun a n hsub _ hword =>
      hword.isCount (fun hmem => hp (hsub hmem)) (fun hmem => hn (hsub hmem))
  exact ⟨_, rfl, sign, hours, minutes, htime, hh, hm, (htime.wordOffset_eq hh hm).1⟩

/-- Offsets of whole minutes have names of the form `+02:00`. -/
theorem offsetText_fixedText {offset : Int} (hnear : offset.natAbs < 86400)
    (hwhole : offset.natAbs % 60 = 0) : OffsetText (Zone.fixedText offset).toList offset := by
  have hname : (Zone.fixedText offset).toList = (if offset < 0 then '-' else '+') ::
      ((padded 2 (offset.natAbs / 3600)).toList ++
        ':' :: (padded 2 (offset.natAbs / 60 % 60)).toList) := by
    unfold Zone.fixedText
    dsimp only
    rw [if_pos hwhole, String.append_empty, String.toList_append, String.toList_append,
      String.toList_append, List.append_assoc, List.append_assoc]
    split
    · rfl
    · rfl
  have htime : HoursMinutes IsCount
      ((padded 2 (offset.natAbs / 3600)).toList ++ ':' :: (padded 2 (offset.natAbs / 60 % 60)).toList)
      (offset.natAbs / 3600 : Nat) (offset.natAbs / 60 % 60 : Nat) :=
    .apart ⟨_, digits_padded 2 _, rfl⟩ ⟨_, digits_padded 2 _, rfl⟩
  rw [hname]
  by_cases hneg : offset < 0
  · rw [if_pos hneg]
    exact ⟨-1, _, _, .behind htime, by omega, by omega, by omega⟩
  · rw [if_neg hneg]
    exact ⟨1, _, _, .ahead htime, by omega, by omega, by omega⟩

theorem OffsetText.whole {t : List Char} {offset : Int} (h : OffsetText t offset) :
    offset.natAbs < 86400 ∧ offset.natAbs % 60 = 0 := by
  obtain ⟨sign, hours, minutes, htime, hh, hm, rfl⟩ := h
  refine ⟨(htime.wordOffset_eq hh hm).2, ?_⟩
  cases htime with
  | ahead => omega
  | behind => omega

theorem OffsetText.cons {t : List Char} {offset : Int} (h : OffsetText t offset) :
    ∃ c body, t = c :: body ∧ (c = '+' ∨ c = '-') := by
  obtain ⟨sign, hours, minutes, htime, -⟩ := h
  cases htime with
  | ahead => exact ⟨_, _, rfl, Or.inl rfl⟩
  | behind => exact ⟨_, _, rfl, Or.inr rfl⟩

theorem OffsetText.not_isBlank {t : List Char} {offset : Int} (h : OffsetText t offset) {c : Char}
    (hc : c ∈ t) : isBlank c = false := by
  by_contra hblank
  have hne {d : Char} (hd : isBlank d = false) : c ≠ d := by
    rintro rfl
    exact hblank hd
  have hdigit : Number.isDigit c = false :=
    Bool.eq_false_iff.2 fun hd => hblank (not_isBlank_of_isDigit hd)
  obtain ⟨sign, hours, minutes, htime, -⟩ := h
  cases htime with
  | ahead htime =>
    exact htime.not_mem hdigit (hne rfl) (List.mem_of_ne_of_mem (hne rfl) hc)
  | behind htime =>
    exact htime.not_mem hdigit (hne rfl) (List.mem_of_ne_of_mem (hne rfl) hc)

/-- A name of universal time. -/
def NamesUtc (t : List Char) : Prop :=
  t.map Char.toLower = "utc".toList ∨ t = ['Z']

theorem parse?_eq_fixed? {zones : ZoneDatabase} {s : String} (hutc : ¬NamesUtc (trim s.toList))
    (hplace : zones.table? (String.ofList (trim s.toList)) = none) :
    Zone.parse? s zones = Zone.fixed? (trim s.toList) := by
  have hz : String.ofList (trim s.toList) ≠ "Z" := by
    intro hz
    refine hutc (Or.inr ?_)
    rw [← String.toList_ofList (l := trim s.toList), hz]
    rfl
  unfold Zone.parse?
  dsimp only
  rw [if_neg (not_or.2 ⟨fun hl => hutc (Or.inl hl), hz⟩), hplace]

/-- The text of an offset is no name of a zone, and has no white space around it. -/
theorem parse?_of_offsetText {zones : ZoneDatabase} {s : String} {offset : Int}
    (h : OffsetText s.toList offset) : Zone.parse? s zones = some (.fixed offset) := by
  obtain ⟨c, body, hs, hc⟩ := h.cons
  have htrim : trim s.toList = s.toList :=
    trim_eq_self (fun c hc => h.not_isBlank (List.mem_of_mem_head? hc))
      (fun c hc => h.not_isBlank (List.mem_of_mem_getLast? hc))
  have hutc : ¬NamesUtc (trim s.toList) := by
    rw [htrim, hs]
    rcases hc with rfl | rfl
    · rintro (hl | hl)
      · exact absurd (List.cons.inj hl).1 (by decide)
      · exact absurd (List.cons.inj hl).1 (by decide)
    · rintro (hl | hl)
      · exact absurd (List.cons.inj hl).1 (by decide)
      · exact absurd (List.cons.inj hl).1 (by decide)
  have hplace : zones.table? (String.ofList (trim s.toList)) = none := by
    rw [htrim, String.ofList_toList, Option.eq_none_iff_forall_ne_some]
    intro table htable
    obtain ⟨hplus, hminus⟩ := zones.unsigned htable
    rw [hs] at hplus hminus
    rcases hc with rfl | rfl
    · exact hplus rfl
    · exact hminus rfl
  rw [parse?_eq_fixed? hutc hplace, htrim]
  exact h.fixed?

/-- The text is read as the grammar of offsets says, and the name of its zone is read back. -/
structure Zone.ReadExactly (zones : ZoneDatabase) (s : String) : Prop where
  fixed_iff (offset : Int) :
    Zone.parse? s zones = some (.fixed offset) ↔ OffsetText (trim s.toList) offset
  none_iff : Zone.parse? s zones = none ↔ ¬∃ offset, OffsetText (trim s.toList) offset
  name (offset : Int) : Zone.parse? s zones = some (.fixed offset) →
    Zone.parse? (Zone.fixed offset).name zones = some (.fixed offset)

section

variable {zones : ZoneDatabase} {s : String} (hutc : ¬NamesUtc (trim s.toList))
  (hplace : zones.table? (String.ofList (trim s.toList)) = none)
include hutc hplace

theorem readExactly_of_not_hasInnerSign
    (hsign : ∀ z, Zone.parse? s zones = some z → ¬HasInnerSign (trim s.toList)) :
    Zone.ReadExactly zones s := by
  have hfixed : ∀ z, Zone.parse? s zones = some z →
      ∃ offset, z = .fixed offset ∧ OffsetText (trim s.toList) offset := by
    intro z hz
    have hread := hz
    rw [parse?_eq_fixed? hutc hplace] at hread
    exact offsetText_of_fixed? hread (hsign z hz)
  have hread {offset : Int} (h : OffsetText (trim s.toList) offset) :
      Zone.parse? s zones = some (.fixed offset) := by
    rw [parse?_eq_fixed? hutc hplace]
    exact h.fixed?
  have htext {offset : Int} (h : Zone.parse? s zones = some (.fixed offset)) :
      OffsetText (trim s.toList) offset := by
    obtain ⟨_, heq, htext⟩ := hfixed _ h
    cases heq
    exact htext
  refine ⟨fun offset => ⟨htext, hread⟩, ⟨?_, ?_⟩, ?_⟩
  · rintro hnone ⟨offset, h⟩
    rw [hread h] at hnone
    cases hnone
  · intro hno
    rw [Option.eq_none_iff_forall_ne_some]
    intro z hz
    obtain ⟨offset, -, h⟩ := hfixed z hz
    exact hno ⟨offset, h⟩
  · intro offset h
    obtain ⟨hnear, hwhole⟩ := (htext h).whole
    exact parse?_of_offsetText (offsetText_fixedText hnear hwhole)

/-- Whatever zones have names: of the texts that name neither universal time nor one of these zones,
those are read exactly that are not understood with an inner sign. -/
theorem read_exactly_iff_no_inner_sign :
    Zone.ReadExactly zones s ↔
      ∀ z, Zone.parse? s zones = some z → ¬HasInnerSign (trim s.toList) := by
  constructor
  · intro hexact z hz
    obtain ⟨offset, h⟩ : ∃ offset, OffsetText (trim s.toList) offset := by
      by_contra hno
      rw [hexact.none_iff.2 hno] at hz
      cases hz
    exact h.not_hasInnerSign
  · exact readExactly_of_not_hasInnerSign hutc hplace

end

theorem read_exactly_half_past_five :
    ¬NamesUtc (trim " -0530 ".toList) ∧
      ZoneDatabase.known.table? (String.ofList (trim " -0530 ".toList)) = none ∧
      Zone.parse? " -0530 " = some (.fixed (-19800)) ∧ Zone.ReadExactly .known " -0530 " := by
  have htrim : trim " -0530 ".toList = "-0530".toList := by decide
  have hutc : ¬NamesUtc (trim " -0530 ".toList) := by
    rw [htrim]
    exact not_or.2 ⟨by decide, by decide⟩
  have hplace : ZoneDatabase.known.table? (String.ofList (trim " -0530 ".toList)) = none := by
    decide +kernel
  have hread : Zone.parse? " -0530 " = some (.fixed (-19800)) := by
    have hfive : IsCount ['0', '5'] 5 := ⟨5, digits?_eq_some_iff.1 rfl, rfl⟩
    have hthirty : IsCount ['3', '0'] 30 := ⟨30, digits?_eq_some_iff.1 rfl, rfl⟩
    have htext : OffsetText "-0530".toList (-19800) :=
      ⟨-1, 5, 30, .behind (.joined hfive hthirty rfl rfl), by decide, by decide, by decide⟩
    rw [parse?_eq_fixed? hutc hplace, htrim]
    exact htext.fixed?
  refine ⟨hutc, hplace, hread, (read_exactly_iff_no_inner_sign hutc hplace).2 ?_⟩
  intro z _
  rw [htrim]
  exact not_or.2 ⟨by decide, by decide⟩

/-- Five hours behind universal time can be written with two signs. -/
theorem not_read_exactly_two_signs :
    Zone.parse? "+-5" = some (.fixed (-18000)) ∧ ¬Zone.ReadExactly .known "+-5" := by
  have htrim : trim "+-5".toList = "+-5".toList := by decide
  have hread : Zone.parse? "+-5" = some (.fixed (-18000)) := by
    have hutc : ¬NamesUtc (trim "+-5".toList) := by
      rw [htrim]
      exact not_or.2 ⟨by decide, by decide⟩
    rw [parse?_eq_fixed? hutc (by decide +kernel)]
    rfl
  refine ⟨hread, fun hexact => ((hexact.fixed_iff _).1 hread).not_hasInnerSign ?_⟩
  rw [htrim]
  exact Or.inr (by decide)

end Workflow.Time
