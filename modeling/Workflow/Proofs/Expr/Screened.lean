import Mathlib
import Workflow.Expr.Screen

/-! The deny list is no way around: neither the case of letters nor what stands around a text takes
away any of the issues that the text has on its own. -/
namespace Workflow.Screen

open Text

theorem toLower_eq_or_isAlpha (c : Char) : c.toLower = c ∨ c.isAlpha = true := by
  by_cases h : c.isUpper = true
  · exact Or.inr (by rw [Char.isAlpha, h, Bool.true_or])
  · exact Or.inl (Char.toLower_eq_of_not_isUpper h)

theorem isWordChar_toLower (c : Char) : isWordChar c.toLower = isWordChar c := by
  rcases toLower_eq_or_isAlpha c with h | h
  · rw [h]
  · unfold isWordChar Char.isAlphanum
    rw [Char.isAlpha_toLower_eq_isAlpha, h]
    rfl

theorem any_isWordChar_toLower (c : Char) :
    (some c).any isWordChar = (some c.toLower).any isWordChar :=
  (isWordChar_toLower c).symm

theorem not_isAsciiBlank_of_isAlpha {c : Char} (h : c.isAlpha = true) : isAsciiBlank c = false := by
  simp only [Char.isAlpha, Char.isUpper, Char.isLower, Bool.or_eq_true, Bool.and_eq_true,
    decide_eq_true_eq, UInt32.le_iff_toNat_le, Char.reduceVal, UInt32.reduceToNat, ge_iff_le,
    Char.toNat_val] at h
  simp only [isAsciiBlank, Bool.or_eq_false_iff, Bool.and_eq_false_iff, decide_eq_false_iff_not]
  omega

theorem isAsciiBlank_toLower (c : Char) : isAsciiBlank c.toLower = isAsciiBlank c := by
  rcases toLower_eq_or_isAlpha c with h | h
  · rw [h]
  · rw [not_isAsciiBlank_of_isAlpha h,
      not_isAsciiBlank_of_isAlpha ((Char.isAlpha_toLower_eq_isAlpha c).trans h)]

/-- Characters none of which is a letter. -/
def caseless (s : String) : Bool :=
  s.toList.all fun c => !c.isAlpha

theorem contains_toLower {s : String} (h : caseless s = true) (c : Char) :
    s.toList.contains c.toLower = s.toList.contains c := by
  have hletter : ∀ {d : Char}, d.isAlpha = true → s.toList.contains d = false := by
    intro d hd
    rw [← Bool.not_eq_true, List.contains_iff_mem]
    intro hmem
    have hd' := List.all_eq_true.1 h d hmem
    rw [hd] at hd'
    contradiction
  rcases toLower_eq_or_isAlpha c with hc | hc
  · rw [hc]
  · rw [hletter hc, hletter ((Char.isAlpha_toLower_eq_isAlpha c).trans hc)]

theorem dropWord?_map_toLower (word s : List Char) :
    dropWord? word (s.map Char.toLower) = (dropWord? word s).map (List.map Char.toLower) := by
  induction word generalizing s with
  | nil => rfl
  | cons w word ih =>
    cases s with
    | nil => rfl
    | cons c s =>
      rw [List.map_cons, dropWord?, dropWord?, Char.toLower_toLower_eq_toLower]
      split
      · exact ih s
      · rfl

namespace Part

/-- The characters that a part names one by one are no letters. -/
def caseless : Part → Bool
  | .oneOf s | .maybe s => Screen.caseless s
  | _ => true

end Part

theorem takeWhile_map_toLower (s : List Char) :
    (s.map Char.toLower).takeWhile isAsciiBlank = (s.takeWhile isAsciiBlank).map Char.toLower := by
  rw [List.takeWhile_map, Function.comp_def]
  simp only [isAsciiBlank_toLower]

theorem dropWhile_map_toLower (s : List Char) :
    (s.map Char.toLower).dropWhile isAsciiBlank = (s.dropWhile isAsciiBlank).map Char.toLower := by
  rw [List.dropWhile_map, Function.comp_def]
  simp only [isAsciiBlank_toLower]

/-- Of what stands in front of parts only that counts whether it is part of a word. -/
theorem startsWith_map_toLower {parts : List Part} (hp : parts.all Part.caseless = true)
    {before before' : Option Char} (hb : before.any isWordChar = before'.any isWordChar)
    (s : List Char) :
    startsWith before' parts (s.map Char.toLower) = startsWith before parts s := by
  induction parts generalizing before before' s with
  | nil => rfl
  | cons part parts ih =>
    obtain ⟨hpart, hparts⟩ := Bool.and_eq_true_iff.1 (List.all_cons.symm.trans hp)
    replace ih := @ih hparts
    cases part with
    | word w =>
      rw [startsWith, startsWith, dropWord?_map_toLower]
      cases dropWord? w.toList s with
      | none => rfl
      | some rest => exact ih rfl rest
    | blanks =>
      rw [startsWith, startsWith, takeWhile_map_toLower, dropWhile_map_toLower]
      apply ih
      rw [List.getLast?_map]
      cases (s.takeWhile isAsciiBlank).getLast? with
      | none => exact hb
      | some c => exact any_isWordChar_toLower c
    | boundary =>
      have hhead : (s.map Char.toLower).head?.any isWordChar = s.head?.any isWordChar := by
        cases s with
        | nil => rfl
        | cons c s => exact isWordChar_toLower c
      rw [startsWith, startsWith, hhead, ← hb, ih hb]
    | oneOf cs =>
      cases s with
      | nil => rfl
      | cons c s =>
        rw [List.map_cons, startsWith, startsWith, contains_toLower hpart,
          ih (any_isWordChar_toLower c)]
    | maybe cs =>
      cases s with
      | nil => exact ih hb []
      | cons c s =>
        rw [List.map_cons, startsWith, startsWith, contains_toLower hpart,
          ih (any_isWordChar_toLower c), ← List.map_cons, ih hb]

/-- Whether some part has to take a character. -/
def demanding : List Part → Bool
  | [] => false
  | .word w :: parts => !w.toList.isEmpty || demanding parts
  | .oneOf _ :: _ => true
  | .blanks :: parts | .boundary :: parts | .maybe _ :: parts => demanding parts

/-- Whether all parts that may take nothing have a part behind them that takes a character. -/
def firm : List Part → Bool
  | [] => true
  | .blanks :: parts | .maybe _ :: parts => demanding parts && firm parts
  | .word _ :: parts | .boundary :: parts | .oneOf _ :: parts => firm parts

theorem startsWith_nil {parts : List Part} (h : demanding parts = true) (before : Option Char) :
    startsWith before parts [] = false := by
  induction parts generalizing before with
  | nil => contradiction
  | cons part parts ih =>
    cases part with
    | word w =>
      rw [startsWith]
      cases hw : w.toList with
      | nil =>
        rw [demanding, hw] at h
        exact ih h _
      | cons c rest => rfl
    | blanks => exact ih h _
    | boundary =>
      rw [startsWith, ih h, Bool.and_false]
    | oneOf cs => rfl
    | maybe cs => exact ih h _

theorem dropWord?_append {word s rest : List Char} (h : dropWord? word s = some rest)
    (t : List Char) : dropWord? word (s ++ t) = some (rest ++ t) := by
  induction word generalizing s with
  | nil =>
    obtain rfl := Option.some.inj h
    rfl
  | cons w word ih =>
    cases s with
    | nil => contradiction
    | cons c s =>
      rw [dropWord?] at h
      split at h
      · rename_i hc
        rw [List.cons_append, dropWord?, if_pos hc]
        exact ih h
      · contradiction

theorem takeWhile_append_of_dropWhile {p : Char → Bool} {s rest : List Char} {c : Char}
    (h : s.dropWhile p = c :: rest) (t : List Char) : (s ++ t).takeWhile p = s.takeWhile p := by
  have hlength := congrArg List.length (List.takeWhile_append_dropWhile (p := p) (l := s))
  rw [List.length_append, h, List.length_cons] at hlength
  rw [List.takeWhile_append, if_neg (by omega)]

/-- The end of a text is a boundary where a blank is one, so that parts which follow one another up
to there do so in front of a blank. -/
theorem startsWith_append {parts : List Part} (hp : firm parts = true) {before : Option Char}
    {s : List Char} (h : startsWith before parts s = true) (t : List Char) :
    startsWith before parts (s ++ ' ' :: t) = true := by
  induction parts generalizing before s with
  | nil => rfl
  | cons part parts ih =>
    cases part with
    | word w =>
      rw [startsWith] at h ⊢
      cases hw : dropWord? w.toList s with
      | none =>
        rw [hw] at h
        contradiction
      | some rest =>
        rw [hw] at h
        rw [dropWord?_append hw]
        exact ih hp h
    | blanks =>
      obtain ⟨hdemanding, hparts⟩ := Bool.and_eq_true_iff.1 hp
      rw [startsWith] at h ⊢
      cases hs : s.dropWhile isAsciiBlank with
      | nil =>
        rw [hs, startsWith_nil hdemanding] at h
        contradiction
      | cons c rest =>
        have hdrop : (s ++ ' ' :: t).dropWhile isAsciiBlank =
            s.dropWhile isAsciiBlank ++ ' ' :: t := by
          rw [List.dropWhile_append, hs]
          rfl
        rw [takeWhile_append_of_dropWhile hs, hdrop]
        exact ih hparts h
    | boundary =>
      rw [startsWith] at h ⊢
      obtain ⟨hboundary, hrest⟩ := Bool.and_eq_true_iff.1 h
      have hhead : (s ++ ' ' :: t).head?.any isWordChar = s.head?.any isWordChar := by
        cases s with
        | nil => rfl
        | cons c s => rfl
      rw [hhead, hboundary, ih hp hrest]
      rfl
    | oneOf cs =>
      cases s with
      | nil => contradiction
      | cons c s =>
        rw [startsWith] at h
        rw [List.cons_append, startsWith]
        obtain ⟨hc, hrest⟩ := Bool.and_eq_true_iff.1 h
        rw [hc, ih hp hrest]
        rfl
    | maybe cs =>
      obtain ⟨hdemanding, hparts⟩ := Bool.and_eq_true_iff.1 hp
      cases s with
      | nil =>
        rw [startsWith, startsWith_nil hdemanding] at h
        contradiction
      | cons c s =>
        rw [startsWith] at h
        rw [List.cons_append, startsWith]
        split at h
        · rename_i hc
          rw [if_pos hc]
          exact ih hparts h
        · rename_i hc
          rw [if_neg hc]
          exact ih hparts h

section

variable {parts : List Part} (hcase : parts.all Part.caseless = true)

include hcase in
theorem occurs_map_toLower {before before' : Option Char}
    (hb : before.any isWordChar = before'.any isWordChar) (s : List Char) :
    occurs parts before' (s.map Char.toLower) = occurs parts before s := by
  induction s generalizing before before' with
  | nil => exact startsWith_map_toLower hcase hb []
  | cons c s ih =>
    rw [List.map_cons, occurs, occurs, ← List.map_cons, startsWith_map_toLower hcase hb,
      ih (any_isWordChar_toLower c)]

include hcase in
theorem occurs_of_before {before before' : Option Char}
    (hb : before.any isWordChar = before'.any isWordChar) (s : List Char) :
    occurs parts before' s = occurs parts before s :=
  (occurs_map_toLower hcase rfl s).symm.trans (occurs_map_toLower hcase hb s)

theorem occurs_append (hfirm : firm parts = true) {before : Option Char} {s : List Char}
    (h : occurs parts before s = true) (t : List Char) :
    occurs parts before (s ++ ' ' :: t) = true := by
  induction s generalizing before with
  | nil =>
    have hstart := startsWith_append hfirm h t
    rw [List.nil_append] at hstart ⊢
    rw [occurs, hstart, Bool.true_or]
  | cons c s ih =>
    rw [occurs] at h
    rw [List.cons_append, occurs]
    rcases Bool.or_eq_true_iff.1 h with hstart | hrest
    · have hstart := startsWith_append hfirm hstart t
      rw [List.cons_append] at hstart
      rw [hstart, Bool.true_or]
    · rw [ih hrest, Bool.or_true]

theorem occurs_behind {before : Option Char} {s : List Char}
    (h : occurs parts (some ' ') s = true) (t : List Char) :
    occurs parts before (t ++ ' ' :: s) = true := by
  induction t generalizing before with
  | nil => rw [List.nil_append, occurs, h, Bool.or_true]
  | cons c t ih => rw [List.cons_append, occurs, ih, Bool.or_true]

include hcase in
/-- What occurs in a text occurs wherever the text stands between blanks. -/
theorem occurs_between (hfirm : firm parts = true) {s : List Char}
    (h : occurs parts none s = true) (t u : List Char) :
    occurs parts none (t ++ ' ' :: (s ++ ' ' :: u)) = true := by
  have hblank : (none : Option Char).any isWordChar = (some ' ').any isWordChar := by decide
  apply occurs_behind
  apply occurs_append hfirm
  rwa [occurs_of_before hcase hblank]

end

/-- Texts that differ at most in the case of letters, which are those of ASCII. -/
def SameButCase (source source' : String) : Prop :=
  source.toList.map Char.toLower = source'.toList.map Char.toLower

instance : DecidableRel SameButCase := fun source source' =>
  inferInstanceAs (Decidable (source.toList.map Char.toLower = source'.toList.map Char.toLower))

/-- Whether one of the turns of phrase of an entry of the deny list occurs in a text. -/
def denies (entry : List (List Part) × String) (s : List Char) : Bool :=
  entry.1.any fun parts => occurs parts none s

theorem denied_parts : ∀ entry ∈ denied, ∀ parts ∈ entry.1,
    parts.all Part.caseless = true ∧ firm parts = true := by
  decide

theorem issues_of_length_le {limit : Nat} {source : String} (h : source.length ≤ limit) :
    issues limit source =
      (denied.filter (denies · source.toList)).map fun entry => forbidden entry.2 := by
  unfold issues
  exact if_neg (Nat.not_lt.2 h)

theorem issues_of_lt_length {limit : Nat} {source : String} (h : limit < source.length) :
    issues limit source = [tooLong source.length limit] := by
  unfold issues
  exact if_pos h

theorem length_eq_of_sameButCase {source source' : String} (h : SameButCase source source') :
    source.length = source'.length := by
  have hlength := congrArg List.length h
  rwa [List.length_map, List.length_map] at hlength

theorem denies_of_sameButCase {source source' : String} (h : SameButCase source source')
    {entry : List (List Part) × String} (hentry : entry ∈ denied) :
    denies entry source'.toList = denies entry source.toList := by
  have hoccurs : ∀ parts ∈ entry.1,
      occurs parts none source'.toList = occurs parts none source.toList := by
    intro parts hparts
    have hcase := (denied_parts entry hentry parts hparts).1
    rw [← occurs_map_toLower hcase rfl source.toList, show source.toList.map _ = _ from h,
      occurs_map_toLower hcase rfl]
  rw [denies, denies, Bool.eq_iff_iff, List.any_eq_true, List.any_eq_true]
  refine exists_congr fun parts => and_congr_right fun hparts => ?_
  rw [hoccurs parts hparts]

theorem denies_between {entry : List (List Part) × String} (hentry : entry ∈ denied)
    {s : List Char} (h : denies entry s = true) (t u : List Char) :
    denies entry (t ++ ' ' :: (s ++ ' ' :: u)) = true := by
  obtain ⟨parts, hparts, hoccurs⟩ := List.any_eq_true.1 h
  obtain ⟨hcase, hfirm⟩ := denied_parts entry hentry parts hparts
  exact List.any_eq_true.2 ⟨parts, hparts, occurs_between hcase hfirm hoccurs t u⟩

theorem filter_sublist_filter {α : Type} {l : List α} {p q : α → Bool}
    (h : ∀ a ∈ l, p a = true → q a = true) : (l.filter p).Sublist (l.filter q) := by
  have hboth : l.filter p = (l.filter q).filter p := by
    rw [List.filter_filter]
    refine List.filter_congr fun a ha => ?_
    cases hp : p a with
    | false => rfl
    | true => rw [h a ha hp]; rfl
  rw [hboth]
  exact List.filter_sublist

theorem issues_of_sameButCase (limit : Nat) {source source' : String}
    (h : SameButCase source source') : issues limit source' = issues limit source := by
  have hlength := length_eq_of_sameButCase h
  rcases Nat.lt_or_ge limit source.length with hlong | hshort
  · rw [issues_of_lt_length hlong, issues_of_lt_length (hlength ▸ hlong), hlength]
  · rw [issues_of_length_le hshort, issues_of_length_le (hlength ▸ hshort)]
    congr 1
    exact List.filter_congr fun entry hentry => denies_of_sameButCase h hentry

theorem issues_between {limit : Nat} {source before after : String}
    (h : (before ++ " " ++ source ++ " " ++ after).length ≤ limit) :
    (issues limit source).Sublist (issues limit (before ++ " " ++ source ++ " " ++ after)) := by
  have htext : (before ++ " " ++ source ++ " " ++ after).toList =
      before.toList ++ ' ' :: (source.toList ++ ' ' :: after.toList) := by
    simp only [String.toList_append, List.append_assoc]
    rfl
  have hshort : source.length ≤ limit := by
    have hlength : (before ++ " " ++ source ++ " " ++ after).length =
        before.length + (source.length + after.length + 2) := by
      have := congrArg List.length htext
      simp only [String.length_toList, List.length_append, List.length_cons] at this
      omega
    omega
  rw [issues_of_length_le hshort, issues_of_length_le h, htext]
  refine (filter_sublist_filter fun entry hentry hdenies => ?_).map _
  exact denies_between hentry hdenies _ _

theorem nodup_forbidden : (denied.map fun entry => forbidden entry.2).Nodup := by
  decide

theorem forbidden_mem_issues_iff {limit : Nat} {source : String} (h : source.length ≤ limit)
    {entry : List (List Part) × String} (hentry : entry ∈ denied) :
    forbidden entry.2 ∈ issues limit source ↔ denies entry source.toList = true := by
  rw [issues_of_length_le h, List.mem_map]
  constructor
  · rintro ⟨entry', hmem, hsame⟩
    obtain ⟨hentry', hdenies⟩ := List.mem_filter.1 hmem
    rwa [← List.inj_on_of_nodup_map nodup_forbidden hentry' hentry hsame]
  · intro hdenies
    exact ⟨entry, List.mem_filter.2 ⟨hentry, hdenies⟩, rfl⟩

/-- The case of letters makes no difference to the issues of a text, and between blanks the text
keeps them. Each entry of the deny list that occurs gives one issue, in the order of the list, and a
text that is too long has no issue but that. -/
theorem deny_list_not_dodged (limit : Nat) (source : String) :
    (∀ source', SameButCase source source' → issues limit source' = issues limit source) ∧
      (∀ before after, (before ++ " " ++ source ++ " " ++ after).length ≤ limit →
        (issues limit source).Sublist
          (issues limit (before ++ " " ++ source ++ " " ++ after))) ∧
      (source.length ≤ limit →
        (issues limit source).Sublist (denied.map fun entry => forbidden entry.2) ∧
          ∀ entry ∈ denied,
            (forbidden entry.2 ∈ issues limit source ↔ denies entry source.toList = true)) ∧
      (denied.map fun entry => forbidden entry.2).Nodup ∧
      (limit < source.length → issues limit source = [tooLong source.length limit]) := by
  refine ⟨fun _ => issues_of_sameButCase limit, fun _ _ => issues_between, fun h => ⟨?_, ?_⟩,
    nodup_forbidden, issues_of_lt_length⟩
  · rw [issues_of_length_le h]
    exact List.filter_sublist.map _
  · exact fun entry => forbidden_mem_issues_iff h

theorem deny_list_not_dodged_by_eval :
    issues 100 "eval (1)" = [forbidden "eval() is not allowed"] ∧
      SameButCase "eval (1)" "EvAl (1)" ∧ issues 100 "EvAl (1)" = issues 100 "eval (1)" ∧
      ("x" ++ " " ++ "eval (1)" ++ " " ++ "y").length ≤ 100 ∧
      (issues 100 "eval (1)").Sublist (issues 100 ("x" ++ " " ++ "eval (1)" ++ " " ++ "y")) ∧
      "eval (1)".length ≤ 100 ∧
      (issues 100 "eval (1)").Sublist (denied.map fun entry => forbidden entry.2) ∧
      3 < "eval (1)".length ∧ issues 3 "eval (1)" = [tooLong "eval (1)".length 3] := by
  have hrefused : issues 100 "eval (1)" = [forbidden "eval() is not allowed"] := by
    decide +kernel
  have hcase : SameButCase "eval (1)" "EvAl (1)" := by decide
  have hbetween : ("x" ++ " " ++ "eval (1)" ++ " " ++ "y").length ≤ 100 := by decide
  have hshort : "eval (1)".length ≤ 100 := by decide
  have hlong : 3 < "eval (1)".length := by decide
  obtain ⟨hsame, hkept, hlisted, -⟩ := deny_list_not_dodged 100 "eval (1)"
  exact ⟨hrefused, hcase, hsame _ hcase, hbetween, hkept _ _ hbetween, hshort, (hlisted hshort).1, hlong,
    (deny_list_not_dodged 3 "eval (1)").2.2.2.2 hlong⟩

end Workflow.Screen
