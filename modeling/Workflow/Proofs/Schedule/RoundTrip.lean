import Workflow.Proofs.Schedule.Grammar
import Workflow.Schedule.Cron

/-! Reading undoes writing: a text made of the entries of a schedule, with any white space between
them, is read as that schedule. The schedules that are read are the well-formed ones. -/
namespace Workflow

namespace Text

/-- Words, each with what stands behind it, after what stands in front. -/
def interspersed (lead : List Char) : List (List Char × List Char) → List Char
  | [] => lead
  | (word, gap) :: rest => lead ++ (word ++ interspersed gap rest)

/-- A run of white space behind each word keeps them apart. -/
theorem spaced_interspersed {lead : List Char} {ws : List (List Char × List Char)}
    (hl : ∀ c ∈ lead, isBlank c = true)
    (hw : ∀ p ∈ ws, p.1 ≠ [] ∧ ∀ c ∈ p.1, isBlank c = false)
    (hg : ∀ p ∈ ws, ∀ c ∈ p.2, isBlank c = true) (hne : ∀ p ∈ ws.dropLast, p.2 ≠ []) :
    Spaced (interspersed lead ws) (ws.map (·.1)) := by
  induction ws generalizing lead with
  | nil =>
    have h := Spaced.nil.after_blanks hl
    rwa [List.append_nil] at h
  | cons p rest ih =>
    obtain ⟨word, gap⟩ := p
    obtain ⟨hword, hwords⟩ := List.forall_mem_cons.1 hw
    obtain ⟨hgap, hgaps⟩ := List.forall_mem_cons.1 hg
    have hrest : ∀ p ∈ rest.dropLast, p.2 ≠ [] := by
      intro p hp
      cases rest with
      | nil => exact absurd hp List.not_mem_nil
      | cons q rest => exact hne p (List.mem_cons_of_mem _ hp)
    have hhead : ∀ c ∈ (interspersed gap rest).head?, isBlank c = true := by
      intro c hc
      cases gap with
      | cons d gap =>
        have hd : isBlank d = true := hgap d List.mem_cons_self
        cases rest with
        | nil => exact Option.some.inj hc ▸ hd
        | cons q rest => exact Option.some.inj hc ▸ hd
      | nil =>
        -- only the last word may have nothing behind it
        cases rest with
        | nil => exact absurd hc (Option.not_mem_none c)
        | cons q rest => exact absurd rfl (hne (word, []) List.mem_cons_self)
    exact (Spaced.word hword.1 hword.2 hhead (ih hgap hwords hgaps hrest)).after_blanks hl

end Text

namespace Schedule

open Text

/-- The width of a step is one of the numbers that are understood; all other numbers are so by the
bounds of their fields. -/
def Atom.Fits : Atom → Prop
  | .step _ width => width < numberBound
  | _ => True

def Cron.Fits (c : Cron) : Prop :=
  ∀ f : Field, ∀ a ∈ (c.entry f).atoms, a.Fits

namespace Cron

/-- The text of a schedule with `lead` in front of its fields and `gap f` behind each field. -/
def laidOut (c : Cron) (lead : List Char) (gap : Field → List Char) : List Char :=
  interspersed lead (Field.all.map fun f => ((c.entry f).text, gap f))

end Cron

theorem admits_high (f : Field) : f.Admits f.high := by
  cases f <;> decide

theorem Field.mem_all (f : Field) : f ∈ Field.all := by
  cases f <;> decide

theorem isNumber_decimal {f : Field} {n : Nat} (h : f.Admits n) : IsNumber f (decimal n) n :=
  ⟨digits_ofNat n, h⟩

theorem isRange_rangeText {f : Field} {start stop : Nat} (hstart : f.Admits start)
    (hstop : f.Admits stop) (hle : start ≤ stop) : IsRange f (rangeText start stop) start stop :=
  ⟨_, _, rfl, isNumber_decimal hstart, isNumber_decimal hstop, hle⟩

theorem positiveWord_decimal {n : Nat} (hpos : 0 < n) (hlt : n < numberBound) :
    PositiveWord (decimal n) n :=
  ⟨⟨_, Or.inl rfl, digits_ofNat n, hpos⟩, hlt⟩

theorem written_atom_text {f : Field} {a : Atom} (h : a.WellFormed f) (hfits : a.Fits) :
    Atom.Written PositiveWord f a.text a := by
  cases a with
  | wildcard => exact .wildcard
  | value n => exact .value (isNumber_decimal h)
  | range start stop =>
    obtain ⟨hstart, hstop, hle⟩ := h
    exact .range (isRange_rangeText hstart hstop hle)
  | step ends width =>
    cases ends with
    | none => exact .step .all (positiveWord_decimal h hfits)
    | some ends =>
      obtain ⟨start, stop⟩ := ends
      obtain ⟨hstart, hstop, hle, hpos⟩ := h
      exact .step (.within (isRange_rangeText hstart hstop hle)) (positiveWord_decimal hpos hfits)

theorem written_entry_text {f : Field} {e : Entry} (h : e.WellFormed f)
    (hfits : ∀ a ∈ e.atoms, a.Fits) : Entry.Written PositiveWord f e.text e := by
  obtain ⟨hatoms, hlength⟩ := h
  have hwritten : ∀ a ∈ e.atoms, Atom.Written PositiveWord f a.text a := fun a ha =>
    written_atom_text (hatoms a ha) (hfits a ha)
  cases e with
  | one a =>
    have htext : Entry.text (.one a) = a.text := List.append_nil _
    rw [htext]
    exact .one (hwritten a List.mem_cons_self)
  | list items =>
    refine .list ?_ ?_
    · rw [List.length_map]
      exact hlength items rfl
    · rw [List.forall₂_map_left_iff]
      exact List.forall₂_same.2 hwritten

theorem Atom.Written.ne_nil {width : List Char → Nat → Prop} {f : Field} {s : List Char} {a : Atom}
    (h : Atom.Written width f s a) : s ≠ [] := by
  cases h with
  | wildcard => exact List.cons_ne_nil _ _
  | value hn => exact hn.1.1
  | range hr => exact List.ne_nil_of_mem hr.minus_mem
  | step => exact List.append_ne_nil_of_right_ne_nil _ (List.cons_ne_nil _ _)

theorem Entry.Written.ne_nil {width : List Char → Nat → Prop} {f : Field} {s : List Char}
    {e : Entry} (h : Entry.Written width f s e) : s ≠ [] := by
  cases h with
  | one ha => exact ha.ne_nil
  | list hlength => exact List.ne_nil_of_mem (mem_intercalate_iff.2 (Or.inr ⟨rfl, hlength⟩))

/-- No white space is part of an entry. -/
theorem Entry.Written.not_isBlank {f : Field} {s : List Char} {e : Entry}
    (h : Entry.Written PositiveWord f s e) : ∀ c ∈ s, isBlank c = false := by
  intro c hmem
  rw [← Bool.not_eq_true]
  intro hblank
  have hdigit : Number.isDigit c = false := by
    rw [← Bool.not_eq_true]
    intro hd
    exact absurd hblank (by rw [not_isBlank_of_isDigit hd]; decide)
  have hsign : ['+', ',', '*', '-', '/'].any isBlank = false := by decide
  have hnot : c ∉ ['+', ',', '*', '-', '/'] := fun hc =>
    List.any_eq_false.1 hsign c hc hblank
  rw [List.mem_cons, not_or] at hnot
  refine h.not_mem (fun w n hw => ?_) hdigit hnot.2 hmem
  obtain ⟨⟨body, hbody, hd, -⟩, -⟩ := hw
  rcases hbody with rfl | rfl
  · exact hd.not_mem hdigit
  · rw [List.mem_cons, not_or]
    exact ⟨hnot.1, hd.not_mem hdigit⟩

theorem parse_laidOut {c : Cron} (hc : c.WellFormed) (hfits : c.Fits) {lead : List Char}
    {gap : Field → List Char} (hlead : ∀ ch ∈ lead, isBlank ch = true)
    (hgap : ∀ f, ∀ ch ∈ gap f, isBlank ch = true) (hne : ∀ f, f ≠ .dayOfWeek → gap f ≠ []) :
    Cron.parse (c.laidOut lead gap) = .ok c := by
  have hwritten : ∀ f, Entry.Written PositiveWord f (c.entry f).text (c.entry f) := fun f =>
    written_entry_text (hc f) (hfits f)
  rw [cron_parse_eq_ok_iff]
  refine ⟨Field.all.map fun f => (c.entry f).text, ?_, ?_⟩
  · have hspaced : Spaced (c.laidOut lead gap)
        ((Field.all.map fun f => ((c.entry f).text, gap f)).map (·.1)) := by
      apply spaced_interspersed hlead
      · rw [List.forall_mem_map]
        exact fun f _ => ⟨(hwritten f).ne_nil, (hwritten f).not_isBlank⟩
      · rw [List.forall_mem_map]
        exact fun f _ => hgap f
      · rw [← List.map_dropLast, List.forall_mem_map]
        have hlast : ∀ f ∈ Field.all.dropLast, f ≠ .dayOfWeek := by decide
        exact fun f hf => hne f (hlast f hf)
    rwa [List.map_map] at hspaced
  · rw [List.forall₂_map_right_iff]
    exact List.forall₂_same.2 fun f _ => hwritten f

/-- The text with one blank between the fields. -/
theorem parse_text {c : Cron} (hc : c.WellFormed) (hfits : c.Fits) : Cron.parse c.text = .ok c := by
  let gap (f : Field) : List Char := if f = .dayOfWeek then [] else [' ']
  have htext : c.text = c.laidOut [] gap := by
    simp [Cron.text, Cron.laidOut, Field.all, interspersed, gap, List.intercalate]
  rw [htext]
  apply parse_laidOut hc hfits (List.forall_mem_nil _)
  · intro f ch hch
    have hmem : ch ∈ [' '] := by
      by_cases hf : f = .dayOfWeek
      · rw [show gap f = [] from if_pos hf] at hch
        exact absurd hch List.not_mem_nil
      · rwa [show gap f = [' '] from if_neg hf] at hch
    rw [List.mem_singleton.1 hmem]
    rfl
  · intro f hf
    rw [show gap f = [' '] from if_neg hf]
    exact List.cons_ne_nil _ _

theorem IsBase.wellFormed {f : Field} {s : List Char} {ends : Option (Nat × Nat)}
    (h : IsBase f s ends) {width : Nat} (hpos : 0 < width) : (Atom.step ends width).WellFormed f := by
  cases h with
  | all => exact hpos
  | onward hn => exact ⟨hn.2, admits_high f, hn.2.2, hpos⟩
  | within hr =>
    obtain ⟨a, b, -, hstart, hstop, hle⟩ := hr
    exact ⟨hstart.2, hstop.2, hle, hpos⟩

theorem Entry.wellFormed_one {f : Field} {a : Atom} (h : a.WellFormed f) :
    (Entry.one a).WellFormed f := by
  refine ⟨?_, ?_⟩
  · intro b hb
    rw [List.mem_singleton.1 hb]
    exact h
  · intro items heq
    exact absurd heq (by simp)

theorem Atom.Written.wellFormed {f : Field} {s : List Char} {a : Atom}
    (h : Atom.Written PositiveWord f s a) : a.WellFormed f ∧ a.Fits := by
  cases h with
  | wildcard => exact ⟨trivial, trivial⟩
  | value hn => exact ⟨hn.2, trivial⟩
  | range hr =>
    obtain ⟨a, b, -, hstart, hstop, hle⟩ := hr
    exact ⟨⟨hstart.2, hstop.2, hle⟩, trivial⟩
  | step hb hw =>
    obtain ⟨⟨body, -, -, hpos⟩, hlt⟩ := hw
    exact ⟨hb.wellFormed hpos, hlt⟩

theorem Entry.Written.wellFormed {f : Field} {s : List Char} {e : Entry}
    (h : Entry.Written PositiveWord f s e) :
    e.WellFormed f ∧ ∀ a ∈ e.atoms, a.Fits := by
  cases h with
  | one ha =>
    obtain ⟨hatom, hfits⟩ := ha.wellFormed
    refine ⟨Entry.wellFormed_one hatom, ?_⟩
    intro b hb
    rw [List.mem_singleton.1 hb]
    exact hfits
  | @list texts items hlength hitems =>
    -- each item has its text
    have hatoms : ∀ a ∈ items, a.WellFormed f ∧ a.Fits := by
      intro a ha
      obtain ⟨text, htext⟩ := exists_of_forall₂ hitems.flip ha
      exact Atom.Written.wellFormed htext
    refine ⟨⟨fun a ha => (hatoms a ha).1, ?_⟩, fun a ha => (hatoms a ha).2⟩
    intro more heq
    obtain rfl := Entry.list.inj heq
    rwa [← hitems.length_eq]

theorem wellFormed_of_parse {s : List Char} {c : Cron} (h : Cron.parse s = .ok c) :
    c.WellFormed ∧ c.Fits := by
  obtain ⟨texts, -, hentries⟩ := cron_parse_eq_ok_iff.1 h
  have hall : ∀ f, (c.entry f).WellFormed f ∧ ∀ a ∈ (c.entry f).atoms, a.Fits := by
    intro f
    obtain ⟨text, htext⟩ := exists_of_forall₂ hentries f.mem_all
    exact htext.wellFormed
  exact ⟨fun f => (hall f).1, fun f => (hall f).2⟩

theorem exists_parse_eq_ok_iff {c : Cron} :
    (∃ s, Cron.parse s = .ok c) ↔ c.WellFormed ∧ c.Fits := by
  constructor
  · rintro ⟨s, h⟩
    exact wellFormed_of_parse h
  · rintro ⟨hc, hfits⟩
    exact ⟨c.text, parse_text hc hfits⟩

theorem number_decimal {f : Field} {n : Nat} (h : f.Admits n) : f.number (decimal n) = .ok n :=
  number_eq_ok_iff.2 (isNumber_decimal h)

theorem stepEnds_onward {f : Field} {base : List Char} (hstar : base ≠ ['*']) (hminus : '-' ∉ base) :
    f.stepEnds base = f.stepEnds (base ++ '-' :: decimal f.high) := by
  have hrange : base ++ '-' :: decimal f.high ≠ ['*'] := by
    intro he
    have hmem : '-' ∈ ['*'] := he ▸ List.mem_append_right base List.mem_cons_self
    exact absurd hmem (by decide)
  have hno : ¬base.contains '-' = true := by simpa using hminus
  have hyes : (base ++ '-' :: decimal f.high).contains '-' = true := by simp
  have hcut : cutChar? '-' (base ++ '-' :: decimal f.high) = some (base, decimal f.high) :=
    cutChar?_eq_some_iff.2 ⟨rfl, hminus⟩
  unfold Field.stepEnds
  rw [if_neg hstar, if_neg hno, if_neg hrange, if_pos hyes, Field.ends, hcut]
  dsimp only
  rw [number_decimal (admits_high f)]
  cases hn : f.number base with
  | error e => rfl
  | ok n =>
    -- the range from a value of the field on is not empty
    have hle : n ≤ f.high := (number_eq_ok_iff.1 hn).2.2
    show Except.ok (some (n, f.high)) =
      (if n ≤ f.high then Except.ok (n, f.high) else _) >>= fun r => Except.ok (some r)
    rw [if_pos hle]
    rfl

theorem atom_parse_onward {f : Field} {base : List Char} (hstar : base ≠ ['*'])
    (hminus : '-' ∉ base) (hslash : '/' ∉ base) (width : List Char) :
    Atom.parse f (base ++ '/' :: width) =
      Atom.parse f (base ++ '-' :: decimal f.high ++ '/' :: width) := by
  have hne (base : List Char) : base ++ '/' :: width ≠ ['*'] := by
    intro he
    have hmem : '/' ∈ ['*'] := he ▸ List.mem_append_right base List.mem_cons_self
    exact absurd hmem (by decide)
  have hcut : cutChar? '/' (base ++ '/' :: width) = some (base, width) :=
    cutChar?_eq_some_iff.2 ⟨rfl, hslash⟩
  have hfree : '/' ∉ base ++ '-' :: decimal f.high := by
    have hdigits : '/' ∉ decimal f.high := (digits_ofNat f.high).not_mem rfl
    simp [hslash, hdigits]
  have hcut' : cutChar? '/' (base ++ '-' :: decimal f.high ++ '/' :: width) =
      some (base ++ '-' :: decimal f.high, width) :=
    cutChar?_eq_some_iff.2 ⟨rfl, hfree⟩
  unfold Atom.parse
  rw [if_neg (hne _), if_neg (hne _), hcut, hcut']
  dsimp only
  rw [stepEnds_onward hstar hminus]

theorem entry_parse_of_no_comma {f : Field} {s : List Char} (h : ',' ∉ s) :
    Entry.parse f s = (((Atom.parse f s).mapError (Fault.atom f)).map Entry.one).mapError ([·]) := by
  have hcontains : ¬s.contains ',' = true := by simpa using h
  unfold Entry.parse
  rw [if_neg hcontains]

theorem entry_parse_onward {f : Field} {base width : List Char} (hstar : base ≠ ['*'])
    (hbase : ∀ c ∈ ['-', '/', ','], c ∉ base) (hwidth : ',' ∉ width) :
    Entry.parse f (base ++ '/' :: width) =
      Entry.parse f (base ++ '-' :: decimal f.high ++ '/' :: width) := by
  have hminus := hbase '-' (by decide)
  have hslash := hbase '/' (by decide)
  have hcomma := hbase ',' (by decide)
  have hdigits : ',' ∉ decimal f.high := (digits_ofNat f.high).not_mem rfl
  have hfirst : ',' ∉ base ++ '/' :: width := by simp [hcomma, hwidth]
  have hsecond : ',' ∉ base ++ '-' :: decimal f.high ++ '/' :: width := by
    simp [hcomma, hwidth, hdigits]
  rw [entry_parse_of_no_comma hfirst, entry_parse_of_no_comma hsecond,
    atom_parse_onward hstar hminus hslash]

theorem entry_parse_onward_eq_ok {f : Field} {n width : Nat} (hn : f.Admits n) (hpos : 0 < width)
    (hlt : width < numberBound) :
    Entry.parse f (decimal n ++ '/' :: decimal width) = .ok (.one (.step (some (n, f.high)) width)) :=
  entry_parse_eq_ok_iff.2
    (.one (.step (.onward (isNumber_decimal hn)) (positiveWord_decimal hpos hlt)))

/-- The text of a schedule is read as that schedule, whatever white space stands around and between
its fields. A number in front of a step is read as the range from it to the end of the field: both
texts have the same result, be it an entry or what is wrong with them. -/
theorem text_read_back :
    (∀ (c : Cron) (lead : List Char) (gap : Field → List Char), c.WellFormed → c.Fits →
      (∀ ch ∈ lead, isBlank ch = true) → (∀ f, ∀ ch ∈ gap f, isBlank ch = true) →
      (∀ f, f ≠ .dayOfWeek → gap f ≠ []) → Cron.parse (c.laidOut lead gap) = .ok c) ∧
    (∀ (f : Field) (base width : List Char), base ≠ ['*'] → (∀ c ∈ ['-', '/', ','], c ∉ base) →
      ',' ∉ width → Entry.parse f (base ++ '/' :: width) =
        Entry.parse f (base ++ '-' :: decimal f.high ++ '/' :: width)) ∧
    ∀ (f : Field) (n width : Nat), f.Admits n → 0 < width → width < numberBound →
      Entry.parse f (decimal n ++ '/' :: decimal width) =
        .ok (.one (.step (some (n, f.high)) width)) := by
  refine ⟨?_, ?_, ?_⟩
  · intro c lead gap hc hfits hlead hgap hne
    exact parse_laidOut hc hfits hlead hgap hne
  · intro f base width hstar hbase hwidth
    exact entry_parse_onward hstar hbase hwidth
  · intro f n width hn hpos hlt
    exact entry_parse_onward_eq_ok hn hpos hlt

/-- Lists, ranges and steps, with a tab in front and wide blanks between the fields. -/
theorem text_read_back_office_hours :
    Cron.parse (Cron.laidOut
        { minute := .list [.value 0, .value 30], hour := .one (.step (some (9, 17)) 2),
          dayOfMonth := .one (.step none 10), month := .exactly 1, dayOfWeek := .one (.range 1 5) }
        ['\t'] fun _ => [' ', '\u2003']) =
      .ok { minute := .list [.value 0, .value 30], hour := .one (.step (some (9, 17)) 2),
            dayOfMonth := .one (.step none 10), month := .exactly 1,
            dayOfWeek := .one (.range 1 5) } ∧
    Entry.parse .month "3/2".toList = Entry.parse .month "3-12/2".toList ∧
    Entry.parse .month (decimal 3 ++ '/' :: decimal 2) = .ok (.one (.step (some (3, 12)) 2)) := by
  refine ⟨?_, ?_, ?_⟩
  · apply text_read_back.1
    · intro f
      cases f <;> simp [Entry.WellFormed, Cron.entry, Entry.atoms, Entry.exactly, Atom.WellFormed,
        Field.Admits, Field.low, Field.high]
    · intro f
      cases f <;> simp [Cron.entry, Entry.atoms, Entry.exactly, Atom.Fits, numberBound]
    · simp [isBlank]
    · simp [isBlank]
    · exact fun _ _ => List.cons_ne_nil _ _
  · have hhigh : decimal Field.month.high = ['1', '2'] := by decide +kernel
    have h := text_read_back.2.1 .month ['3'] ['2'] (by decide) (by simp) (by decide)
    rwa [hhigh] at h
  · exact text_read_back.2.2 .month 3 2 (by decide) (by decide) (by decide)

end Schedule

end Workflow
