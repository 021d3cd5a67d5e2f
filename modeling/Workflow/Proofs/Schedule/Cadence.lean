import Workflow.Proofs.Schedule.CanFire
import Workflow.Proofs.Schedule.RoundTrip
import Workflow.Proofs.Time.DateTimeText

/-! Schedules that repeat a moment. Their texts are read back, and the schedules fire at what the
clock shows at that moment. -/
namespace Workflow.Schedule

open Text Time

/-- Whether a text is a schedule that can fire and that does so at what a clock shows. -/
def Fires (text : List Char) (t : Timestamp) : Prop :=
  ∃ c, Cron.parse text = .ok c ∧ c.canFire = true ∧ c.firesAt t = true

/-- A free entry, or one bound to a value of the field. -/
def Entry.Repeats (e : Entry) (n : Nat) : Prop :=
  e = .any ∨ e = .exactly n

theorem Entry.Repeats.wellFormed {e : Entry} {f : Field} {n : Nat} (h : e.Repeats n)
    (hn : f.Admits n) : e.WellFormed f := by
  rcases h with rfl | rfl
  · exact Entry.wellFormed_one trivial
  · exact Entry.wellFormed_one hn

theorem Entry.Repeats.fits {e : Entry} {n : Nat} (h : e.Repeats n) : ∀ a ∈ e.atoms, a.Fits := by
  intro a ha
  rcases h with rfl | rfl
  · rw [List.mem_singleton.1 ha]
    trivial
  · rw [List.mem_singleton.1 ha]
    trivial

theorem Entry.Repeats.admits {e : Entry} {n : Nat} (h : e.Repeats n) : e.admits n = true := by
  rcases h with rfl | rfl
  · rfl
  · simp [Entry.admits, Entry.exactly, Entry.atoms, Atom.admits]

/-- A cadence decides only which fields are bound. -/
theorem cadence_repeats (c : Cadence) (t : Timestamp) (f : Field) :
    ((c.cron t).entry f).Repeats (f.valueAt t) := by
  cases c <;> cases f <;> first | exact .inl rfl | exact .inr rfl

theorem cadence_firesAt (c : Cadence) (t : Timestamp) : (c.cron t).firesAt t = true := by
  rw [Cron.firesAt_iff]
  intro f
  exact (cadence_repeats c t f).admits

theorem fires_cadence (c : Cadence) (t : Timestamp) : Fires (c.cron t).text t := by
  -- each part of what a clock shows is one of the values of its field
  have hwell : (c.cron t).WellFormed := fun f =>
    (cadence_repeats c t f).wellFormed (f.admits_valueAt t)
  have hfits : (c.cron t).Fits := fun f => (cadence_repeats c t f).fits
  have hfires := cadence_firesAt c t
  exact ⟨c.cron t, parse_text hwell hfits, Cron.canFire_of_firesAt hfires, hfires⟩

theorem moment?_of_strict (zone : Option Zone) {s : List Char} {m : Moment}
    (h : Moment.ofStrict? (trim s) = some m) :
    moment? zone s = some (zone.elim m fun z => z.convert m.utc) := by
  unfold moment?
  dsimp only
  rw [h]
  cases zone with
  | none => rfl
  | some z => rfl

theorem moment?_of_wall (zone : Option Zone) {s : List Char} {t : Timestamp}
    (hstrict : Moment.ofStrict? (trim s) = none)
    (h : wallForms.findSome? (·.whole? (trim s)) = some t) :
    moment? zone s = some ((zone.getD .utc).ofWall t) := by
  unfold moment?
  dsimp only
  rw [hstrict]
  show (wallForms.findSome? _).map _ = _
  rw [h]
  rfl

/-- Settings in datetime mode stand for a schedule that fires at their moment. -/
theorem fires_convert {zones : ZoneDatabase} {s : Settings} {text : String} {m : Moment}
    (hmode : s.effectiveMode = .datetime) (htext : s.datetime = some text)
    (hm : moment? (s.zone? zones) text.toList = some m) (default : String) :
    ∃ e, (s.convert default zones).cronExpression = some e ∧ Fires e.toList m.wall := by
  let expression := String.ofList ((s.cadence.getD .never).cron m.wall).text
  have hread : s.datetimeExpression? zones = some expression := by
    unfold Settings.datetimeExpression?
    rw [htext]
    show (moment? (s.zone? zones) text.toList >>= _) = _
    rw [hm]
    rfl
  have hexpression : s.expression default zones = expression := by
    unfold Settings.expression
    rw [hmode, hread]
    rfl
  refine ⟨expression, ?_, ?_⟩
  · show some (s.expression default zones) = _
    rw [hexpression]
  · rw [show expression.toList = _ from String.toList_ofList]
    exact fires_cadence _ _

/-- A datetime repeats at its own moment. The text printed for a moment and a cadence is a schedule
that can fire, and it fires at what the clock of the moment shows. So it is for the expression of
all settings in datetime mode, whatever zones have names: with an offset in the text the clock is
that of the zone, if there is one, and else that of the offset; without an offset it shows what the
text says. All texts in the internet form have their moment, and all plain ones are read as what they
say. -/
theorem datetime_fires_at_its_moment :
    (∀ (c : Cadence) (m : Moment), Fires (c.cron m.wall).text m.wall) ∧
    (∀ (zones : ZoneDatabase) (s : Settings) (default text : String) (m : Moment),
      s.effectiveMode = .datetime → s.datetime = some text →
      Moment.ofStrict? (trim text.toList) = some m →
      ∃ e, (s.convert default zones).cronExpression = some e ∧
        Fires e.toList ((s.zone? zones).elim m fun z => z.convert m.utc).wall) ∧
    (∀ (zones : ZoneDatabase) (s : Settings) (default text : String) (t : Timestamp),
      s.effectiveMode = .datetime → s.datetime = some text →
      Moment.ofStrict? (trim text.toList) = none →
      wallForms.findSome? (·.whole? (trim text.toList)) = some t →
      ∃ e, (s.convert default zones).cronExpression = some e ∧ Fires e.toList t) ∧
    (∀ (s : List Char) (m : Moment), Rfc3339 s m → Moment.ofStrict? s = some m) ∧
    ∀ (s : List Char) (t : Timestamp), WallWritten s t →
      Moment.ofStrict? s = none ∧ wallForms.findSome? (·.whole? s) = some t := by
  refine ⟨fun c m => fires_cadence c m.wall, ?_, ?_, ?_, ?_⟩
  · intro zones s default text m hmode htext hm
    exact fires_convert hmode htext (moment?_of_strict (s.zone? zones) hm) default
  · intro zones s default text t hmode htext hstrict hwall
    have hm := moment?_of_wall (s.zone? zones) hstrict hwall
    have hfires := fires_convert hmode htext hm default
    rwa [Zone.wall_ofWall] at hfires
  · intro s m h
    exact ofStrict?_of_rfc3339 h
  · intro s t h
    exact ⟨ofStrict?_of_wall h, wallForms_written h⟩

/-- The evening of a leap day is the first of March in Berlin. -/
theorem datetime_fires_at_its_moment_leap_day :
    Fires (Cadence.monthly.cron (Moment.ofUtc (.ofClock ⟨2024, 2, 29⟩ 23 30 0 0)).wall).text
      (.ofClock ⟨2024, 2, 29⟩ 23 30 0 0) ∧
    (∃ e, (Settings.convert
        { mode := some .datetime, datetime := some " 2024-02-29T23:30:00Z",
          cadence := some .weekly, timezone := some "Europe/Berlin" } "").cronExpression = some e ∧
        Fires e.toList (.ofClock ⟨2024, 3, 1⟩ 0 30 0 0)) ∧
    (∃ e, (Settings.convert
        { mode := some .datetime, datetime := some "2024-02-29 23:30 ",
          timezone := some "Europe/Berlin" } "").cronExpression = some e ∧
        Fires e.toList (.ofClock ⟨2024, 2, 29⟩ 23 30 0 0)) ∧
    Moment.ofStrict? "2024-02-29T23:30:00Z".toList =
      some (.ofWall (.ofClock ⟨2024, 2, 29⟩ 23 30 0 0) 0) ∧
    Moment.ofStrict? "2024-02-29 23:30".toList = none ∧
    wallForms.findSome? (·.whole? "2024-02-29 23:30".toList) =
      some (.ofClock ⟨2024, 2, 29⟩ 23 30 0 0) := by
  have hdate : DateWritten ['2', '0', '2', '4', '-', '0', '2', '-', '2', '9'] ⟨2024, 2, 29⟩ :=
    @DateWritten.intro ['2', '0', '2', '4'] ['0', '2'] ['2', '9'] 2024 2 29 (by decide) (by decide)
      (by decide) (by decide)
  have hclock : ClockWritten ['2', '3', ':', '3', '0'] 23 30 :=
    @ClockWritten.intro ['2', '3'] ['3', '0'] 23 30 (by decide) (by decide) (by decide) (by decide)
  have hsecond : SecondWritten [':', '0', '0'] 0 0 :=
    .ofFixed (s := ['0', '0']) (by decide) (by decide)
  have hzulu : OffsetWritten ['Z'] 0 := .zulu (Or.inl rfl)
  obtain ⟨hcadence, hstrict, hwall, hrfc, hplain⟩ := datetime_fires_at_its_moment
  have hberlin := hstrict .known
    { mode := some .datetime, datetime := some " 2024-02-29T23:30:00Z", cadence := some .weekly,
      timezone := some "Europe/Berlin" } "" " 2024-02-29T23:30:00Z"
    (.ofUtc (.ofClock ⟨2024, 2, 29⟩ 23 30 0 0)) rfl rfl (by decide +kernel)
  have hshown : ((Settings.zone? { timezone := some "Europe/Berlin" }).elim
      (Moment.ofUtc (.ofClock ⟨2024, 2, 29⟩ 23 30 0 0)) fun z =>
        z.convert (.ofClock ⟨2024, 2, 29⟩ 23 30 0 0)).wall =
      .ofClock ⟨2024, 3, 1⟩ 0 30 0 0 := by
    decide +kernel
  refine ⟨hcadence .monthly (.ofUtc (.ofClock ⟨2024, 2, 29⟩ 23 30 0 0)), ?_, ?_, ?_, ?_⟩
  · rw [← hshown]
    exact hberlin
  · exact hwall .known _ "" "2024-02-29 23:30 " _ rfl rfl (by decide +kernel) (by decide +kernel)
  · exact hrfc _ _ (.intro hdate List.mem_cons_self hclock hsecond hzulu)
  · exact hplain _ _ (.minute hdate (Or.inr rfl) hclock)

end Workflow.Schedule
