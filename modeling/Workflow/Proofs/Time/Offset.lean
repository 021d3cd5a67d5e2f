import Mathlib.Tactic.Common
import Workflow.Time.Pattern
import Workflow.Time.Reader
import Workflow.Time.Units
import Workflow.Time.Zone

/-! The offsets of moments are less than a day: those that are read from texts, those of zones, and so
those of the moments that come from others. -/
namespace Workflow.Time

namespace Moment

/-- The clock that shows the moment is less than a day away from universal time. -/
def NearUtc (m : Moment) : Prop :=
  m.offset.natAbs < 86400

theorem nearUtc_ofUtc (t : Timestamp) : (ofUtc t).NearUtc :=
  show 0 < 86400 by decide

theorem NearUtc.of_offset_eq {m m' : Moment} (hm : m.NearUtc) (h : m'.offset = m.offset) :
    m'.NearUtc := by
  rwa [NearUtc, h]

theorem offset_inRange? {m m' : Moment} (h : m.inRange? = some m') : m'.offset = m.offset := by
  unfold inRange? at h
  split at h
  · cases h
    rfl
  · cases h

theorem offset_ofWall? {t : Timestamp} {offset : Int} {m : Moment} (h : ofWall? t offset = some m) :
    m.offset = offset :=
  offset_inRange? h

theorem offset_addMillis? {m m' : Moment} {n : Int} (h : m.addMillis? n = some m') :
    m'.offset = m.offset := by
  have ho : m'.offset = { m with utc := m.utc.addMillis n }.offset := offset_inRange? h
  exact ho

theorem offset_addMonths? {m m' : Moment} {n : Int} (h : m.addMonths? n = some m') :
    m'.offset = m.offset := by
  unfold addMonths? at h
  dsimp only at h
  split at h
  · exact offset_ofWall? h
  · cases h

theorem offset_addAmount? {m m' : Moment} {u : TimeUnit} {amount : Float}
    (h : m.addAmount? u amount = some m') : m'.offset = m.offset := by
  unfold addAmount? at h
  split at h
  · obtain ⟨n, -, hn⟩ := Option.bind_eq_some_iff.1 h
    exact offset_addMonths? hn
  · obtain ⟨n, -, hn⟩ := Option.bind_eq_some_iff.1 h
    exact offset_addMillis? hn

theorem offset_addTotal {m m' : Moment} {amounts : List (TimeUnit × Float)} {u : TimeUnit}
    (h : m.addTotal amounts u = .ok m') : m'.offset = m.offset := by
  unfold addTotal at h
  dsimp only at h
  split at h
  · cases h
    rfl
  · split at h
    · cases h
    · split at h
      · rename_i ha
        cases h
        exact offset_addAmount? ha
      · cases h

theorem offset_shift {m m' : Moment} {amounts : List (TimeUnit × Float)}
    (h : m.shift amounts = .ok m') : m'.offset = m.offset := by
  unfold shift at h
  generalize TimeUnit.all = units at h
  induction units generalizing m with
  | nil =>
    cases h
    rfl
  | cons u units ih =>
    rw [List.foldlM_cons] at h
    cases hu : m.addTotal amounts u with
    | error fault =>
      rw [hu] at h
      cases h
    | ok next =>
      rw [hu] at h
      rw [ih h, offset_addTotal hu]

theorem offset_startOf? {m m' : Moment} {u : TimeUnit} (h : m.startOf? u = some m') :
    m'.offset = m.offset := by
  unfold startOf? at h
  split at h
  · cases h
    rfl
  · exact offset_ofWall? h

theorem offset_next? {m m' : Moment} {u : TimeUnit} (h : m.next? u = some m') :
    m'.offset = m.offset := by
  unfold next? at h
  split at h
  · exact offset_addMonths? h
  · exact offset_ofWall? h
  · exact offset_ofWall? h
  · exact offset_addMillis? h

theorem offset_endOf? {m m' : Moment} {u : TimeUnit} (h : m.endOf? u = some m') :
    m'.offset = m.offset := by
  unfold endOf? at h
  split at h
  · cases h
    rfl
  · obtain ⟨start, hstart, h⟩ := Option.bind_eq_some_iff.1 h
    obtain ⟨next, hnext, h⟩ := Option.bind_eq_some_iff.1 h
    rw [offset_addMillis? h, offset_next? hnext, offset_startOf? hstart]

end Moment

theorem offsetFrom_mem (offset t : Int) (changes : List (Int × Int)) :
    Transitions.offsetFrom offset t changes ∈ offset :: changes.map (·.2) := by
  induction changes generalizing offset with
  | nil => exact List.mem_cons_self
  | cons change changes ih =>
    unfold Transitions.offsetFrom
    split
    · exact List.mem_cons_self
    · exact List.mem_cons_of_mem _ (ih change.2)

theorem nearUtc_convert {s : String} {zones : ZoneDatabase} {z : Zone}
    (h : Zone.parse? s zones = some z) (t : Timestamp) : (z.convert t).NearUtc := by
  unfold Zone.parse? at h
  dsimp only at h
  split at h
  · cases h
    exact Moment.nearUtc_ofUtc t
  · split at h
    · rename_i table ht
      cases h
      exact zones.near ht _ (offsetFrom_mem _ _ _)
    · unfold Zone.fixed? at h
      dsimp only at h
      split at h
      all_goals
        obtain ⟨_, -, h⟩ := Option.bind_eq_some_iff.1 h
        obtain ⟨_, -, h⟩ := Option.bind_eq_some_iff.1 h
        split at h
        · rename_i hnear
          cases h
          exact hnear.2.2
        · cases h

theorem nearUtc_moment {t : Timestamp} {offset : Int} {m : Moment}
    (h : Reader.moment t offset = .ok m) : m.NearUtc := by
  unfold Reader.moment at h
  split at h
  · rename_i hnear
    split at h
    · rename_i hm
      cases h
      unfold Moment.NearUtc
      rw [Moment.offset_ofWall? hm]
      exact hnear
    · cases h
  · cases h

theorem nearUtc_ofStrict? {s : List Char} {m : Moment} (h : Moment.ofStrict? s = some m) :
    m.NearUtc := by
  unfold Moment.ofStrict? Except.toOption at h
  split at h
  · rename_i hm
    cases h
    simp only [Moment.ofStrict, bind, Except.bind] at hm
    split at hm
    · cases hm
    · split at hm
      · cases hm
      · exact nearUtc_moment hm
  · cases h

namespace Reader

theorem exists_of_bind {α β : Type} {r : Reader α} {f : α → Reader β} {s rest : List Char} {b : β}
    (h : (r >>= f) s = .ok (b, rest)) : ∃ a tail, f a tail = .ok (b, rest) := by
  simp only [bind, StateT.bind, Except.bind] at h
  split at h
  · cases h
  · exact ⟨_, _, h⟩

theorem exists_of_whole? {α : Type} {r : Reader α} {s : List Char} {a : α}
    (h : r.whole? s = some a) : ∃ rest, r s = .ok (a, rest) := by
  unfold whole? Except.toOption at h
  split at h
  · rename_i ha
    cases h
    simp only [whole, bind, Except.bind, StateT.run] at ha
    split at ha
    · cases ha
    · rename_i hr
      split at ha
      · cases ha
        exact ⟨[], hr⟩
      · cases ha
  · cases h

end Reader

theorem nearUtc_zoned {seconds : Reader (Nat × Nat)} {s : List Char} {m : Moment}
    (h : (Reader.zoned seconds).whole? s = some m) : m.NearUtc := by
  obtain ⟨rest, h⟩ := Reader.exists_of_whole? h
  -- the last step makes the moment
  obtain ⟨t, _, h⟩ := Reader.exists_of_bind h
  obtain ⟨_, _, h⟩ := Reader.exists_of_bind h
  obtain ⟨offset, _, h⟩ := Reader.exists_of_bind h
  cases hm : Reader.moment t offset with
  | error cause =>
    rw [hm] at h
    cases h
  | ok m' =>
    rw [hm] at h
    cases h
    exact nearUtc_moment hm

theorem nearUtc_parse? {s : String} {m : Moment} (h : Moment.parse? s = some m) : m.NearUtc := by
  unfold Moment.parse? at h
  dsimp only at h
  rcases Option.or_eq_some_iff.1 h with h | ⟨-, h⟩
  · exact nearUtc_ofStrict? h
  · rcases Option.or_eq_some_iff.1 h with h | ⟨-, h⟩
    · obtain ⟨r, hr, hm⟩ := List.exists_of_findSome?_eq_some h
      rcases List.mem_cons.1 hr with rfl | hr
      · exact nearUtc_zoned hm
      · rw [List.mem_singleton.1 hr] at hm
        exact nearUtc_zoned hm
    · obtain ⟨t, -, rfl⟩ := Option.map_eq_some_iff.1 h
      exact Moment.nearUtc_ofUtc t

theorem utf8ByteSize_offsetName {offset : Int} (h : offset.natAbs < 86400) :
    (offsetName offset).utf8ByteSize ≤ 20 := by
  -- at most two digits for the hours, and two for the minutes
  have hhours : ∀ n < 24, (toString n).utf8ByteSize ≤ 2 := by decide
  have hminutes : ∀ n < 60, (Text.padded 2 n).utf8ByteSize ≤ 2 := by decide +kernel
  have hh := hhours (offset.natAbs / 3600) (by omega)
  have hm := hminutes (offset.natAbs % 3600 / 60) (by omega)
  have hsign : (if offset < 0 then "-" else "+").utf8ByteSize = 1 := by
    split
    · rfl
    · rfl
  have hname : "UTC".utf8ByteSize = 3 := rfl
  have hcolon : ":".utf8ByteSize = 1 := rfl
  unfold offsetName
  split
  · decide
  · unfold offsetPattern
    dsimp only
    rw [String.utf8ByteSize_append, String.utf8ByteSize_append, hsign]
    by_cases hz : offset.natAbs % 3600 / 60 = 0
    · rw [if_pos hz]
      omega
    · rw [if_neg hz, String.utf8ByteSize_append, String.utf8ByteSize_append]
      omega

end Workflow.Time
