import Workflow.Proofs.Fields
import Workflow.Schedule.Conversion

/-! Settings that are stored as objects and converted. Conversion sets the expression and changes
nothing else, and converted settings stay as they are. -/
namespace Workflow.Schedule

namespace Settings

/-- The fields whose values are words. -/
def wordNames : List String :=
  ["scheduleMode", "interval", "repeat"]

/-- A word as it is written: a string, also if it is given as an object. -/
def plainWord : Json → Json
  | .object [(word, .null)] => .string word
  | v => v

/-- The value of a field as it is written. -/
def plainValue (name : String) (v : Json) : Json :=
  if wordNames.contains name then plainWord v else v

/-- Entries without the fields that are understood and null, which are as good as absent. -/
def withoutNulls (entries : Fields Json) : Fields Json :=
  entries.filter fun e => !(names.contains e.1 && e.2.isNull)

/-- Entries with all words as they are written. -/
def plainWords (entries : Fields Json) : Fields Json :=
  entries.map fun e => (e.1, plainValue e.1 e.2)

/-- The entries that settings leave of an object. -/
def plain (entries : Fields Json) : Fields Json :=
  plainWords (withoutNulls entries)

/-- A word of a fixed choice. -/
def wordOf {α : Type} (all : List α) (text : α → String) (v : Json) : Option α := do
  let w ← v.asWord?
  all.find? (text · = w)

/-- What the fields of an object say about settings. -/
structure Reads (get : String → Option Json) (s : Settings) : Prop where
  mode : Json.optional (wordOf Mode.all Mode.word) (get "scheduleMode") = some s.mode
  cronExpression : Json.optional Json.asString? (get "cronExpression") = some s.cronExpression
  interval : Json.optional (wordOf Interval.all Interval.word) (get "interval") = some s.interval
  intervalValue : Json.optional (Json.asNat? 0x1_0000_0000) (get "intervalValue") =
    some s.intervalValue
  time : Json.optional Json.asString? (get "time") = some s.time
  weekday : Json.optional (Json.asNat? 0x1_0000_0000) (get "weekday") = some s.weekday
  dayOfMonth : Json.optional (Json.asNat? 0x1_0000_0000) (get "dayOfMonth") = some s.dayOfMonth
  weekdaysOnly : Json.optional Json.asBool? (get "weekdaysOnly") = some s.weekdaysOnly
  datetime : Json.optional Json.asString? (get "datetime") = some s.datetime
  cadence : Json.optional (wordOf Cadence.all Cadence.word) (get "repeat") = some s.cadence
  timezone : Json.optional Json.asString? (get "timezone") = some s.timezone

/-- The entries of other names. -/
def others (entries : Fields Json) : Fields Json :=
  entries.filter fun e => !names.contains e.1

theorem ofJson?_eq_some_iff {entries : Fields Json} {s : Settings} :
    ofJson? (.object entries) = some s ↔ Reads entries.get? s ∧ s.extra = others entries := by
  unfold ofJson?
  simp only [Json.asObject?, Option.bind_eq_bind, Option.bind_some, Option.bind_eq_some_iff,
    Option.pure_def, Option.some.injEq]
  constructor
  · rintro ⟨mode, hmode, cronExpression, hcron, interval, hinterval, value, hvalue, time, htime,
      weekday, hweekday, day, hday, only, honly, datetime, hdatetime, cadence, hcadence, timezone,
      htimezone, rfl⟩
    exact ⟨⟨hmode, hcron, hinterval, hvalue, htime, hweekday, hday, honly, hdatetime, hcadence,
      htimezone⟩, rfl⟩
  · rintro ⟨h, hextra⟩
    refine ⟨_, h.mode, _, h.cronExpression, _, h.interval, _, h.intervalValue, _, h.time, _,
      h.weekday, _, h.dayOfMonth, _, h.weekdaysOnly, _, h.datetime, _, h.cadence, _, h.timezone, ?_⟩
    have hothers : (entries.filter fun e => !names.contains e.1) = s.extra := hextra.symm
    rw [hothers]

/-- What is read of a value is written as its plain form, which is read as the same again. -/
def Restores {α : Type} (decode : Json → Option α) (encode : α → Json) (plain : Json → Json) :
    Prop :=
  ∀ v a, decode v = some a →
    encode a = plain v ∧ decode (plain v) = some a ∧ (plain v).isNull = false

theorem restores_string : Restores Json.asString? .string id := by
  intro v a h
  cases v with
  | string s =>
    obtain rfl := Option.some.inj h
    exact ⟨rfl, rfl, rfl⟩
  | _ => exact absurd h (by simp [Json.asString?])

theorem restores_bool : Restores Json.asBool? .bool id := by
  intro v a h
  cases v with
  | bool b =>
    obtain rfl := Option.some.inj h
    exact ⟨rfl, rfl, rfl⟩
  | _ => exact absurd h (by simp [Json.asBool?])

theorem restores_nat (bound : Nat) : Restores (Json.asNat? bound) Json.ofNat id := by
  intro v a h
  cases v with
  | number n =>
    cases n with
    | whole n =>
      have hread : (if 0 ≤ n ∧ n < bound then some n.toNat else none) = some a := h
      by_cases hn : 0 ≤ n ∧ n < bound
      · rw [if_pos hn] at hread
        obtain rfl := Option.some.inj hread
        have hback : (n.toNat : Int) = n := Int.toNat_of_nonneg hn.1
        refine ⟨?_, h, rfl⟩
        show Json.number (.whole n.toNat) = .number (.whole n)
        rw [hback]
      · rw [if_neg hn] at hread
        exact absurd hread (by simp)
    | double x => exact absurd h (by simp [Json.asNat?])
  | _ => exact absurd h (by simp [Json.asNat?])

theorem asWord?_eq_some {v : Json} {w : String} (h : v.asWord? = some w) :
    plainWord v = .string w := by
  unfold Json.asWord? at h
  split at h
  · obtain rfl := Option.some.inj h
    rfl
  · obtain rfl := Option.some.inj h
    rfl
  · exact absurd h (by simp)

theorem restores_word {α : Type} (all : List α) (text : α → String) :
    Restores (wordOf all text) (fun a => .string (text a)) plainWord := by
  intro v a h
  obtain ⟨w, hw, hfind⟩ := Option.bind_eq_some_iff.1 h
  have htext : text a = w := by simpa using List.find?_some hfind
  rw [asWord?_eq_some hw]
  exact ⟨congrArg Json.string htext, hfind, rfl⟩

/-- What is left of a field: nothing if it is understood and null. -/
def kept? (get : String → Option Json) (name : String) : Option Json :=
  ((get name).filter fun v => !(names.contains name && v.isNull)).map (plainValue name)

theorem optional_of_not_null {α : Type} (decode : Json → Option α) {v : Json}
    (h : v.isNull = false) : Json.optional decode (some v) = (decode v).map some := by
  cases v with
  | null => exact absurd h (by simp [Json.isNull])
  | _ => rfl

/-- What is left of a field is what is written of it, and it is read as before. -/
theorem restored {α : Type} {decode : Json → Option α} {encode : α → Json}
    {get : String → Option Json} {name : String} (hname : names.contains name = true)
    (hlaw : Restores decode encode (plainValue name)) {a : Option α}
    (h : Json.optional decode (get name) = some a) :
    a.map encode = kept? get name ∧ Json.optional decode (kept? get name) = some a := by
  unfold kept?
  simp only [hname, Bool.true_and]
  cases hv : get name with
  | none =>
    rw [hv] at h
    obtain rfl := Option.some.inj h
    exact ⟨rfl, rfl⟩
  | some v =>
    rw [hv] at h
    cases hnull : v.isNull with
    | true =>
      obtain rfl : v = .null := by
        cases v with
        | null => rfl
        | _ => exact absurd hnull (by simp [Json.isNull])
      obtain rfl := Option.some.inj h
      exact ⟨rfl, rfl⟩
    | false =>
      rw [optional_of_not_null decode hnull] at h
      -- a value that is not null is read by itself, and the law of the field says the rest
      obtain ⟨x, hx, rfl⟩ := Option.map_eq_some_iff.1 h
      obtain ⟨hwritten, hread, hplain⟩ := hlaw v x hx
      have hkept : ((some v).filter fun v => !v.isNull).map (plainValue name) =
          some (plainValue name v) := by
        simp [hnull]
      rw [hkept, optional_of_not_null decode hplain, hread]
      exact ⟨congrArg some hwritten, rfl⟩

theorem plainValue_of_word {name : String} (h : wordNames.contains name = true) :
    plainValue name = plainWord := by
  funext v
  exact if_pos h

theorem plainValue_of_not_word {name : String} (h : wordNames.contains name = false) :
    plainValue name = id := by
  funext v
  unfold plainValue
  rw [h]
  rfl

section Kept

variable {get : String → Option Json} {name : String}

theorem restored_word {α : Type} {all : List α} {text : α → String} {a : Option α}
    (h : Json.optional (wordOf all text) (get name) = some a)
    (hword : wordNames.contains name = true) (hname : names.contains name = true) :
    (a.map fun x => Json.string (text x)) = kept? get name ∧
      Json.optional (wordOf all text) (kept? get name) = some a := by
  refine restored hname ?_ h
  rw [plainValue_of_word hword]
  exact restores_word all text

theorem restored_other {α : Type} {decode : Json → Option α} {encode : α → Json}
    (hlaw : Restores decode encode id) {a : Option α}
    (h : Json.optional decode (get name) = some a) (hword : wordNames.contains name = false)
    (hname : names.contains name = true) :
    a.map encode = kept? get name ∧ Json.optional decode (kept? get name) = some a := by
  refine restored hname ?_ h
  rw [plainValue_of_not_word hword]
  exact hlaw

end Kept

/-- The values of the fields that are understood, in the order of their names. -/
def known (s : Settings) : List (Option Json) :=
  [s.mode.map fun m => .string m.word,
    s.cronExpression.map .string,
    s.interval.map fun i => .string i.word,
    s.intervalValue.map Json.ofNat,
    s.time.map .string,
    s.weekday.map Json.ofNat,
    s.dayOfMonth.map Json.ofNat,
    s.weekdaysOnly.map .bool,
    s.datetime.map .string,
    s.cadence.map fun c => .string c.word,
    s.timezone.map .string]

theorem Reads.restored {get : String → Option Json} {s : Settings} (h : Reads get s) :
    s.known = names.map (kept? get) ∧ Reads (kept? get) s := by
  obtain ⟨wmode, rmode⟩ := restored_word h.mode rfl rfl
  obtain ⟨wcron, rcron⟩ := restored_other restores_string h.cronExpression rfl rfl
  obtain ⟨winterval, rinterval⟩ := restored_word h.interval rfl rfl
  obtain ⟨wvalue, rvalue⟩ := restored_other (restores_nat _) h.intervalValue rfl rfl
  obtain ⟨wtime, rtime⟩ := restored_other restores_string h.time rfl rfl
  obtain ⟨wweekday, rweekday⟩ := restored_other (restores_nat _) h.weekday rfl rfl
  obtain ⟨wday, rday⟩ := restored_other (restores_nat _) h.dayOfMonth rfl rfl
  obtain ⟨wonly, ronly⟩ := restored_other restores_bool h.weekdaysOnly rfl rfl
  obtain ⟨wdatetime, rdatetime⟩ := restored_other restores_string h.datetime rfl rfl
  obtain ⟨wcadence, rcadence⟩ := restored_word h.cadence rfl rfl
  obtain ⟨wtimezone, rtimezone⟩ := restored_other restores_string h.timezone rfl rfl
  constructor
  · unfold known names
    rw [wmode, wcron, winterval, wvalue, wtime, wweekday, wday, wonly, wdatetime, wcadence,
      wtimezone]
    rfl
  · exact ⟨rmode, rcron, rinterval, rvalue, rtime, rweekday, rday, ronly, rdatetime, rcadence,
      rtimezone⟩

/-- The expression is one of the fields. -/
theorem Reads.with_expression {get : String → Option Json} {s : Settings} (h : Reads get s)
    (e : String) :
    Reads (fun name => if name = "cronExpression" then some (.string e) else get name)
      { s with cronExpression := some e } :=
  ⟨h.mode, rfl, h.interval, h.intervalValue, h.time, h.weekday, h.dayOfMonth, h.weekdaysOnly,
    h.datetime, h.cadence, h.timezone⟩

section Entries

variable {entries : Fields Json} (hsorted : Fields.Sorted entries)
include hsorted

theorem get?_plain : (plain entries).get? = kept? entries.get? := by
  funext name
  unfold plain plainWords withoutNulls kept?
  rw [Fields.get?_map, Fields.get?_filter hsorted fun name v => !(names.contains name && v.isNull)]

theorem sorted_plain : Fields.Sorted (plain entries) :=
  List.Pairwise.map _ (fun _ _ hlt => hlt) (List.Pairwise.filter _ hsorted)

theorem sorted_others : Fields.Sorted (others entries) :=
  List.Pairwise.filter _ hsorted

theorem get?_others (name : String) :
    (others entries).get? name = if names.contains name then none else entries.get? name := by
  unfold others
  rw [Fields.get?_filter hsorted fun name _ => !names.contains name]
  cases names.contains name with
  | true =>
    rw [if_pos rfl]
    cases entries.get? name <;> rfl
  | false =>
    rw [if_neg Bool.false_ne_true]
    cases entries.get? name <;> rfl

end Entries

theorem kept?_of_unknown {get : String → Option Json} {name : String}
    (hname : names.contains name = false) : kept? get name = get name := by
  have hword : wordNames.contains name = false := by
    have hsub : ∀ w ∈ wordNames, w ∈ names := by decide
    simp only [List.contains_eq_mem, decide_eq_false_iff_not] at hname ⊢
    exact fun hmem => hname (hsub name hmem)
  unfold kept?
  rw [plainValue_of_not_word hword, hname]
  cases get name <;> rfl

theorem get?_filterMap (ns : List String) (g : String → Option Json) (key : String) :
    Fields.get? (ns.filterMap fun n => (g n).map (n, ·)) key = if key ∈ ns then g key else none := by
  induction ns with
  | nil => rfl
  | cons n rest ih =>
    rw [List.filterMap_cons]
    cases hn : g n with
    | none =>
      simp only [Option.map_none]
      rw [ih]
      by_cases hkey : key = n
      · subst hkey
        simp [hn]
      · simp [hkey]
    | some v =>
      simp only [Option.map_some]
      rw [Fields.get?_cons, ih]
      by_cases hkey : key = n
      · subst hkey
        simp [hn]
      · simp [hkey]

section Written

variable {entries : Fields Json} (hsorted : Fields.Sorted entries) {s : Settings}
  (h : Reads entries.get? s) (hextra : s.extra = others entries)
include h

theorem entries_of_reads : s.entries =
    (names.filterMap fun name => (kept? entries.get? name).map (name, ·)) ++ s.extra := by
  have hzip : names.zip s.known = names.map fun name => (name, kept? entries.get? name) := by
    rw [h.restored.1]
    exact List.map_prod_left_eq_zip.symm
  have hwritten : s.entries =
      ((names.zip s.known).filterMap fun e => e.2.map (e.1, ·)) ++ s.extra := rfl
  rw [hwritten, hzip, List.filterMap_map]
  rfl

include hsorted hextra

theorem get?_entries (key : String) : Fields.get? s.entries key = (plain entries).get? key := by
  -- fields that are understood come first, and the others are found behind them
  rw [entries_of_reads h, Fields.get?_append, get?_filterMap, hextra, get?_others hsorted,
    get?_plain hsorted]
  by_cases hkey : names.contains key = true
  · have hmem : key ∈ names := List.contains_iff_mem.1 hkey
    rw [if_pos hmem, if_pos hkey, Option.or_none]
  · have hmem : key ∉ names := fun hmem => hkey (List.contains_iff_mem.2 hmem)
    rw [if_neg hmem, if_neg hkey, Option.none_or, kept?_of_unknown (Bool.eq_false_iff.2 hkey)]

theorem pairwise_entries : s.entries.Pairwise (·.1 ≠ ·.1) := by
  rw [entries_of_reads h, List.pairwise_append]
  have hnodup : names.Nodup := by decide
  have hkey {name : String} {e : String × Json}
      (he : (kept? entries.get? name).map (name, ·) = some e) : e.1 = name := by
    obtain ⟨v, -, rfl⟩ := Option.map_eq_some_iff.1 he
    rfl
  refine ⟨?_, ?_, ?_⟩
  · apply List.Pairwise.filterMap _ _ hnodup
    intro a b hne e he f hf
    rwa [hkey he, hkey hf]
  · rw [hextra]
    apply (sorted_others hsorted).imp
    intro a b hlt heq
    exact String.lt_irrefl b.1 (heq ▸ hlt)
  · -- the other fields have other names
    intro e he f hf heq
    obtain ⟨name, hname, he⟩ := List.mem_filterMap.1 he
    rw [hextra] at hf
    have hother := (List.mem_filter.1 hf).2
    rw [← heq, hkey he, List.contains_iff_mem.2 hname] at hother
    exact absurd hother (by simp)

end Written

section Reread

variable {entries : Fields Json} (hsorted : Fields.Sorted entries)
include hsorted

theorem others_plain : others (plain entries) = others entries := by
  have hplain := sorted_plain hsorted
  apply Fields.eq_of_get?_eq (sorted_others hplain) (sorted_others hsorted)
  intro name
  rw [get?_others hplain, get?_others hsorted, get?_plain hsorted]
  by_cases hname : names.contains name = true
  · rw [if_pos hname, if_pos hname]
  · rw [if_neg hname, if_neg hname, kept?_of_unknown (Bool.eq_false_iff.2 hname)]

variable {s : Settings} (h : ofJson? (.object entries) = some s)
include h

/-- Settings that were read from an object are written as what is left of it. -/
theorem toJson_of_ofJson? : s.toJson = .object (plain entries) := by
  obtain ⟨hreads, hextra⟩ := ofJson?_eq_some_iff.1 h
  have hentries : Fields.ofList s.entries = plain entries := by
    apply Fields.eq_of_get?_eq (Fields.sorted_ofList _) (sorted_plain hsorted)
    intro key
    rw [Fields.get?_ofList (pairwise_entries hsorted hreads hextra),
      get?_entries hsorted hreads hextra]
  exact congrArg Json.object hentries

theorem ofJson?_toJson : ofJson? s.toJson = some s := by
  obtain ⟨hreads, hextra⟩ := ofJson?_eq_some_iff.1 h
  rw [toJson_of_ofJson? hsorted h, ofJson?_eq_some_iff, get?_plain hsorted, others_plain hsorted]
  exact ⟨hreads.restored.2, hextra⟩

end Reread

section Converted

variable {entries : Fields Json} (hsorted : Fields.Sorted entries)

theorem get?_with_expression (e : String) :
    (entries.insert "cronExpression" (.string e)).get? =
      fun name => if name = "cronExpression" then some (.string e) else entries.get? name := by
  funext name
  exact Fields.get?_insert entries _ name _

include hsorted

theorem others_with_expression (e : String) :
    others (entries.insert "cronExpression" (.string e)) = others entries := by
  have hinserted := Fields.sorted_insert hsorted "cronExpression" (.string e)
  apply Fields.eq_of_get?_eq (sorted_others hinserted) (sorted_others hsorted)
  intro name
  rw [get?_others hinserted, get?_others hsorted, get?_with_expression]
  by_cases hname : names.contains name = true
  · rw [if_pos hname, if_pos hname]
  · have hne : name ≠ "cronExpression" := by
      rintro rfl
      exact hname rfl
    simp only [if_neg hname, if_neg hne]

theorem plain_with_expression (e : String) :
    plain (entries.insert "cronExpression" (.string e)) =
      (plain entries).insert "cronExpression" (.string e) := by
  have hinserted := Fields.sorted_insert hsorted "cronExpression" (.string e)
  -- both are sorted, so the values of all names decide
  apply Fields.eq_of_get?_eq (sorted_plain hinserted)
    (Fields.sorted_insert (sorted_plain hsorted) _ _)
  intro name
  rw [get?_plain hinserted, Fields.get?_insert, get?_plain hsorted]
  unfold kept?
  rw [get?_with_expression]
  by_cases hname : name = "cronExpression"
  · subst hname
    rfl
  · simp only [if_neg hname]

end Converted

section Expression

variable {s : Settings} (default : String) (zones : Time.ZoneDatabase)

theorem expression_of_cron (h : s.effectiveMode = .cron) :
    s.expression default zones = s.cronExpression.getD default := by
  unfold expression
  rw [h]

theorem expression_of_simple (h : s.effectiveMode = .simple) :
    s.expression default zones = String.ofList s.simpleCron.text := by
  unfold expression
  rw [h]

theorem expression_of_datetime (h : s.effectiveMode = .datetime) :
    s.expression default zones =
      (s.datetimeExpression? zones).getD (s.cronExpression.getD default) := by
  unfold expression
  rw [h]

end Expression

/-- Converted settings stand for the same expression. -/
theorem expression_convert (s : Settings) (default : String) (zones : Time.ZoneDatabase) :
    (s.convert default zones).expression default zones = s.expression default zones := by
  have hmode : (s.convert default zones).effectiveMode = s.effectiveMode := rfl
  have hgiven : (s.convert default zones).cronExpression.getD default =
      s.expression default zones := rfl
  cases h : s.effectiveMode with
  | cron => rw [expression_of_cron default zones (hmode.trans h), hgiven]
  | simple =>
    rw [expression_of_simple default zones (hmode.trans h), expression_of_simple default zones h]
    rfl
  | datetime =>
    have hread : (s.convert default zones).datetimeExpression? zones =
        s.datetimeExpression? zones := rfl
    rw [expression_of_datetime default zones (hmode.trans h), hgiven, hread]
    -- without a datetime that can be read the expression of the first time is kept
    cases hexpression : s.datetimeExpression? zones with
    | some e =>
      rw [expression_of_datetime default zones h, hexpression]
      rfl
    | none => rfl

theorem convert_convert (s : Settings) (default : String) (zones : Time.ZoneDatabase) :
    (s.convert default zones).convert default zones = s.convert default zones := by
  have hexpression := expression_convert s default zones
  unfold convert at hexpression ⊢
  rw [hexpression]

/-- Conversion sets the expression in the object, as far as settings are read from it. -/
theorem ofJson?_with_expression {entries : Fields Json} (hsorted : entries.Sorted) {s : Settings}
    (h : ofJson? (.object entries) = some s) (default : String) (zones : Time.ZoneDatabase) :
    ofJson? (.object (entries.insert "cronExpression" (.string (s.expression default zones)))) =
      some (s.convert default zones) := by
  obtain ⟨hreads, hextra⟩ := ofJson?_eq_some_iff.1 h
  rw [ofJson?_eq_some_iff, get?_with_expression, others_with_expression hsorted]
  exact ⟨hreads.with_expression _, hextra⟩

theorem toJson_convert {entries : Fields Json} (hsorted : entries.Sorted) {s : Settings}
    (h : ofJson? (.object entries) = some s) (default : String) (zones : Time.ZoneDatabase) :
    (s.convert default zones).toJson = .object ((plainWords (withoutNulls entries)).insert
      "cronExpression" (.string (s.expression default zones))) := by
  have hinserted := Fields.sorted_insert hsorted "cronExpression"
    (.string (s.expression default zones))
  have hconverted := ofJson?_with_expression hsorted h default zones
  -- converted settings are read from the object with the expression, and written as what is left
  rw [toJson_of_ofJson? hinserted hconverted, plain_with_expression hsorted]
  rfl

/-- Conversion of stored settings sets their expression and leaves all else as it is: the object that
is written has the entries of the one that was read, without the nulls of fields that are understood,
with words as they are written, and with the expression that the settings stand for; entries of other
names are kept. What is written is read as the converted settings, and converting these once more
changes nothing, in each mode and whatever can be read of it. -/
theorem conversion_sets_expression :
    (∀ (entries : Fields Json) (s : Settings) (default : String) (zones : Time.ZoneDatabase),
      entries.Sorted → ofJson? (.object entries) = some s →
        (s.convert default zones).toJson = .object ((plainWords (withoutNulls entries)).insert
          "cronExpression" (.string (s.expression default zones))) ∧
        (∀ name, name ∉ names → (s.convert default zones).toJson.field? name = entries.get? name) ∧
        ofJson? (s.convert default zones).toJson = some (s.convert default zones)) ∧
    ∀ (s : Settings) (default : String) (zones : Time.ZoneDatabase),
      (s.convert default zones).convert default zones = s.convert default zones := by
  refine ⟨?_, convert_convert⟩
  intro entries s default zones hsorted h
  have hwritten := toJson_convert hsorted h default zones
  refine ⟨hwritten, ?_, ?_⟩
  · intro name hname
    have hunknown : names.contains name = false := by simpa using hname
    have hne : name ≠ "cronExpression" := by
      rintro rfl
      exact absurd hunknown (by decide)
    have hkept : (plainWords (withoutNulls entries)).get? name = entries.get? name := by
      have hget := congrFun (get?_plain hsorted) name
      rwa [kept?_of_unknown hunknown] at hget
    rw [hwritten]
    show Fields.get? _ name = _
    rw [Fields.get?_insert, if_neg hne, hkept]
  · have hinserted := Fields.sorted_insert hsorted "cronExpression"
      (.string (s.expression default zones))
    exact ofJson?_toJson hinserted (ofJson?_with_expression hsorted h default zones)

/-- An hour with a note, its interval as an object and its time as null. -/
theorem conversion_sets_expression_hourly :
    Settings.toJson (convert
        { mode := some .simple, interval := some .hour, extra := [("note", .bool true)] }
        defaultExpression) =
      .object [("cronExpression", .string "0 * * * *"), ("interval", .string "hour"),
        ("note", .bool true), ("scheduleMode", .string "simple")] := by
  let entries : Fields Json := [("interval", .object [("hour", .null)]), ("note", .bool true),
    ("scheduleMode", .string "simple"), ("time", .null)]
  have hsorted : Fields.Sorted entries := by
    unfold Fields.Sorted
    decide
  have hread : ofJson? (.object entries) =
      some { mode := some .simple, interval := some .hour, extra := [("note", .bool true)] } := rfl
  rw [(conversion_sets_expression.1 entries _ defaultExpression .known hsorted hread).1]
  rfl

/-- A word that is given as an object is not written as it was given. -/
theorem word_object_not_kept :
    ofJson? (.object [("scheduleMode", .object [("simple", .null)])]) =
        some { mode := some .simple } ∧
      Settings.toJson (convert { mode := some .simple } defaultExpression) ≠
        .object ((withoutNulls [("scheduleMode", .object [("simple", .null)])]).insert
          "cronExpression" (.string (expression { mode := some .simple } defaultExpression))) := by
  let entries : Fields Json := [("scheduleMode", .object [("simple", .null)])]
  have hsorted : Fields.Sorted entries := List.pairwise_singleton _ _
  have hread : ofJson? (.object entries) = some { mode := some .simple } := rfl
  refine ⟨hread, ?_⟩
  rw [toJson_convert hsorted hread]
  intro heq
  have hmode := congrArg (·.field? "scheduleMode") heq
  simp only [Json.field?, Fields.get?_insert] at hmode
  exact absurd (Option.some.inj hmode) (by simp [plainWord, plainValue, wordNames])

end Settings

end Workflow.Schedule
