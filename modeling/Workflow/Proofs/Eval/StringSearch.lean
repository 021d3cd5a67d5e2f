import Workflow.Eval.Run
import Workflow.Proofs.Eval.Replacing
import Workflow.Proofs.Eval.Yields
import Workflow.Proofs.Number.Count
import Workflow.Proofs.Number.Order

/-! Searching a text, splitting it, joining the pieces and replacing: that these methods agree. -/
namespace Workflow.Eval

open Text

/-- A method of a value with its arguments. -/
def callMethod (call : Caller) (v : Value) (name : String) (args : List Value) : EvalM Value := do
  callOnce call (← readMember v name) args

section

variable {n : Nat}

theorem toInteger_ofNat (hn : n ≤ Number.maxSafe) : (Value.ofNat n).toInteger = Float.ofNat n := by
  show (if (Float.ofNat n).isNaN then 0.0 else Number.truncate (Float.ofNat n)) = _
  rw [Number.isNaN_ofNat, Number.truncate_ofNat hn]
  rfl

theorem position_ofNat (hn : n ≤ Number.maxSafe) (length default : Nat) :
    position (.ofNat n) length default = min n length := by
  show (if (Value.ofNat n).toInteger < 0.0 then
      Number.clampNat length (Float.ofNat length + (Value.ofNat n).toInteger)
    else Number.clampNat length (Value.ofNat n).toInteger) = _
  rw [toInteger_ofNat hn, if_neg (Number.not_ofNat_lt_zero hn), Number.clampNat_ofNat hn]

theorem slice_ofNat {α : Type} (l : List α) {i k : Nat} (h : i + k ≤ Number.maxSafe) :
    sliceOf l [.ofNat i, .ofNat (i + k)] = (l.drop i).take k := by
  have hi : i ≤ Number.maxSafe := Nat.le_trans (Nat.le_add_right i k) h
  show between l (position (.ofNat i) l.length 0) (position (.ofNat (i + k)) l.length l.length) = _
  rw [position_ofNat hi, position_ofNat h]
  unfold between
  rcases Nat.le_total i l.length with hle | hle
  · rw [Nat.min_eq_left hle, List.take_eq_take_iff, List.length_drop]
    omega
  · rw [Nat.min_eq_right hle, List.drop_length, List.drop_eq_nil_of_le hle, List.take_nil,
      List.take_nil]

theorem add_ofNat {a b : Nat} (h : a + b ≤ Number.maxSafe) :
    applyBinary .add (.ofNat a) (.ofNat b) = pure (.ofNat (a + b)) := by
  show pure (Value.number (Float.ofNat a + Float.ofNat b)) = _
  rw [Number.ofNat_add h]
  rfl

theorem ge_ofNat (m : Nat) (hn : n ≤ Number.maxSafe) :
    applyBinary .ge (.ofNat m) (.ofNat n) = pure (.bool (n ≤ m)) := by
  have hge : (Ord.compare (m : Int) n).isGE = decide (n ≤ m) := by
    rw [Bool.eq_iff_iff, Int.isGE_compare, decide_eq_true_iff, Int.ofNat_le]
  show pure (Value.bool ((Value.numberOrder? (Float.ofNat m) (Float.ofNat n)).any (·.isGE))) = _
  rw [Number.numberOrder?_ofNat m hn, Option.any_some, hge]

theorem gt_ofNat (m : Nat) (hn : n ≤ Number.maxSafe) :
    applyBinary .gt (.ofNat m) (.ofNat n) = pure (.bool (n < m)) := by
  have hgt : (Ord.compare (m : Int) n).isGT = decide (n < m) := by
    rw [Bool.eq_iff_iff, Ordering.isGT_iff_eq_gt, Int.compare_eq_gt, decide_eq_true_iff,
      Int.ofNat_lt]
  show pure (Value.bool ((Value.numberOrder? (Float.ofNat m) (Float.ofNat n)).any (·.isGT))) = _
  rw [Number.numberOrder?_ofNat m hn, Option.any_some, hgt]

/-- Nothing found is before the start, what is found is not. -/
theorem orMinusOne_ge_zero (i : Option Nat) :
    applyBinary .ge (orMinusOne i) (.ofNat 0) = pure (.bool i.isSome) := by
  cases i with
  | none =>
    have horder : Value.numberOrder? (-1.0) (Float.ofNat 0) = some .lt := by decide +kernel
    show pure (Value.bool ((Value.numberOrder? (-1.0) (Float.ofNat 0)).any (·.isGE))) = _
    rw [horder]
    rfl
  | some n => exact ge_ofNat n (Nat.zero_le _)

end

/-- The pieces of a text around the occurrences of another one, or its characters. -/
def textPieces (p s : String) : List (List Char) :=
  pieces s.toList (.string p)

theorem textPieces_empty (s : String) : textPieces "" s = s.toList.map fun c => [c] :=
  rfl

theorem textPieces_eq {p : String} (hp : p ≠ "") (s : String) :
    textPieces p s = splitOn p.toList s.toList := by
  unfold textPieces pieces
  dsimp only
  rw [display_string]
  split
  · rename_i h
    exact absurd (String.toList_eq_nil_iff.1 h) hp
  · rfl

theorem toList_ne_nil {p : String} (hp : p ≠ "") : p.toList ≠ [] :=
  fun h => hp (String.toList_eq_nil_iff.1 h)

theorem length_textPieces_le (p s : String) : (textPieces p s).length ≤ s.length + 1 := by
  by_cases hp : p = ""
  · rw [hp, textPieces_empty, List.length_map, String.length_toList]
    exact Nat.le_add_right _ _
  · rw [textPieces_eq hp, ← String.length_toList]
    exact length_splitOn_le (toList_ne_nil hp) s.toList

/-- Joined with what they were split at, pieces are the text. -/
theorem intercalate_textPieces (p s : String) :
    String.ofList (p.toList.intercalate (textPieces p s)) = s := by
  by_cases hp : p = ""
  · rw [hp, textPieces_empty]
    exact (congrArg String.ofList (intercalate_characters s.toList)).trans String.ofList_toList
  · rw [textPieces_eq hp, intercalate_splitOn (toList_ne_nil hp), String.ofList_toList]

/-- `s.split(p).join(r)`. -/
def splitJoin (call : Caller) (s p r : String) : EvalM Value := do
  callMethod call (← callMethod call (.string s) "split" [.string p]) "join" [.string r]

section

variable {call : Caller} {length bytes units : Nat}

theorem delivers_tick {m : EvalM Value} {P : Value → Prop} (h : Delivers length bytes units m P) :
    Delivers length bytes units (tick >>= fun _ => m) P :=
  Delivers.tick.free_bind fun _ _ => h

theorem delivers_split (s p : String) (h : s.length + 1 ≤ length) :
    Delivers length bytes (s.length + 1) (callMethod call (.string s) "split" [.string p])
      (fun v => ∃ mark, v = .array mark (textItems (textPieces p s))) := by
  have hle := length_textPieces_le p s
  have hitems : (textItems (textPieces p s)).length = (textPieces p s).length := List.length_map _
  have harray : Delivers length bytes (textItems (textPieces p s)).length
      (newArray (textItems (textPieces p s))) _ := Delivers.new_array (by omega)
  exact delivers_tick (harray.mono (Nat.le_refl _) (Nat.le_refl _) (by omega))

theorem delivers_join (mark : Mark) (parts : List (List Char)) (r : String)
    (h : (String.ofList (r.toList.intercalate parts)).utf8ByteSize ≤ bytes) :
    Delivers length bytes (String.ofList (r.toList.intercalate parts)).utf8ByteSize
      (callMethod call (.array mark (textItems parts)) "join" [.string r])
      (· = .string (String.ofList (r.toList.intercalate parts))) := by
  refine delivers_tick ?_
  show Delivers _ _ _ (joinFrom (Value.string r).display "" true (textItems parts) >>= newString) _
  rw [display_string]
  refine (delivers_joinFrom r parts h).free_bind ?_
  rintro _ rfl
  exact .new_string h

theorem delivers_splitJoin {s p r t : String}
    (ht : t = String.ofList (r.toList.intercalate (textPieces p s))) (hl : s.length + 1 ≤ length)
    (hb : t.utf8ByteSize ≤ bytes) : Delivers length bytes (s.length + 1 + t.utf8ByteSize)
      (splitJoin call s p r) (· = .string t) := by
  refine (delivers_split s p hl).bind ?_
  rintro _ ⟨mark, rfl⟩
  rw [ht] at hb ⊢
  exact delivers_join mark _ r hb

theorem delivers_replaceAll {s p r : String} (hp : p ≠ "") {t : String}
    (ht : t = String.ofList (r.toList.intercalate (textPieces p s))) (hb : t.utf8ByteSize ≤ bytes) :
    Delivers length bytes t.utf8ByteSize
      (callMethod call (.string s) "replaceAll" [.string p, .string r]) (· = .string t) := by
  refine delivers_tick ?_
  show Delivers _ _ _ (replaceAll call (Value.string p).display.toList (.string r) s.toList >>=
    newString) _
  have hempty : ¬ p.toList.isEmpty = true := by
    rw [List.isEmpty_iff]
    exact toList_ne_nil hp
  rw [display_string, replaceAll, if_neg hempty]
  rw [textPieces_eq hp, ← String.empty_append (s := String.ofList _)] at ht
  refine (delivers_replaceAllFrom (toList_ne_nil hp) r s.toList "" (ht ▸ hb)).free_bind ?_
  rintro _ rfl
  rw [← ht]
  exact .new_string hb

/-- An empty pattern is replaced before each character and behind them all. -/
theorem delivers_replaceAll_empty {s r t : String}
    (ht : t = String.ofList (s.toList.flatMap fun c => r.toList ++ [c]) ++ r)
    (hb : t.utf8ByteSize ≤ bytes) : Delivers length bytes t.utf8ByteSize
      (callMethod call (.string s) "replaceAll" [.string "", .string r]) (· = .string t) := by
  refine delivers_tick ?_
  show Delivers _ _ _ (interleave call (.string r) "" s.toList >>= newString) _
  rw [← String.empty_append (s := String.ofList _)] at ht
  refine (delivers_interleave r s.toList "" (ht ▸ hb)).free_bind ?_
  rintro _ rfl
  rw [← ht]
  exact .new_string hb

theorem delivers_replace {s p r t : String}
    (ht : (cut? p.toList s.toList = none ∧ t = s) ∨
      ∃ before after, cut? p.toList s.toList = some (before, after) ∧
        t = String.ofList before ++ r ++ String.ofList after)
    (hb : t.utf8ByteSize ≤ bytes) : Delivers length bytes t.utf8ByteSize
      (callMethod call (.string s) "replace" [.string p, .string r]) (· = .string t) := by
  refine delivers_tick ?_
  show Delivers _ _ _ (replaceFirst call (Value.string p).display.toList (.string r) s.toList >>=
    newString) _
  rw [display_string]
  have hfirst : (cut? p.toList s.toList = none ∧ t = String.ofList s.toList) ∨
      ∃ before after, cut? p.toList s.toList = some (before, after) ∧
        t = String.ofList before ++ r ++ String.ofList after := by
    rwa [String.ofList_toList]
  refine (delivers_replaceFirst hfirst hb).free_bind ?_
  rintro _ rfl
  exact .new_string hb

theorem delivers_includes (s p : String) :
    Delivers length bytes 0 (callMethod call (.string s) "includes" [.string p])
      (· = .bool (cut? p.toList s.toList).isSome) := by
  refine delivers_tick ?_
  show Delivers _ _ _ (pure (Value.bool
    (Text.contains (Value.string p).display.toList s.toList))) _
  rw [display_string]
  exact .pure rfl

theorem delivers_indexOf (s p : String) :
    Delivers length bytes 0 (callMethod call (.string s) "indexOf" [.string p])
      (· = orMinusOne (indexOf? p.toList s.toList)) := by
  refine delivers_tick ?_
  show Delivers _ _ _ (pure (orMinusOne (indexFrom? (Value.string p).display.toList s.toList 0))) _
  have hfrom : indexFrom? p.toList s.toList 0 = indexOf? p.toList s.toList := by
    unfold indexFrom?
    rw [List.drop_zero, Option.map_congr fun i _ => Nat.zero_add i, Option.map_id']
  rw [display_string, hfrom]
  exact .pure rfl

theorem delivers_lastIndexOf (s p : String) :
    Delivers length bytes 0 (callMethod call (.string s) "lastIndexOf" [.string p])
      (· = orMinusOne (lastIndexOf? p.toList s.toList)) := by
  refine delivers_tick ?_
  show Delivers _ _ _ (pure (orMinusOne
    (lastIndexOf? (Value.string p).display.toList s.toList))) _
  rw [display_string]
  exact .pure rfl

theorem delivers_slice (s : String) {i k : Nat} (h : i + k ≤ Number.maxSafe) :
    Delivers length bytes 0 (callMethod call (.string s) "slice" [.ofNat i, .ofNat (i + k)])
      (· = .string (String.ofList ((s.toList.drop i).take k))) := by
  refine delivers_tick ?_
  show Delivers _ _ _ (pure (Value.string
    (String.ofList (sliceOf s.toList [.ofNat i, .ofNat (i + k)])))) _
  rw [slice_ofNat s.toList h]
  exact .pure rfl

end

/-- A text occurs in another one behind so many characters. -/
def OccursAt (p s : String) (i : Nat) : Prop :=
  p.toList <+: s.toList.drop i

/-- `t` is `s` with `r` in the place of the first occurrence of `p`, if there is one. -/
def FirstReplaced (p s r t : String) : Prop :=
  (∃ before after, s = before ++ p ++ after ∧ (∀ j < before.length, ¬ OccursAt p s j) ∧
    t = before ++ r ++ after) ∨
  (∀ i, ¬ OccursAt p s i) ∧ t = s

/-- All ways to ask whether a text occurs have the same answer. -/
structure SearchesAgree (call : Caller) (s p : String) (found : Bool) : Prop where
  occurs : found = true ↔ ∃ i, OccursAt p s i
  includes : Delivers 0 0 0 (callMethod call (.string s) "includes" [.string p]) (· = .bool found)
  indexOf : Delivers 0 0 0 (callMethod call (.string s) "indexOf" [.string p])
    fun i => applyBinary .ge i (.ofNat 0) = pure (.bool found)
  lastIndexOf : Delivers 0 0 0 (callMethod call (.string s) "lastIndexOf" [.string p])
    fun i => applyBinary .ge i (.ofNat 0) = pure (.bool found)
  split : Delivers (s.length + 1) 0 (s.length + 1)
    (callMethod call (.string s) "split" [.string p])
    fun parts => applyBinary .gt (member parts "length") (.ofNat 1) = pure (.bool found)

/-- `s.slice(i, i + p.length)`. -/
def sliceAt (call : Caller) (s p : String) (i : Value) : EvalM Value := do
  callMethod call (.string s) "slice" [i, ← applyBinary .add i (member (.string p) "length")]

/-- `indexOf` gives the first position where a text can be sliced out of another one. -/
structure SlicedFirst (call : Caller) (s p : String) (i : Nat) : Prop where
  indexOf : Delivers 0 0 0 (callMethod call (.string s) "indexOf" [.string p]) (· = .ofNat i)
  here : Delivers 0 0 0 (sliceAt call s p (.ofNat i)) (· = .string p)
  before : ∀ j < i, ∃ q ≠ p, Delivers 0 0 0 (sliceAt call s p (.ofNat j)) (· = .string q)

section

variable {call : Caller} {s p : String}

theorem exists_firstReplaced (call : Caller) (p s r : String) : ∃ t, FirstReplaced p s r t ∧
    Delivers 0 t.utf8ByteSize t.utf8ByteSize
      (callMethod call (.string s) "replace" [.string p, .string r]) (· = .string t) := by
  cases hcut : cut? p.toList s.toList with
  | none =>
    exact ⟨s, Or.inr ⟨cut?_eq_none_iff.1 hcut, rfl⟩,
      delivers_replace (Or.inl ⟨hcut, rfl⟩) (Nat.le_refl _)⟩
  | some cut =>
    obtain ⟨before, after⟩ := cut
    refine ⟨String.ofList before ++ r ++ String.ofList after,
      Or.inl ⟨String.ofList before, String.ofList after, ?_, fun j hj => ?_, rfl⟩,
      delivers_replace (Or.inr ⟨before, after, hcut, rfl⟩) (Nat.le_refl _)⟩
    · rw [← String.toList_inj]
      simpa using (cut?_append hcut).symm
    · rw [String.length_ofList] at hj
      exact not_prefix_of_cut? hcut j hj

theorem le_length_of_occursAt (hp : p ≠ "") {i : Nat} (h : OccursAt p s i) :
    i + p.length ≤ s.length := by
  rw [← String.length_toList, ← String.length_toList]
  exact add_length_le_of_prefix_drop (toList_ne_nil hp) h

theorem searchesAgree (hp : p ≠ "") :
    SearchesAgree call s p (cut? p.toList s.toList).isSome where
  occurs := isSome_cut?_iff
  includes := delivers_includes s p
  indexOf := by
    have hsome : (indexOf? p.toList s.toList).isSome = (cut? p.toList s.toList).isSome :=
      Option.isSome_map
    refine (delivers_indexOf s p).imp ?_
    rintro _ rfl
    rw [← hsome]
    exact orMinusOne_ge_zero _
  lastIndexOf := by
    refine (delivers_lastIndexOf s p).imp ?_
    rintro _ rfl
    rcases lastIndexOf?_spec (toList_ne_nil hp) s.toList with ⟨i, hi, -, heq⟩ | ⟨hcut, heq⟩
    · rw [isSome_cut?_iff.2 ⟨i, hi⟩, heq]
      exact orMinusOne_ge_zero (some i)
    · rw [hcut, heq]
      exact orMinusOne_ge_zero none
  split := by
    refine (delivers_split s p (Nat.le_refl _)).imp ?_
    rintro _ ⟨mark, rfl⟩
    have hlength : (textItems (textPieces p s)).length = (textPieces p s).length :=
      List.length_map _
    have hmany : decide (1 < (textPieces p s).length) = (cut? p.toList s.toList).isSome := by
      rw [textPieces_eq hp, Bool.eq_iff_iff, decide_eq_true_iff]
      exact one_lt_length_splitOn (toList_ne_nil hp) s.toList
    show applyBinary .gt (.ofNat (textItems (textPieces p s)).length) (.ofNat 1) = _
    rw [hlength, gt_ofNat _ (by decide), hmany]

/-- What is sliced out is the text if and only if it occurs there. -/
theorem delivers_sliceAt (call : Caller) (s p : String) {i : Nat}
    (h : i + p.length ≤ Number.maxSafe) :
    ∃ q, (q = p ↔ OccursAt p s i) ∧
      Delivers 0 0 0 (sliceAt call s p (.ofNat i)) (· = .string q) := by
  have hslice : sliceAt call s p (.ofNat i) =
      callMethod call (.string s) "slice" [.ofNat i, .ofNat (i + p.length)] := by
    have hlength : member (.string p) "length" = .ofNat p.length := rfl
    unfold sliceAt
    rw [hlength, add_ofNat h, pure_bind]
  rw [hslice]
  refine ⟨_, ?_, delivers_slice s h⟩
  unfold OccursAt
  rw [List.prefix_iff_eq_take, ← String.toList_inj, String.toList_ofList, String.length_toList]
  exact eq_comm

theorem exists_slicedFirst (hp : p ≠ "") (h : (cut? p.toList s.toList).isSome = true)
    (hs : s.length ≤ Number.maxSafe) : ∃ i, SlicedFirst call s p i := by
  obtain ⟨i, hi⟩ : ∃ i, indexOf? p.toList s.toList = some i := by
    rwa [← Option.isSome_iff_exists, indexOf?, Option.isSome_map]
  obtain ⟨hat, hfirst⟩ := indexOf?_eq_some_iff.1 hi
  have hle := le_length_of_occursAt hp hat
  refine ⟨i, ?_, ?_, fun j hj => ?_⟩
  · have hindex : Delivers 0 0 0 (callMethod call (.string s) "indexOf" [.string p]) _ :=
      delivers_indexOf s p
    rwa [hi] at hindex
  · have hsafe : i + p.length ≤ Number.maxSafe := by omega
    obtain ⟨q, hq, hdelivers⟩ := delivers_sliceAt call s p hsafe
    rwa [hq.2 hat] at hdelivers
  · have hsafe : j + p.length ≤ Number.maxSafe := by omega
    obtain ⟨q, hq, hdelivers⟩ := delivers_sliceAt call s p hsafe
    exact ⟨q, fun heq => hfirst j hj (hq.1 heq), hdelivers⟩

end

/-- Searching a text for another one, splitting it there, joining the pieces and replacing agree.
What is sliced out is asked of texts whose positions are doubles: those with fewer than `2 ^ 53`
characters, and no memory holds more. The loop that replaces ends, whatever the pattern and the
replacement are. -/
theorem split_search_replace_agree (call : Caller) (s p : String) :
    Delivers (s.length + 1) s.utf8ByteSize (s.length + 1 + s.utf8ByteSize)
      (splitJoin call s p p) (· = .string s) ∧
    (p ≠ "" → ∀ r : String, ∃ t : String,
      Delivers 0 t.utf8ByteSize t.utf8ByteSize
        (callMethod call (.string s) "replaceAll" [.string p, .string r]) (· = .string t) ∧
      Delivers (s.length + 1) t.utf8ByteSize (s.length + 1 + t.utf8ByteSize)
        (splitJoin call s p r) (· = .string t)) ∧
    (p ≠ "" → ∀ r : String, ∃ t : String, FirstReplaced p s r t ∧
      Delivers 0 t.utf8ByteSize t.utf8ByteSize
        (callMethod call (.string s) "replace" [.string p, .string r]) (· = .string t)) ∧
    (p ≠ "" → ∃ found, SearchesAgree call s p found ∧
      (found = true → s.length ≤ Number.maxSafe → ∃ i, SlicedFirst call s p i)) ∧
    (∀ (all : Bool) (replacer : Value), ∃ m : EvalM String,
      replaceLoop call all p.toList replacer (s.length + 1) false "" s.toList = some <$> m ∧
      callMethod call (.string s) (if all then "replaceAll" else "replace") [.string p, replacer] =
        (tick >>= fun _ => m >>= newString)) ∧
    (∀ (all : Bool) (r : String), ∃ t : String, Delivers 0 t.utf8ByteSize t.utf8ByteSize
      (callMethod call (.string s) (if all then "replaceAll" else "replace")
        [.string p, .string r]) (· = .string t)) := by
  refine ⟨?_, fun hp r => ?_, fun _ r => exists_firstReplaced call p s r, fun hp => ?_,
    fun all replacer => ?_, fun all r => ?_⟩
  · exact delivers_splitJoin (intercalate_textPieces p s).symm (Nat.le_refl _) (Nat.le_refl _)
  · exact ⟨_, delivers_replaceAll hp rfl (Nat.le_refl _),
      delivers_splitJoin rfl (Nat.le_refl _) (Nat.le_refl _)⟩
  · exact ⟨_, searchesAgree hp, exists_slicedFirst hp⟩
  · refine ⟨_, replaceLoop_ends all p.toList s.toList, ?_⟩
    rw [← display_string p]
    cases all with
    | true => rfl
    | false => rfl
  · cases all with
    | true =>
      by_cases hp : p = ""
      · rw [hp]
        exact ⟨_, delivers_replaceAll_empty rfl (Nat.le_refl _)⟩
      · exact ⟨_, delivers_replaceAll hp rfl (Nat.le_refl _)⟩
    | false =>
      obtain ⟨t, -, ht⟩ := exists_firstReplaced call p s r
      exact ⟨t, ht⟩

/-- Occurrences that overlap, of characters of several bytes. -/
theorem split_search_replace_agree_overlapping :
    ∃ i, SlicedFirst (callValue 1) "ééé" "éé" i := by
  obtain ⟨-, -, -, hsearch, -⟩ := split_search_replace_agree (callValue 1) "ééé" "éé"
  obtain ⟨found, hagree, hsliced⟩ := hsearch (by decide)
  have hfound : found = true := hagree.occurs.2 ⟨0, ['é'], rfl⟩
  exact hsliced hfound (by decide)

end Workflow.Eval
