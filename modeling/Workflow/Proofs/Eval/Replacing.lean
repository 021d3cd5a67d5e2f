import Workflow.Eval.ArrayMethods
import Workflow.Proofs.Eval.Affords
import Workflow.Proofs.Text.Search

/-! What replacing occurrences by a text and joining pieces around it come to, and that the loop
behind both methods of replacing ends. -/
namespace Workflow.Eval

open Text

section

variable {call : Caller} {length bytes : Nat}

theorem delivers_withReplacement {pattern r out : String}
    (h : (out ++ r).utf8ByteSize ≤ bytes) :
    Delivers length bytes 0 (withReplacement call pattern (.string r) out) (· = out ++ r) := by
  have hreplacement : replacement call pattern (.string r) = pure r :=
    congrArg pure (display_string r)
  have hbind : withReplacement call pattern (.string r) out =
      (checkBytes (out ++ r).utf8ByteSize >>= fun _ => pure (out ++ r)) := by
    unfold withReplacement
    rw [hreplacement, pure_bind]
  rw [hbind]
  refine (Delivers.check_bytes h).free_bind fun _ _ => ?_
  exact .pure rfl

/-- Texts in front are no larger. -/
theorem utf8ByteSize_le_of_eq_append {s t u : String} (h : u = s ++ t) {n : Nat}
    (hu : u.utf8ByteSize ≤ n) : s.utf8ByteSize ≤ n := by
  rw [h, String.utf8ByteSize_append] at hu
  exact Nat.le_trans (Nat.le_add_right _ _) hu

theorem replaceAllFrom_of_none {p s : List Char} {replacer : Value} (h : cut? p s = none)
    (out : String) : replaceAllFrom call p replacer out s = pure (out ++ String.ofList s) := by
  rw [replaceAllFrom]
  split
  · rfl
  · split
    · rfl
    · rename_i hcut
      rw [h] at hcut
      cases hcut

theorem replaceAllFrom_of_some {p s before after : List Char} {replacer : Value} (hp : p ≠ [])
    (h : cut? p s = some (before, after)) (out : String) :
    replaceAllFrom call p replacer out s =
      (withReplacement call (String.ofList p) replacer (out ++ String.ofList before) >>=
        fun out => replaceAllFrom call p replacer out after) := by
  rw [replaceAllFrom, dif_neg hp]
  split
  · rename_i hcut
    rw [h] at hcut
    cases hcut
  · rename_i hcut
    rw [h] at hcut
    cases hcut
    rfl

/-- The replacements stand between the pieces around the occurrences. -/
theorem delivers_replaceAllFrom {p : List Char} (hp : p ≠ []) (r : String) (s : List Char)
    (out : String)
    (h : (out ++ String.ofList (r.toList.intercalate (splitOn p s))).utf8ByteSize ≤ bytes) :
    Delivers length bytes 0 (replaceAllFrom call p (.string r) out s)
      (· = out ++ String.ofList (r.toList.intercalate (splitOn p s))) := by
  induction s using cut_induction hp generalizing out with
  | none s hcut =>
    rw [replaceAllFrom_of_none hcut, splitOn_of_none hcut, List.intercalate_singleton]
    exact .pure rfl
  | some s before after hcut ih =>
    have hout : out ++ String.ofList (r.toList.intercalate (splitOn p s)) =
        out ++ String.ofList before ++ r ++
          String.ofList (r.toList.intercalate (splitOn p after)) := by
      rw [splitOn_of_some hp hcut, List.intercalate_cons_of_ne_nil (splitOn_ne_nil hp after)]
      simp only [String.ofList_append, String.ofList_toList, String.append_assoc]
    rw [hout] at h ⊢
    rw [replaceAllFrom_of_some hp hcut]
    refine (delivers_withReplacement (utf8ByteSize_le_of_eq_append rfl h)).free_bind ?_
    rintro _ rfl
    exact ih _ h

/-- The replacement stands in the place of the first occurrence. -/
theorem delivers_replaceFirst {p s : List Char} {r t : String}
    (ht : (cut? p s = none ∧ t = String.ofList s) ∨
      ∃ before after, cut? p s = some (before, after) ∧
        t = String.ofList before ++ r ++ String.ofList after)
    (h : t.utf8ByteSize ≤ bytes) :
    Delivers length bytes 0 (replaceFirst call p (.string r) s) (· = t) := by
  unfold replaceFirst
  rcases ht with ⟨hcut, rfl⟩ | ⟨before, after, hcut, rfl⟩
  · rw [hcut]
    exact .pure rfl
  · rw [hcut]
    refine (delivers_withReplacement (utf8ByteSize_le_of_eq_append rfl h)).free_bind ?_
    rintro _ rfl
    exact .pure rfl

/-- A replacement stands before each character and behind them all. -/
theorem delivers_interleave (r : String) (s : List Char) (out : String)
    (h : (out ++ String.ofList (s.flatMap fun c => r.toList ++ [c]) ++ r).utf8ByteSize ≤ bytes) :
    Delivers length bytes 0 (interleave call (.string r) out s)
      (· = out ++ String.ofList (s.flatMap fun c => r.toList ++ [c]) ++ r) := by
  induction s generalizing out with
  | nil =>
    rw [List.flatMap_nil, String.ofList_nil, String.append_empty] at *
    exact delivers_withReplacement h
  | cons c s ih =>
    have hout : out ++ String.ofList ((c :: s).flatMap fun c => r.toList ++ [c]) ++ r =
        (out ++ r).push c ++ String.ofList (s.flatMap fun c => r.toList ++ [c]) ++ r := by
      rw [List.flatMap_cons, ← String.toList_inj]
      simp
    rw [hout] at h ⊢
    have hfront : (out ++ r).push c ++ String.ofList (s.flatMap fun c => r.toList ++ [c]) ++ r =
        out ++ r ++ (String.singleton c ++
          String.ofList (s.flatMap fun c => r.toList ++ [c]) ++ r) := by
      rw [← String.toList_inj]
      simp
    refine (delivers_withReplacement (utf8ByteSize_le_of_eq_append hfront h)).free_bind ?_
    rintro _ rfl
    exact ih _ h

/-- Pieces of a text as values. -/
def textItems (parts : List (List Char)) : List Value :=
  parts.map fun part => .string (String.ofList part)

theorem delivers_joinFrom_later (separator : String) (parts : List (List Char)) (out : String)
    (h : (out ++ String.ofList (parts.flatMap (separator.toList ++ ·))).utf8ByteSize ≤ bytes) :
    Delivers length bytes 0 (joinFrom separator out false (textItems parts))
      (· = out ++ String.ofList (parts.flatMap (separator.toList ++ ·))) := by
  induction parts generalizing out with
  | nil =>
    rw [List.flatMap_nil, String.ofList_nil, String.append_empty]
    exact .pure rfl
  | cons part parts ih =>
    have hout : out ++ String.ofList ((part :: parts).flatMap (separator.toList ++ ·)) =
        out ++ separator ++ String.ofList part ++
          String.ofList (parts.flatMap (separator.toList ++ ·)) := by
      rw [List.flatMap_cons, ← String.toList_inj]
      simp
    rw [hout] at h ⊢
    exact (Delivers.check_bytes (utf8ByteSize_le_of_eq_append rfl h)).free_bind
      fun _ _ => ih _ h

/-- Joined pieces have the separator between them. -/
theorem delivers_joinFrom (separator : String) (parts : List (List Char))
    (h : (String.ofList (separator.toList.intercalate parts)).utf8ByteSize ≤ bytes) :
    Delivers length bytes 0 (joinFrom separator "" true (textItems parts))
      (· = String.ofList (separator.toList.intercalate parts)) := by
  cases parts with
  | nil => exact .pure rfl
  | cons part parts =>
    have hout : String.ofList (separator.toList.intercalate (part :: parts)) =
        "" ++ String.ofList part ++ String.ofList (parts.flatMap (separator.toList ++ ·)) := by
      rw [intercalate_cons, String.ofList_append, String.empty_append]
    rw [hout] at h ⊢
    exact (Delivers.check_bytes (utf8ByteSize_le_of_eq_append rfl h)).free_bind
      fun _ _ => delivers_joinFrom_later _ _ _ h

/-- The loop of at most so many `rounds` that replaces the first occurrence, or `all` of them;
nothing if it would go on. `replaced` tells whether a round went before. An empty pattern also takes
over the character behind it. -/
def replaceLoop (call : Caller) (all : Bool) (pattern : List Char) (replacer : Value) :
    (rounds : Nat) → (replaced : Bool) → (out : String) → (rest : List Char) →
      EvalM (Option String)
  | 0, _, _, _ => pure none
  | rounds + 1, replaced, out, rest =>
    match cut? pattern rest with
    | none => pure (some (out ++ String.ofList rest))
    | some (before, after) =>
      if replaced && !all then pure (some (out ++ String.ofList rest))
      else do
        let out ← withReplacement call (String.ofList pattern) replacer
          (out ++ String.ofList before)
        if pattern.isEmpty then
          match after with
          | c :: after =>
            if all then replaceLoop call all pattern replacer rounds true (out.push c) after
            else pure (some (out ++ String.ofList (c :: after)))
          | [] => pure (some out)
        else replaceLoop call all pattern replacer rounds true out after

variable {replacer : Value}

theorem replaceLoop_of_none {all : Bool} {p s : List Char} (h : cut? p s = none) (rounds : Nat)
    (replaced : Bool) (out : String) : replaceLoop call all p replacer (rounds + 1) replaced out s =
      pure (some (out ++ String.ofList s)) := by
  unfold replaceLoop
  rw [h]

theorem replaceLoop_empty (s : List Char) {rounds : Nat} (h : s.length < rounds) (replaced : Bool)
    (out : String) : replaceLoop call true [] replacer rounds replaced out s =
      some <$> interleave call replacer out s := by
  induction s generalizing rounds replaced out with
  | nil =>
    obtain ⟨rounds, rfl⟩ := Nat.exists_eq_succ_of_ne_zero (Nat.ne_zero_of_lt h)
    unfold replaceLoop interleave
    rw [cut?_nil]
    simp only [Bool.not_true, Bool.and_false, Bool.false_eq_true, if_false, List.isEmpty_nil,
      if_true, String.ofList_nil, String.append_empty]
    exact (map_eq_pure_bind _ _).symm
  | cons c s ih =>
    obtain ⟨rounds, rfl⟩ := Nat.exists_eq_succ_of_ne_zero (Nat.ne_zero_of_lt h)
    unfold replaceLoop interleave
    rw [cut?_nil]
    simp only [Bool.not_true, Bool.and_false, Bool.false_eq_true, if_false, List.isEmpty_nil,
      if_true, String.ofList_nil, String.append_empty, map_bind]
    refine bind_congr fun out => ?_
    exact ih (Nat.lt_of_succ_lt_succ h) true (out.push c)

theorem replaceLoop_all {p : List Char} (hp : p ≠ []) (s : List Char) {rounds : Nat}
    (h : s.length < rounds) (replaced : Bool) (out : String) :
    replaceLoop call true p replacer rounds replaced out s =
      some <$> replaceAllFrom call p replacer out s := by
  induction s using cut_induction hp generalizing rounds replaced out with
  | none s hcut =>
    obtain ⟨rounds, rfl⟩ := Nat.exists_eq_succ_of_ne_zero (Nat.ne_zero_of_lt h)
    rw [replaceLoop_of_none hcut, replaceAllFrom_of_none hcut, map_pure]
  | some s before after hcut ih =>
    obtain ⟨rounds, rfl⟩ := Nat.exists_eq_succ_of_ne_zero (Nat.ne_zero_of_lt h)
    have hlt := length_after_lt hp hcut
    have hempty : ¬ p.isEmpty = true := by rwa [List.isEmpty_iff]
    rw [replaceAllFrom_of_some hp hcut, map_bind]
    unfold replaceLoop
    rw [hcut]
    simp only [Bool.not_true, Bool.and_false, Bool.false_eq_true, if_false, hempty]
    refine bind_congr fun out => ?_
    exact ih (by omega) true out

/-- After the first replacement the loop stops, whether or not there is another occurrence. -/
theorem replaceLoop_replaced {p : List Char} (s : List Char) (rounds : Nat) (out : String) :
    replaceLoop call false p replacer (rounds + 1) true out s =
      pure (some (out ++ String.ofList s)) := by
  unfold replaceLoop
  split
  · rfl
  · rfl

theorem replaceLoop_first (p s : List Char) :
    replaceLoop call false p replacer (s.length + 1) false "" s =
      some <$> replaceFirst call p replacer s := by
  cases hcut : cut? p s with
  | none =>
    rw [replaceLoop_of_none hcut, replaceFirst, hcut, String.empty_append, map_pure]
  | some cut =>
    obtain ⟨before, after⟩ := cut
    unfold replaceLoop replaceFirst
    rw [hcut]
    simp only [Bool.false_and, Bool.false_eq_true, if_false, String.empty_append, map_bind,
      map_pure]
    refine bind_congr fun out => ?_
    cases p with
    | nil =>
      cases after with
      | nil => simp
      | cons c after => rfl
    | cons d p =>
      -- the text has an occurrence of a pattern that is not empty, and so a character
      have hlt := length_after_lt (List.cons_ne_nil d p) hcut
      obtain ⟨rounds, hrounds⟩ := Nat.exists_eq_succ_of_ne_zero (Nat.ne_zero_of_lt hlt)
      rw [hrounds]
      exact replaceLoop_replaced after rounds out

/-- As many rounds as there are characters, and one more, are enough. -/
theorem replaceLoop_ends (all : Bool) (p s : List Char) :
    replaceLoop call all p replacer (s.length + 1) false "" s =
      some <$> if all then replaceAll call p replacer s else replaceFirst call p replacer s := by
  cases all with
  | false => exact replaceLoop_first p s
  | true =>
    cases p with
    | nil => exact replaceLoop_empty s (Nat.lt_succ_self _) false ""
    | cons d p => exact replaceLoop_all (List.cons_ne_nil d p) s (Nat.lt_succ_self _) false ""

end

end Workflow.Eval
