import Mathlib.Algebra.GroupWithZero.Nat
import Mathlib.Data.List.TakeDrop
import Mathlib.Data.String.Basic
import Mathlib.Tactic.Common
import Workflow.Eval.Dates
import Workflow.Eval.StringMethods
import Workflow.Proofs.Text.Pieces
import Workflow.Proofs.Text.Search

/-! What methods take out of a text is part of it, and so are the pieces that a text is split into,
one after the other. -/
namespace Workflow

namespace Text

/-- The pieces after those that are done lie in the text that is left. -/
theorem flatten_splitLoop_sublist (p : List Char) (done : List (List Char)) (s : List Char) :
    (splitLoop p done s).flatten.Sublist (done.reverse.flatten ++ s) := by
  have hstop (done : List (List Char)) (s : List Char) :
      (s :: done).reverse.flatten = done.reverse.flatten ++ s := by
    rw [List.reverse_cons, List.flatten_append, List.flatten_singleton]
  induction done, s using splitLoop.induct p with
  | case1 done s hp => rw [splitLoop_of_none (Or.inl hp), hstop]
  | case2 done s hp hcut => rw [splitLoop_of_none (Or.inr hcut), hstop]
  | case3 done s hp before after hcut ih =>
    rw [splitLoop_of_some hp hcut]
    refine ih.trans ?_
    -- the separator is left out
    rw [hstop, ← cut?_append hcut, List.append_assoc, List.append_assoc]
    exact ((List.sublist_append_right p after).append_left before).append_left _

theorem flatten_splitOn_sublist (p s : List Char) : (splitOn p s).flatten.Sublist s :=
  flatten_splitLoop_sublist p [] s

theorem utf8Len_flatten (parts : List (List Char)) :
    String.utf8Len parts.flatten = (parts.map String.utf8Len).sum := by
  induction parts with
  | nil => rfl
  | cons part parts ih =>
    rw [List.flatten_cons, String.utf8Len_append, ih, List.map_cons, List.sum_cons]

theorem utf8ByteSize_join_replicate (n : Nat) (s : String) :
    (String.join (List.replicate n s)).utf8ByteSize = n * s.utf8ByteSize := by
  induction n with
  | zero => rw [List.replicate_zero, String.join_nil, Nat.zero_mul, String.utf8ByteSize_empty]
  | succ n ih =>
    rw [List.replicate_succ, String.join_cons, String.utf8ByteSize_append, ih, Nat.succ_mul,
      Nat.add_comm]

end Text

namespace Eval

theorem between_sublist {α : Type} (l : List α) (start stop : Nat) :
    (between l start stop).Sublist l :=
  (List.take_sublist _ _).trans (List.drop_sublist _ _)

theorem charAt?_sublist (s : List Char) (v : Value) : (charAt? s v).toList.Sublist s := by
  cases hc : charAt? s v with
  | none => exact List.nil_sublist _
  | some c =>
    unfold charAt? at hc
    dsimp only at hc
    split at hc
    · cases hc
    · exact List.singleton_sublist.2 (List.mem_of_getElem? hc)

theorem flatten_pieces_sublist (s : List Char) (separator : Value) :
    (pieces s separator).flatten.Sublist s := by
  unfold pieces
  split
  · rw [List.flatten_singleton]
  · split
    · rw [← List.flatMap_def, List.flatMap_singleton']
    · exact Text.flatten_splitOn_sublist _ s

/-- Date and time of day stand in the text of a moment. -/
theorem utf8ByteSize_dateText_le (m : Time.Moment) :
    (Time.dateText m.wall.date).utf8ByteSize ≤ m.isoText.utf8ByteSize := by
  unfold Time.Moment.isoText Time.timestampText
  simp only [String.utf8ByteSize_append]
  omega

theorem utf8ByteSize_timeText_le (s : String) : (timeText s).utf8ByteSize ≤ s.utf8ByteSize := by
  unfold timeText
  split
  · rename_i before time h
    unfold Text.cutChar? at h
    split at h
    · cases h
    · rename_i c after hspan
      cases h
      have hsplit := List.span_eq_takeWhile_dropWhile (p := (· != 'T')) (l := s.toList)
      rw [hspan] at hsplit
      have hdrop : c :: time = s.toList.dropWhile (· != 'T') := (Prod.mk.inj hsplit).2
      have hsub : time.Sublist s.toList :=
        (List.sublist_cons_self c time).trans (hdrop ▸ List.dropWhile_sublist _)
      rw [String.utf8ByteSize_ofList, ← String.utf8Len_toList]
      exact String.utf8Len_le_of_sublist hsub
  · exact Nat.zero_le _

end Eval

end Workflow
