/-! Searching a text for another one, and cutting it there. -/
namespace Workflow.Text

/-- The text before and after the first occurrence of `p`; `seen` is what was passed, last first. -/
def cutLoop (p seen : List Char) : List Char → Option (List Char × List Char)
  | [] => if p.isEmpty then some (seen.reverse, []) else none
  | c :: rest =>
    if p.isPrefixOf (c :: rest) then some (seen.reverse, (c :: rest).drop p.length)
    else cutLoop p (c :: seen) rest

/-- The text before and after the first occurrence of `p`. -/
def cut? (p s : List Char) : Option (List Char × List Char) :=
  cutLoop p [] s

/-- Where `p` occurs first. -/
def indexOf? (p s : List Char) : Option Nat :=
  (cut? p s).map (·.1.length)

/-- Where `p` occurs last in a text whose first character has index `i`. -/
def lastIndexLoop (p : List Char) (i : Nat) (best : Option Nat) : List Char → Option Nat
  | [] => if p.isEmpty then some i else best
  | c :: rest =>
    lastIndexLoop p (i + 1) (if p.isPrefixOf (c :: rest) then some i else best) rest

/-- Where `p` occurs last. -/
def lastIndexOf? (p s : List Char) : Option Nat :=
  lastIndexLoop p 0 none s

def contains (p s : List Char) : Bool :=
  (cut? p s).isSome

theorem cutLoop_append {p seen s before after : List Char}
    (h : cutLoop p seen s = some (before, after)) : before ++ p ++ after = seen.reverse ++ s := by
  induction s generalizing seen with
  | nil => simp_all [cutLoop]
  | cons c rest ih =>
    simp only [cutLoop] at h
    split at h
    · rename_i hp
      obtain ⟨t, ht⟩ := List.isPrefixOf_iff_prefix.1 hp
      simp only [Option.some.injEq, Prod.mk.injEq] at h
      simp [← h.1, ← h.2, ← ht]
    · simpa using ih h

theorem cut?_append {p s before after : List Char} (h : cut? p s = some (before, after)) :
    before ++ p ++ after = s := by
  simpa using cutLoop_append h

/-- The pieces of `s` between the occurrences of `p`, after the pieces in `done`, last first. -/
def splitLoop (p : List Char) (done : List (List Char)) (s : List Char) : List (List Char) :=
  if _hp : p = [] then (s :: done).reverse
  else
    match _h : cut? p s with
    | none => (s :: done).reverse
    | some (before, after) => splitLoop p (before :: done) after
termination_by s.length
decreasing_by
  have := congrArg List.length (cut?_append _h)
  have := List.length_pos_iff.2 _hp
  simp only [List.length_append] at *
  omega

/-- The pieces of `s` between the occurrences of a text `p` that is not empty. -/
def splitOn (p s : List Char) : List (List Char) :=
  splitLoop p [] s

/-- The text before and after the first occurrence of the character `c`. -/
def cutChar? (c : Char) (s : List Char) : Option (List Char × List Char) :=
  match s.span (· != c) with
  | (_, []) => none
  | (before, _ :: after) => some (before, after)

/-- `s` without the given start. -/
def dropStart? (start s : List Char) : Option (List Char) :=
  if start.isPrefixOf s then some (s.drop start.length) else none

end Workflow.Text
