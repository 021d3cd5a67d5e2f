import Workflow.Text.Blank

/-! Texts with placeholders: content between double braces, in which single braces stand in pairs
and are not nested. -/
namespace Workflow

open Text

/-- A stretch of a template: text as it is, or a placeholder with the given content. -/
inductive Piece where
  | text (s : List Char)
  | placeholder (content : List Char)
  deriving Repr, DecidableEq

namespace Piece

/-- The piece as it stands in the template. -/
def source : Piece → List Char
  | .text s => s
  | .placeholder content => ['\x7b', '\x7b'] ++ content ++ ['\x7d', '\x7d']

end Piece

namespace Template

/-- Content up to two closing braces, behind the characters in `done`, last first, and what follows
it; `inner` says that a single brace is open. -/
def content? (inner : Bool) (done : List Char) : List Char → Option (List Char × List Char)
  | [] => none
  | c :: rest =>
    if inner then
      if c = '\x7b' then none else content? (c != '\x7d') (c :: done) rest
    else if c = '\x7b' then content? true (c :: done) rest
    else if c = '\x7d' then
      match rest with
      | '\x7d' :: after => some (done.reverse, after)
      -- a brace that closes nothing
      | _ => none
    else content? false (c :: done) rest

/-- The content of the placeholder at the start of `s`, and what follows it. -/
def placeholder? (s : List Char) : Option (List Char × List Char) :=
  match s with
  | '\x7b' :: '\x7b' :: rest => content? false [] rest
  | _ => none

theorem content?_append {inner : Bool} {done s t r : List Char}
    (h : content? inner done s = some (t, r)) :
    t ++ ['\x7d', '\x7d'] ++ r = done.reverse ++ s := by
  induction s generalizing inner done with
  | nil => simp [content?] at h
  | cons c rest ih =>
    unfold content? at h
    repeat' split at h
    all_goals first
      | contradiction
      | simpa using ih h
      | cases h; simp_all

theorem placeholder?_append {s t r : List Char} (h : placeholder? s = some (t, r)) :
    (Piece.placeholder t).source ++ r = s := by
  unfold placeholder? at h
  split at h
  · have := content?_append h
    simp_all [Piece.source]
  · contradiction

/-- A text piece, unless it is empty, in front of pieces that are kept last first. -/
def addText (seen : List Char) (done : List Piece) : List Piece :=
  if seen.isEmpty then done else .text seen.reverse :: done

/-- The pieces of `s` behind the characters `seen` and the pieces `done`, all last first. -/
def piecesFrom (seen : List Char) (done : List Piece) (s : List Char) : List Piece :=
  match s with
  | [] => (addText seen done).reverse
  | c :: rest =>
    match _h : placeholder? (c :: rest) with
    | some (content, after) => piecesFrom [] (.placeholder content :: addText seen done) after
    | none => piecesFrom (c :: seen) done rest
termination_by s.length
decreasing_by
  · have := congrArg List.length (placeholder?_append _h)
    simp only [Piece.source, List.length_append, List.length_cons, List.length_nil] at *
    omega
  · simp

/-- A template cut at its placeholders, the first one found from the left at each point. -/
def pieces (s : List Char) : List Piece :=
  piecesFrom [] [] s

/-- The content of a template that is one placeholder but for white space around it. -/
def single? (s : List Char) : Option (List Char) :=
  match placeholder? (trim s) with
  | some (content, []) => some content
  | _ => none

/-- A placeholder and the bytes it covers. -/
structure Span where
  start : Nat
  stop : Nat
  content : List Char

def byteSize (s : List Char) : Nat :=
  s.foldl (fun n c => n + c.utf8Size) 0

/-- The placeholders among pieces of which the first starts at byte `i`. -/
def spansFrom (i : Nat) : List Piece → List Span
  | [] => []
  | .text s :: rest => spansFrom (i + byteSize s) rest
  | p@(.placeholder content) :: rest =>
    let stop := i + byteSize p.source
    ⟨i, stop, content⟩ :: spansFrom stop rest

def spans (s : List Char) : List Span :=
  spansFrom 0 (pieces s)

end Template

end Workflow
