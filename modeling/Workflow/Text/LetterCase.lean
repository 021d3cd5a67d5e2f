import Workflow.Unicode.CaseMap

/-! Upper and lower case of whole texts. -/
namespace Workflow.Text

open Unicode

/-- What a table of runs and a table of expansions make of a character beyond ASCII. -/
def mapCase (runs : List (Nat × Nat × Nat × Nat)) (expansions : List (Nat × List Nat)) (c : Char) :
    List Char :=
  let n := c.toNat
  match expansions.lookup n with
  | some expansion => expansion.map Char.ofNat
  | none =>
    match runs.find? fun (first, last, step, _) =>
        first ≤ n && n ≤ last && (n - first) % step = 0 with
    | some (first, _, _, target) => [Char.ofNat (target + (n - first))]
    | none => [c]

def upperChar (c : Char) : List Char :=
  if c.toNat < 0x80 then [c.toUpper] else mapCase upperRuns upperExpansions c

def lowerChar (c : Char) : List Char :=
  if c.toNat < 0x80 then [c.toLower] else mapCase lowerRuns lowerExpansions c

def upper (s : List Char) : List Char :=
  s.flatMap upperChar

/-- Whether the first character that is not ignorable is a letter with case. -/
def casedFirst (s : List Char) : Bool :=
  (s.dropWhile isCaseIgnorable).head?.any isCased

/-- Lower case of `s` behind the characters `before`, nearest first; a capital sigma at the end of
a word becomes a final sigma. -/
def lowerLoop (before done : List Char) : List Char → List Char
  | [] => done.reverse
  | c :: rest =>
    let image :=
      if c = '\u03a3' then [if casedFirst before && !casedFirst rest then '\u03c2' else '\u03c3']
      else lowerChar c
    lowerLoop (c :: before) (image.reverse ++ done) rest

def lower (s : List Char) : List Char :=
  lowerLoop [] [] s

end Workflow.Text
