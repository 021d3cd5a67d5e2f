import Workflow.Issue
import Workflow.Text.Blank
import Workflow.Text.Digits

/-! Texts that are refused before they are read: too long, or with a turn of phrase on the deny
list. Letters, white space and word boundaries are those of ASCII, and case does not count. -/
namespace Workflow.Screen

/-- A part of a turn of phrase. -/
inductive Part where
  | word (s : String)
  | blanks
  | boundary
  | oneOf (s : String)
  | maybe (s : String)

def isWordChar (c : Char) : Bool :=
  c.isAlphanum || c = '_'

/-- What follows `word` at the start of `s`. -/
def dropWord? (word s : List Char) : Option (List Char) :=
  match word, s with
  | [], s => some s
  | w :: word, c :: s => if w.toLower = c.toLower then dropWord? word s else none
  | _ :: _, [] => none

/-- Whether the parts follow one another from the start of `s` on, behind the character `before`. -/
def startsWith (before : Option Char) : List Part → List Char → Bool
  | [], _ => true
  | .word w :: parts, s =>
    match dropWord? w.toList s with
    | some rest => startsWith w.toList.getLast? parts rest
    | none => false
  -- no part behind blanks begins with a blank, so it is safe to take all of them
  | .blanks :: parts, s =>
    startsWith ((s.takeWhile Text.isAsciiBlank).getLast?.or before) parts
      (s.dropWhile Text.isAsciiBlank)
  | .boundary :: parts, s =>
    before.any isWordChar != s.head?.any isWordChar && startsWith before parts s
  | .oneOf _ :: _, [] => false
  | .oneOf cs :: parts, c :: rest => cs.toList.contains c && startsWith (some c) parts rest
  | .maybe _ :: parts, [] => startsWith before parts []
  | .maybe cs :: parts, c :: rest =>
    if cs.toList.contains c then startsWith (some c) parts rest
    else startsWith before parts (c :: rest)

/-- Whether the parts follow one another somewhere in `s`. -/
def occurs (parts : List Part) (before : Option Char) : List Char → Bool
  | [] => startsWith before parts []
  | c :: rest => startsWith before parts (c :: rest) || occurs parts (some c) rest

/-- The deny list: turns of phrase, any of which is reported with the message. -/
def denied : List (List (List Part) × String) :=
  [([[.word "constructor", .blanks, .oneOf ".[", .blanks, .maybe "'\x22", .word "constructor"]],
      "constructor chain access is not allowed"),
    ([[.word "this", .blanks, .oneOf ".", .blanks, .word "constructor"]],
      "this.constructor is not allowed"),
    ([[.boundary, .word "process", .boundary]], "process is not allowed"),
    ([[.boundary, .word "require", .blanks, .oneOf "("]], "require() is not allowed"),
    ([[.boundary, .word "import", .blanks, .oneOf "("]], "dynamic import() is not allowed"),
    ([[.boundary, .word "eval", .blanks, .oneOf "("]], "eval() is not allowed"),
    ([[.boundary, .word "function", .blanks, .oneOf "("]], "Function() is not allowed"),
    ([[.word "__proto__"]], "__proto__ is not allowed"),
    ([[.oneOf ".", .blanks, .word "prototype", .boundary]], ".prototype is not allowed"),
    ([[.boundary, .word "globalthis", .boundary]], "globalThis is not allowed"),
    ([[.boundary, .word "global", .boundary]], "global is not allowed"),
    ([[.boundary, .word "module", .blanks, .oneOf "."]], "module is not allowed"),
    ([[.boundary, .word "exports", .boundary]], "exports is not allowed"),
    ([[.word "__dirname"], [.word "__filename"]], "host path globals are not allowed"),
    ([[.word "child_process"]], "child_process is not allowed")]

def forbidden (message : String) : Issue :=
  ⟨"expression", message, .forbiddenPattern⟩

def tooLong (length limit : Nat) : Issue :=
  ⟨"expression", "expression is " ++ toString length ++ " characters, limit is " ++ toString limit,
    .expressionTooLong⟩

/-- What speaks against a text. One that is too long is not searched. -/
def issues (limit : Nat) (source : String) : List Issue :=
  let s := source.toList
  if limit < s.length then [tooLong s.length limit]
  else
    (denied.filter fun (phrases, _) => phrases.any fun parts => occurs parts none s).map
      fun (_, message) => forbidden message

end Workflow.Screen
