import Workflow.Number.Literal
import Workflow.Text.Blank
import Workflow.Text.Digits
import Workflow.Text.Search
import Workflow.Time.Reader
import Workflow.Toml.Table

/-! Reading TOML documents. -/
namespace Workflow.Toml

open Text

/-- What is read from the start of a text, and the rest. -/
abbrev Parse (α : Type) :=
  List Char → Option (α × List Char)

def isGap (c : Char) : Bool :=
  c = ' ' || c = '\t'

def skipGaps (s : List Char) : List Char :=
  s.dropWhile isGap

/-- The characters that need no escape: tabs, and all that are no ASCII controls. -/
def isPlain (c : Char) : Bool :=
  c = '\t' || (0x20 ≤ c.toNat && c.toNat ≠ 0x7f)

def newline? : List Char → Option (List Char)
  | '\n' :: rest | '\r' :: '\n' :: rest => some rest
  | _ => none

def isNewline (s : List Char) : Bool :=
  (newline? s).isSome

/-- The text behind the end of a line, before which there can be white space and a comment. -/
def lineEnd? (s : List Char) : Option (List Char) :=
  let s := match skipGaps s with
    | '#' :: rest => rest.dropWhile isPlain
    | rest => rest
  if s.isEmpty then some [] else newline? s

/-- The text behind white space, lines and comments. -/
def skipLines (inComment : Bool) : List Char → Option (List Char)
  | [] => some []
  | '\n' :: rest | '\r' :: '\n' :: rest => skipLines false rest
  | c :: rest =>
    if inComment then (if isPlain c then skipLines true rest else none)
    else if c = '#' then skipLines true rest
    else if isGap c then skipLines false rest
    else some (c :: rest)

/-- The character that a letter stands for behind a backslash. -/
def escape? : Char → Option Char
  | 'b' => some '\x08'
  | 't' => some '\t'
  | 'n' => some '\n'
  | 'f' => some '\x0c'
  | 'r' => some '\r'
  | '\x22' => some '\x22'
  | '\\' => some '\\'
  | _ => none

/-- The character with a number written in hexadecimal digits. -/
def scalar? (s : List Char) : Option Char := do
  let n ← digits? 16 s
  if n.isValidChar then return Char.ofNat n else none

/-- The text up to a closing quote, behind the characters in `done`, last first. -/
def basicBody (done : List Char) : Parse (List Char)
  | '\x22' :: rest => some (done.reverse, rest)
  | '\\' :: 'u' :: a :: b :: c :: d :: rest => do
    basicBody ((← scalar? [a, b, c, d]) :: done) rest
  | '\\' :: 'U' :: a :: b :: c :: d :: e :: f :: g :: h :: rest => do
    basicBody ((← scalar? [a, b, c, d, e, f, g, h]) :: done) rest
  | '\\' :: c :: rest => do basicBody ((← escape? c) :: done) rest
  | c :: rest => if c ≠ '\\' ∧ isPlain c then basicBody (c :: done) rest else none
  | [] => none

/-- The same for texts of several lines, which end with three quotes, in front of which there can be
two more. While `trimming`, white space and line ends are passed over. -/
def basicLines (trimming : Bool) (done : List Char) : Parse (List Char)
  | '\x22' :: '\x22' :: '\x22' :: '\x22' :: '\x22' :: rest =>
    some (('\x22' :: '\x22' :: done).reverse, rest)
  | '\x22' :: '\x22' :: '\x22' :: '\x22' :: rest => some (('\x22' :: done).reverse, rest)
  | '\x22' :: '\x22' :: '\x22' :: rest => some (done.reverse, rest)
  | '\\' :: 'u' :: a :: b :: c :: d :: rest => do
    basicLines false ((← scalar? [a, b, c, d]) :: done) rest
  | '\\' :: 'U' :: a :: b :: c :: d :: e :: f :: g :: h :: rest => do
    basicLines false ((← scalar? [a, b, c, d, e, f, g, h]) :: done) rest
  | '\n' :: rest | '\r' :: '\n' :: rest =>
    basicLines trimming (if trimming then done else '\n' :: done) rest
  -- a backslash at the end of a line joins the next one to it
  | '\\' :: c :: rest =>
    if isNewline (skipGaps (c :: rest)) then basicLines true done (c :: rest)
    else do basicLines false ((← escape? c) :: done) rest
  | c :: rest =>
    if trimming && isGap c then basicLines true done rest
    else if c ≠ '\\' ∧ isPlain c then basicLines false (c :: done) rest
    else none
  | [] => none

/-- The text up to an apostrophe. -/
def literalBody : Parse (List Char) := fun s =>
  match s.span fun c => c ≠ '\'' && isPlain c with
  | (body, '\'' :: rest) => some (body, rest)
  | _ => none

/-- The same for texts of several lines, which end with three apostrophes, in front of which there
can be two more. -/
def literalLines (done : List Char) : Parse (List Char)
  | '\'' :: '\'' :: '\'' :: '\'' :: '\'' :: rest => some (('\'' :: '\'' :: done).reverse, rest)
  | '\'' :: '\'' :: '\'' :: '\'' :: rest => some (('\'' :: done).reverse, rest)
  | '\'' :: '\'' :: '\'' :: rest => some (done.reverse, rest)
  | '\n' :: rest | '\r' :: '\n' :: rest => literalLines ('\n' :: done) rest
  | c :: rest => if isPlain c then literalLines (c :: done) rest else none
  | [] => none

/-- The line end right behind an opening does not count. -/
def dropNewline (s : List Char) : List Char :=
  (newline? s).getD s

/-- A text in quotes or apostrophes. -/
def text? : Parse String := fun s =>
  let body := match s with
    | '\x22' :: '\x22' :: '\x22' :: rest => basicLines false [] (dropNewline rest)
    | '\x22' :: rest => basicBody [] rest
    | '\'' :: '\'' :: '\'' :: rest => literalLines [] (dropNewline rest)
    | '\'' :: rest => literalBody rest
    | _ => none
  body.map fun (t, rest) => (String.ofList t, rest)

def isBare (c : Char) : Bool :=
  c.isAlphanum || c = '_' || c = '-'

/-- One part of a key. -/
def keyPart : Parse String := fun s =>
  match s with
  | '\x22' :: rest => (basicBody [] rest).map fun (t, rest) => (String.ofList t, rest)
  | '\'' :: rest => (literalBody rest).map fun (t, rest) => (String.ofList t, rest)
  | _ =>
    match s.span isBare with
    | ([], _) => none
    | (name, rest) => some (String.ofList name, rest)

/-- How deep tables and arrays can be nested, and the parts that a key can have, are below this. -/
def depthBound : Nat :=
  80

/-- The parts of a dotted key, at most as many as the fuel, after the ones in `done`, last first. -/
def keyParts (done : List String) : (fuel : Nat) → Parse (List String)
  | 0, _ => none
  | fuel + 1, s => do
    let (part, rest) ← keyPart (skipGaps s)
    match skipGaps rest with
    | '.' :: later => keyParts (part :: done) fuel later
    | later => return ((part :: done).reverse, later)

/-- A key: the way to its table, and its name there. -/
def key : Parse (List String × String) := fun s => do
  let (parts, rest) ← keyParts [] (depthBound - 1) s
  return ((parts.dropLast, ← parts.getLast?), rest)

/-- Digits of a radix, between which there can be single underscores, without these. -/
def grouped? (radix : Nat) (s : List Char) : Option (List Char) :=
  let groups := splitWhen (· = '_') s
  if groups.all fun g => (digits? radix g).isSome then some groups.flatten else none

/-- Decimal digits that start with a zero only if there is no other. -/
def decimal? (s : List Char) : Option (List Char) := do
  let ds ← grouped? 10 s
  match ds with
  | '0' :: _ :: _ => none
  | _ => return ds

def dropSign : List Char → List Char
  | '+' :: rest | '-' :: rest => rest
  | s => s

/-- The bound of the sizes of numbers with a sign and 64 bits. -/
def signedBound : Nat :=
  0x8000_0000_0000_0000

/-- A whole number of 64 bits. -/
def integer? (s : List Char) : Option Int := do
  let unsigned (radix : Nat) (ds : List Char) : Option Int := signed? radix signedBound ds
  match s with
  | '0' :: 'x' :: rest => unsigned 16 (← grouped? 16 rest)
  | '0' :: 'o' :: rest => unsigned 8 (← grouped? 8 rest)
  | '0' :: 'b' :: rest => unsigned 2 (← grouped? 2 rest)
  | '-' :: rest => signed? 10 signedBound ('-' :: (← decimal? rest))
  | _ => unsigned 10 (← decimal? (dropSign s))

/-- The letter of an exponent with a sign and digits behind it. -/
def isExponent (s : List Char) : Bool :=
  match s with
  | [] => true
  | _ :: rest => (grouped? 10 (dropSign rest)).isSome

/-- Whether a text is a floating number that is not too great. -/
def isFloat (s : List Char) : Bool :=
  let body := dropSign s
  if body = "inf".toList ∨ body = "nan".toList then true
  else
    let (mantissa, exponent) := body.span fun c => c ≠ 'e' && c ≠ 'E'
    let shaped := match cutChar? '.' mantissa with
      | some (whole, fraction) => (decimal? whole).isSome && (grouped? 10 fraction).isSome
      | none => (decimal? mantissa).isSome && !exponent.isEmpty
    shaped && isExponent exponent &&
      (s.head? = some '-' || (Number.ofText (body.filter (· ≠ '_'))).isFinite)

namespace Stamp

open Time Reader

def date : Reader Unit := do
  let year ← digits 4 4
  char '-'
  let month ← pair 1 12
  char '-'
  let day ← pair 1 31
  if monthLength (isLeap year) month < day then throw .outOfRange

def time : Reader Unit := do
  let _ ← pair 0 23
  char ':'
  let _ ← pair 0 59
  char ':'
  let _ ← pair 0 60
  let _ ← fraction

def offset : Reader Unit := fun s =>
  match s with
  | [] => .ok ((), [])
  | 'Z' :: rest | 'z' :: rest => .ok ((), rest)
  | _ => (do
    let _ ← oneOf ['+', '-']
    let _ ← pair 0 23
    char ':'
    let _ ← pair 0 59 : Reader Unit) s

def dateTime : Reader Unit := do
  date
  let _ ← oneOf ['T', 't', ' ']
  time
  offset

/-- Whether a text is a date, a time, or both. -/
def isStamp (s : List Char) : Bool :=
  [date, time, dateTime].any fun r => (r.whole? s).isSome

end Stamp

/-- The characters of numbers, words and points in time. -/
def isAtomChar (c : Char) : Bool :=
  c.isAlphanum || c = '_' || c = '-' || c = '+' || c = '.' || c = ':'

/-- The characters of a value that is neither a text nor made of other values. Behind a date there
can be a blank and a time. -/
def atomRun (s : List Char) : List Char × List Char :=
  let (run, rest) := s.span isAtomChar
  match rest with
  | ' ' :: c :: later =>
    if c.isDigit && (Stamp.date.whole? run).isSome then
      let (time, rest) := (c :: later).span isAtomChar
      (run ++ ' ' :: time, rest)
    else (run, rest)
  | _ => (run, rest)

def atom : Parse Value := fun s =>
  let (run, rest) := atomRun s
  match integer? run with
  | some n => some (.integer n, rest)
  | none =>
    if run = "true".toList ∨ run = "false".toList ∨ isFloat run then some (.other, rest)
    else if Stamp.isStamp run then some (.stamp, rest)
    else none

mutual

/-- A value, with `depth` levels around it. The fuel is more than the characters that are left. -/
def value (depth : Nat) : (fuel : Nat) → Parse Value
  | 0, _ => none
  | fuel + 1, s =>
    match s with
    | '\x22' :: _ | '\'' :: _ => (text? s).map fun (t, rest) => (.text t, rest)
    | '[' :: rest =>
      if depth + 1 < depthBound then
        (items (depth + 1) [] fuel rest).map fun (vs, rest) => (.array vs, rest)
      else none
    | '\x7b' :: rest =>
      if depth + 1 < depthBound then
        (pairs (depth + 1) [] true fuel (skipGaps rest)).map fun (t, rest) =>
          (.table .inline t, rest)
      else none
    | _ => atom s
termination_by structural fuel => fuel

/-- The values up to a closing bracket, after those in `done`, last first. -/
def items (depth : Nat) (done : List Value) : (fuel : Nat) → Parse (List Value)
  | 0, _ => none
  | fuel + 1, s => do
    match ← skipLines false s with
    | ']' :: rest => return (done.reverse, rest)
    | s =>
      let (v, rest) ← value depth fuel s
      match ← skipLines false rest with
      | ',' :: rest => items depth (v :: done) fuel rest
      | ']' :: rest => return ((v :: done).reverse, rest)
      | _ => none
termination_by structural fuel => fuel

/-- The entries up to a closing brace, added to a table. The brace can come at once if `first`. -/
def pairs (depth : Nat) (table : Table) (first : Bool) : (fuel : Nat) → Parse Table
  | 0, _ => none
  | fuel + 1, s =>
    match first, s with
    | true, '\x7d' :: rest => some (table, rest)
    | _, _ => do
      let ((path, name), rest) ← key s
      match rest with
      | '=' :: rest =>
        let (v, rest) ← value depth fuel (skipGaps rest)
        let table ← addPair path name v .headed table
        match skipGaps rest with
        | ',' :: rest => pairs depth table false fuel (skipGaps rest)
        | '\x7d' :: rest => return (table, rest)
        | _ => none
      | _ => none
termination_by structural fuel => fuel

end

/-- A document as far as it was read, and the header that its next entries stand under. -/
structure Document where
  root : Table := []
  header : List String := []

namespace Document

/-- The key of a header, up to its closing. -/
def headerKey (close : List Char) (s : List Char) :
    Option ((List String × String) × List Char) := do
  let (k, rest) ← key s
  return (k, ← lineEnd? (← dropStart? close rest))

/-- The document with its next line, and the lines behind. -/
def line (d : Document) : Parse Document := fun s =>
  match s with
  | '[' :: '[' :: rest => do
    let ((path, name), rest) ← headerKey [']', ']'] rest
    return ({ root := ← openNext path name d.root, header := path ++ [name] }, rest)
  | '[' :: rest => do
    let ((path, name), rest) ← headerKey [']'] rest
    return ({ root := ← openTable path name d.root, header := path ++ [name] }, rest)
  | _ => do
    let ((path, name), rest) ← key s
    match rest with
    | '=' :: rest =>
      let (v, rest) ← value 0 (rest.length + 1) (skipGaps rest)
      let add : Change := fun _ => addPair path name v .headed
      return ({ d with root := ← descend .implied add d.header .headed d.root }, ← lineEnd? rest)
    | _ => none

/-- The document with all its lines. The fuel is more than the characters that are left. -/
def lines (d : Document) : (fuel : Nat) → List Char → Option Document
  | 0, _ => none
  | fuel + 1, s => do
    match ← skipLines false s with
    | [] => return d
    | s =>
      let (d, rest) ← d.line s
      d.lines fuel rest

end Document

/-- The table of a document. -/
def parse? (s : String) : Option Table :=
  let text := match s.toList with
    | '\ufeff' :: rest => rest
    | rest => rest
  (Document.lines {} (text.length + 1) text).map (·.root)

end Workflow.Toml
