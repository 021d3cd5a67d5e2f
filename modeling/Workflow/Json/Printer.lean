import Workflow.Json.Basic
import Workflow.Number.Layout
import Workflow.Text.Digits

/-! JSON text, on one line or indented. Each writer puts its text behind `out`. -/
namespace Workflow

def Numeral.text : Numeral → String
  | .whole n => toString n
  | .double x => Number.jsonLayout.text x

namespace Json

/-- A character inside a text: quotes, backslashes and controls are escaped. -/
def escapeChar (c : Char) : List Char :=
  if c = '\x22' then ['\\', '\x22']
  else if c = '\\' then ['\\', '\\']
  else if c = '\x08' then ['\\', 'b']
  else if c = '\t' then ['\\', 't']
  else if c = '\n' then ['\\', 'n']
  else if c = '\x0c' then ['\\', 'f']
  else if c = '\r' then ['\\', 'r']
  else if c.toNat < 0x20 then ['\\', 'u', '0', '0'] ++ Text.padLeft 2 '0' (Text.ofNat 16 c.toNat)
  else [c]

def writeString (out : String) (s : String) : String :=
  (s.toList.foldl (fun out c => (escapeChar c).foldl String.push out) (out.push '\x22')).push '\x22'

mutual

def write (out : String) : Json → String
  | .null => out ++ "null"
  | .bool b => out ++ if b then "true" else "false"
  | .number n => out ++ n.text
  | .string s => writeString out s
  | .array items => (writeItems (out.push '[') true items).push ']'
  | .object entries => (writeEntries (out.push '\x7b') true entries).push '\x7d'
termination_by structural v => v

def writeItems (out : String) (first : Bool) : List Json → String
  | [] => out
  | v :: rest => writeItems (write (if first then out else out.push ',') v) false rest
termination_by structural items => items

def writeEntries (out : String) (first : Bool) : List (String × Json) → String
  | [] => out
  | (key, v) :: rest =>
    let start := writeString (if first then out else out.push ',') key
    writeEntries (write (start.push ':') v) false rest
termination_by structural entries => entries

end

/-- The text of a value without any white space. -/
def compact (v : Json) : String :=
  write "" v

/-- A new line, indented `level` times. -/
def newLine (indent : String) (level : Nat) (out : String) : String :=
  (List.replicate level indent).foldl (· ++ ·) (out.push '\n')

mutual

def writeIndented (indent : String) (level : Nat) (out : String) : Json → String
  | .array [] => out ++ "[]"
  | .array items =>
    (newLine indent level
      (writeIndentedItems indent (level + 1) (out.push '[') true items)).push ']'
  | .object [] => (out.push '\x7b').push '\x7d'
  | .object entries =>
    (newLine indent level
      (writeIndentedEntries indent (level + 1) (out.push '\x7b') true entries)).push '\x7d'
  | v => write out v
termination_by structural v => v

def writeIndentedItems (indent : String) (level : Nat) (out : String) (first : Bool) :
    List Json → String
  | [] => out
  | v :: rest =>
    let start := newLine indent level (if first then out else out.push ',')
    writeIndentedItems indent level (writeIndented indent level start v) false rest
termination_by structural items => items

def writeIndentedEntries (indent : String) (level : Nat) (out : String) (first : Bool) :
    List (String × Json) → String
  | [] => out
  | (key, v) :: rest =>
    let start := newLine indent level (if first then out else out.push ',')
    writeIndentedEntries indent level
      (writeIndented indent level (writeString start key ++ ": ") v) false rest
termination_by structural entries => entries

end

/-- The text of a value on lines of their own, `indent` before each level. -/
def pretty (indent : String) (v : Json) : String :=
  writeIndented indent 0 "" v

end Json

end Workflow
