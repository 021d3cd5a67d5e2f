import Workflow.Evaluate
import Workflow.Reference
import Workflow.Template

/-! Filling in the placeholders of templates. A placeholder that looks like code is evaluated; all
others, and those that cannot be evaluated, are read as references. -/
namespace Workflow

open Text

/-- The characters that make content look like code. -/
def operatorChars : List Char :=
  "+-*/%?:<>=!&|".toList

/-- The starts of calls that make content look like code. -/
def callMarkers : List String :=
  ["Math.", "JSON.", "Object.", "Array.", "DateTime."]

/-- Whether content looks like code. -/
def looksLikeCode (content : List Char) : Bool :=
  let s := trim content
  s = "$now".toList || s = "$today".toList || s.contains '(' || s.any operatorChars.contains ||
    callMarkers.any fun marker => Text.contains marker.toList s

/-- What a resolution works with. `item` stands for `$json` where the context has none. -/
structure Resolver where
  limits : Limits := {}
  now : Time.Timestamp
  context : Option Context
  fallback : Json
  zones : Time.ZoneDatabase := .known

namespace Resolver

/-- The current item. -/
def item (r : Resolver) : Json :=
  match r.context with
  -- a context without an item of its own
  | some ctx => if ctx.json.isNull then r.fallback else ctx.json
  | none => r.fallback

/-- The context in which content is evaluated. -/
def evaluationContext (r : Resolver) : Context :=
  match r.context with
  | some ctx => ctx.withJson r.item
  | none => .forItem r.item

/-- What the text of an expression yields, if no time goes by. -/
def evaluate (r : Resolver) (source : String) : Except Failure Outcome :=
  Workflow.evaluate r.limits r.now source r.evaluationContext (fun _ => 0) r.zones

/-- The value of the code in a placeholder, if it looks like code and can be evaluated. -/
def evaluated? (r : Resolver) (content : List Char) : Option Json :=
  if looksLikeCode content then
    match r.evaluate (String.ofList content) with
    | .ok outcome => some outcome.toJson
    | .error _ => none
  else none

/-- The value of the reference in a placeholder. -/
def referenced? (r : Resolver) (content : List Char) : Option Json := do
  (← Reference.parse? content).resolve? r.item r.context

/-- The value of a placeholder with the given content. -/
def content? (r : Resolver) (content : List Char) : Option Json :=
  let s := trim content
  if s.isEmpty then none else (r.evaluated? s).or (r.referenced? s)

/-- The text of a value inside a template. -/
def insertedText : Json → String
  | .string s => s
  | v => v.compact

/-- A piece of a template, with its value in place if it has one. -/
def pieceText (r : Resolver) (p : Piece) : String :=
  match p with
  | .text s => String.ofList s
  | .placeholder content =>
    match r.content? content with
    | some v => insertedText v
    | none => String.ofList p.source

/-- The value of a template: that of its only placeholder, or the text with all values in place. -/
def template (r : Resolver) (raw : String) : Json :=
  match Template.single? raw.toList with
  | some content => (r.content? content).getD (.string raw)
  | none => .string (String.join ((Template.pieces raw.toList).map r.pieceText))

mutual

/-- A value with all templates in it filled in. -/
def parameters (r : Resolver) : Json → Json
  | .string raw => r.template raw
  | .array items => .array (parameterItems r [] items)
  | .object entries => .object (parameterEntries r [] entries)
  | .null => .null
  | .bool b => .bool b
  | .number n => .number n
termination_by structural v => v

def parameterItems (r : Resolver) (done : List Json) : List Json → List Json
  | [] => done.reverse
  | v :: rest => parameterItems r (parameters r v :: done) rest
termination_by structural items => items

def parameterEntries (r : Resolver) (done : List (String × Json)) :
    List (String × Json) → List (String × Json)
  | [] => done.reverse
  | (key, v) :: rest => parameterEntries r ((key, parameters r v) :: done) rest
termination_by structural entries => entries

end

end Resolver

end Workflow
