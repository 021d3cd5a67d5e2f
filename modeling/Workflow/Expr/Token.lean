import Workflow.Number.Layout
import Workflow.Text.Quoted

/-! The tokens of expressions, and why a text is not an expression. -/
namespace Workflow

/-- Punctuation. -/
inductive Mark where
  | leftParen | rightParen | leftBracket | rightBracket | leftBrace | rightBrace
  | comma | dot | questionDot | question | questionQuestion | colon | arrow
  | plus | minus | star | starStar | slash | percent | bang
  | lt | le | gt | ge | eqEq | notEq | eqEqEq | notEqEq | andAnd | orOr | semicolon
  deriving Repr, DecidableEq

namespace Mark

def spelling : Mark → String
  | leftParen => "(" | rightParen => ")" | leftBracket => "[" | rightBracket => "]"
  | leftBrace => "\x7b" | rightBrace => "\x7d"
  | comma => "," | dot => "." | questionDot => "?." | question => "?" | questionQuestion => "??"
  | colon => ":" | arrow => "=>"
  | plus => "+" | minus => "-" | star => "*" | starStar => "**" | slash => "/" | percent => "%"
  | bang => "!"
  | lt => "<" | le => "<=" | gt => ">" | ge => ">="
  | eqEq => "==" | notEq => "!=" | eqEqEq => "===" | notEqEq => "!=="
  | andAnd => "&&" | orOr => "||" | semicolon => ";"

/-- The name by which messages call a mark. -/
def label : Mark → String
  | leftParen => "LParen" | rightParen => "RParen"
  | leftBracket => "LBracket" | rightBracket => "RBracket"
  | leftBrace => "LBrace" | rightBrace => "RBrace"
  | comma => "Comma" | dot => "Dot" | questionDot => "QuestionDot" | question => "Question"
  | questionQuestion => "QuestionQuestion" | colon => "Colon" | arrow => "Arrow"
  | plus => "Plus" | minus => "Minus" | star => "Star" | starStar => "StarStar"
  | slash => "Slash" | percent => "Percent" | bang => "Bang"
  | lt => "Lt" | le => "Le" | gt => "Gt" | ge => "Ge"
  | eqEq => "EqEq" | notEq => "NotEq" | eqEqEq => "EqEqEq" | notEqEq => "NotEqEq"
  | andAnd => "AndAnd" | orOr => "OrOr" | semicolon => "Semicolon"

/-- All marks, none behind one that it begins with. -/
def longestFirst : List Mark :=
  [eqEqEq, notEqEq,
    questionDot, questionQuestion, arrow, starStar, le, ge, eqEq, notEq, andAnd, orOr,
    leftParen, rightParen, leftBracket, rightBracket, leftBrace, rightBrace, comma, dot, question,
    colon, plus, minus, star, slash, percent, bang, lt, gt, semicolon]

end Mark

/-- A part of a template literal before its holes are parsed. -/
inductive Chunk where
  | text (s : String)
  | source (s : String)
  deriving Repr, DecidableEq

inductive Token where
  | number (x : Float)
  | string (s : String)
  | template (chunks : List Chunk)
  | name (s : String)
  | mark (m : Mark)
  | stop

/-- A token and the byte at which it starts. -/
structure Spanned where
  token : Token
  offset : Nat

def listText (items : List String) : String :=
  "[" ++ ", ".intercalate items ++ "]"

def numberText (x : Float) : String :=
  "Number(" ++ Number.literalLayout.text x ++ ")"

def stringText (s : String) : String :=
  "Str(" ++ Text.quoted s ++ ")"

def nameText (s : String) : String :=
  "Ident(" ++ Text.quoted s ++ ")"

def Chunk.description : Chunk → String
  | .text s => "Text(" ++ Text.quoted s ++ ")"
  | .source s => "Expr(" ++ Text.quoted s ++ ")"

/-- What messages call a token. -/
def Token.description : Token → String
  | .number x => numberText x
  | .string s => stringText s
  | .template chunks => "Template(" ++ listText (chunks.map Chunk.description) ++ ")"
  | .name s => nameText s
  | .mark m => m.label
  | .stop => "Eof"

inductive Malformation where
  | unterminatedEscape
  | badUnicodeEscape
  | unterminatedString
  | unterminatedTemplate
  | unterminatedHole
  | invalidHex
  | invalidNumber (text : String)
  | assignment
  | unexpectedChar (c : Char)
  | unexpectedToken (t : Token)

def Malformation.text : Malformation → String
  | .unterminatedEscape => "Unterminated escape"
  | .badUnicodeEscape => "Bad unicode escape"
  | .unterminatedString => "Unterminated string"
  | .unterminatedTemplate => "Unterminated template literal"
  | .unterminatedHole => "Unterminated template hole"
  | .invalidHex => "Invalid hex literal"
  | .invalidNumber text => "Invalid number '" ++ text ++ "'"
  | .assignment => "Assignment is not allowed"
  | .unexpectedChar c => "Unexpected character '" ++ c.toString ++ "'"
  | .unexpectedToken t => "Unexpected token " ++ t.description

/-- A text is malformed at some byte, or nested deeper than the limit. -/
inductive ParseFault where
  | malformed (cause : Malformation) (offset : Nat)
  | tooDeep (limit : Nat)

end Workflow
