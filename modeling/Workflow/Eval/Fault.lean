/-! Why an expression has no value. -/
namespace Workflow.Eval

/-- What is out of its range. -/
inductive Range where
  | arrayLength
  | count
  | digits
  | radix
  | date
  | moment
  | duration
  | unit
  | zone
  deriving Repr, DecidableEq

def Range.text : Range → String
  | .arrayLength => "Invalid array length"
  | .count => "Invalid count value"
  | .digits => "toFixed() digits argument must be between 0 and 100"
  | .radix => "toString() radix must be between 2 and 36"
  | .date => "Invalid Date"
  | .moment => "Invalid DateTime"
  | .duration => "Invalid duration"
  | .unit => "Invalid unit"
  | .zone => "Invalid zone"

/-- A limit that was exceeded. -/
inductive Excess where
  | collection (length limit : Nat)
  | string (bytes limit : Nat)
  | allocation (limit : Nat)
  | parsing (limit : Nat)
  | evaluation (limit : Nat)
  | chain
  | calls (limit : Nat)
  | fuel
  deriving Repr, DecidableEq

def Excess.text : Excess → String
  | .collection length limit =>
    "collection of " ++ toString length ++ " elements exceeds " ++ toString limit
  | .string bytes limit => "string of " ++ toString bytes ++ " bytes exceeds " ++ toString limit
  | .allocation limit => "evaluation allocated more than " ++ toString limit ++ " elements"
  | .parsing limit => "expression nesting deeper than " ++ toString limit
  | .evaluation limit => "evaluation nested deeper than " ++ toString limit
  | .chain => "member chain too long"
  | .calls limit => "function calls nested deeper than " ++ toString limit
  | .fuel => "calls nested too deep"

/-- A value in a role that it cannot play, given by its text. -/
inductive Mismatch where
  | notFunction (value : String)
  | notCallback (value method : String)
  | notConstructor (value : String)
  | noProperties (value key : String)
  | emptyReduce
  deriving Repr, DecidableEq

def Mismatch.text : Mismatch → String
  | .notFunction value => value ++ " is not a function"
  | .notCallback value method => value ++ " is not a function (" ++ method ++ ")"
  | .notConstructor value => value ++ " is not a constructor"
  | .noProperties value key =>
    "Cannot read properties of " ++ value ++ " (reading '" ++ key ++ "')"
  | .emptyReduce => "Reduce of empty array with no initial value"

inductive Fault where
  | unknownName (name : String)
  | mismatch (cause : Mismatch)
  | outOfRange (cause : Range)
  | malformedJson
  | malformedUri
  | exceeded (cause : Excess)
  | timeout (ms : Nat)
  deriving Repr, DecidableEq

def Fault.text : Fault → String
  | .unknownName name => "ReferenceError: " ++ name ++ " is not defined"
  | .mismatch cause => "TypeError: " ++ cause.text
  | .outOfRange cause => "RangeError: " ++ cause.text
  | .malformedJson => "SyntaxError"
  | .malformedUri => "URIError: URI malformed"
  | .exceeded cause => "resource limit exceeded: " ++ cause.text
  | .timeout ms => "expression timed out after " ++ toString ms ++ "ms"

end Workflow.Eval
