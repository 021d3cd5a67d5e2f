/-! The names that expressions can use without declaring them, and the methods of values. -/
namespace Workflow.Eval

/-- The value under a name in a table. -/
def named? (table : List (String × α)) (name : String) : Option α :=
  table.lookup name

/-- Global objects. -/
inductive Namespace where
  | math | json | object | array | string | number | boolean | date | dateTime | console
  deriving Repr, DecidableEq

namespace Namespace

def table : List (String × Namespace) :=
  [("Math", math), ("JSON", json), ("Object", object), ("Array", array), ("String", string),
    ("Number", number), ("Boolean", boolean), ("Date", date), ("DateTime", dateTime),
    ("console", console)]

def name (s : Namespace) : String :=
  match s with
  | math => "Math"
  | json => "JSON"
  | object => "Object"
  | array => "Array"
  | string => "String"
  | number => "Number"
  | boolean => "Boolean"
  | date => "Date"
  | dateTime => "DateTime"
  | console => "console"

/-- Whether the object is also a function that converts to its kind of value. -/
def isCallable : Namespace → Bool
  | string | number | boolean | array | date | object => true
  | _ => false

end Namespace

inductive MathOp where
  | abs | ceil | floor | round | trunc | sign | sqrt | cbrt | exp | log | log2 | log10
  | sin | cos | tan | asin | acos | atan | atan2 | pow | hypot | max | min
  deriving Repr, DecidableEq

/-- Questions about the outputs of nodes. -/
inductive NodeHelper where
  | isExecuted | hasData | getNodeData | firstExecuted
  deriving Repr, DecidableEq

/-- Functions that come with the language. -/
inductive Native where
  | parseInt | parseFloat | isNaN | isFinite
  | encodeURIComponent | decodeURIComponent | encodeURI | decodeURI
  | nodeHelper (h : NodeHelper)
  | math (op : MathOp)
  | jsonStringify | jsonParse
  | objectKeys | objectValues | objectEntries | objectAssign | objectFromEntries
  | arrayIsArray | arrayFrom | arrayOf
  | numberIsInteger | numberIsFinite | numberIsNaN
  | stringFromCharCode
  | dateNow | dateParse
  | dateTimeNow | dateTimeUtc | dateTimeFromISO | dateTimeFromMillis | dateTimeFromJSDate
  | log
  deriving Repr, DecidableEq

namespace Native

def globals : List (String × Native) :=
  [("parseInt", parseInt), ("parseFloat", parseFloat), ("isNaN", isNaN), ("isFinite", isFinite),
    ("encodeURIComponent", encodeURIComponent), ("decodeURIComponent", decodeURIComponent),
    ("encodeURI", encodeURI), ("decodeURI", decodeURI), ("isExecuted", nodeHelper .isExecuted),
    ("hasData", nodeHelper .hasData), ("getNodeData", nodeHelper .getNodeData),
    ("firstExecuted", nodeHelper .firstExecuted)]

/-- The functions of a global object. -/
def members : Namespace → List (String × Native)
  | .math =>
    [("abs", math .abs), ("ceil", math .ceil), ("floor", math .floor), ("round", math .round),
      ("trunc", math .trunc), ("sign", math .sign), ("sqrt", math .sqrt), ("cbrt", math .cbrt),
      ("exp", math .exp), ("log", math .log), ("log2", math .log2), ("log10", math .log10),
      ("sin", math .sin), ("cos", math .cos), ("tan", math .tan), ("asin", math .asin),
      ("acos", math .acos), ("atan", math .atan), ("atan2", math .atan2), ("pow", math .pow),
      ("hypot", math .hypot), ("max", math .max), ("min", math .min)]
  | .json => [("stringify", jsonStringify), ("parse", jsonParse)]
  | .object =>
    [("keys", objectKeys), ("values", objectValues), ("entries", objectEntries),
      ("assign", objectAssign), ("fromEntries", objectFromEntries)]
  | .array => [("isArray", arrayIsArray), ("from", arrayFrom), ("of", arrayOf)]
  | .number =>
    [("isInteger", numberIsInteger), ("isFinite", numberIsFinite), ("isNaN", numberIsNaN),
      ("parseFloat", parseFloat), ("parseInt", parseInt)]
  | .string => [("fromCharCode", stringFromCharCode)]
  | .date => [("now", dateNow), ("parse", dateParse)]
  | .dateTime =>
    [("now", dateTimeNow), ("utc", dateTimeUtc), ("fromISO", dateTimeFromISO),
      ("fromMillis", dateTimeFromMillis), ("fromJSDate", dateTimeFromJSDate)]
  | .console => [("log", log), ("info", log), ("warn", log), ("error", log), ("debug", log)]
  | .boolean => []

end Native

/-- The numbers among the members of a global object. -/
def constants : Namespace → List (String × Float)
  | .math =>
    [("PI", 3.141592653589793), ("E", 2.718281828459045), ("LN2", 0.6931471805599453),
      ("LN10", 2.302585092994046), ("LOG2E", 1.4426950408889634), ("LOG10E", 0.4342944819032518),
      ("SQRT2", 1.4142135623730951), ("SQRT1_2", 0.7071067811865476)]
  | .number =>
    [("MAX_SAFE_INTEGER", 9007199254740991.0), ("MIN_SAFE_INTEGER", -9007199254740991.0),
      ("EPSILON", 2.220446049250313e-16), ("MAX_VALUE", 1.7976931348623157e308),
      ("MIN_VALUE", Float.ofBits 1), ("POSITIVE_INFINITY", 1.0 / 0.0),
      ("NEGATIVE_INFINITY", -1.0 / 0.0), ("NaN", 0.0 / 0.0)]
  | _ => []

inductive StringMethod where
  | toUpperCase | toLowerCase | trim | trimStart | trimEnd | includes | startsWith | endsWith
  | indexOf | lastIndexOf | slice | substring | split | replace | replaceAll | padStart | padEnd
  | repeat | charAt | charCodeAt | at | concat | localeCompare | toString | valueOf
  deriving Repr, DecidableEq

def StringMethod.table : List (String × StringMethod) :=
  [("toUpperCase", toUpperCase), ("toLowerCase", toLowerCase), ("trim", trim),
    ("trimStart", trimStart), ("trimEnd", trimEnd), ("includes", includes),
    ("startsWith", startsWith), ("endsWith", endsWith), ("indexOf", indexOf),
    ("lastIndexOf", lastIndexOf), ("slice", slice), ("substring", substring), ("split", split),
    ("replace", replace), ("replaceAll", replaceAll), ("padStart", padStart), ("padEnd", padEnd),
    ("repeat", .repeat), ("charAt", charAt), ("charCodeAt", charCodeAt), ("at", .at),
    ("concat", concat), ("localeCompare", localeCompare), ("toString", toString),
    ("valueOf", valueOf)]

inductive ArrayMethod where
  | map | filter | find | findIndex | some | every | forEach | reduce | flatMap | join | includes
  | indexOf | lastIndexOf | slice | concat | reverse | flat | at | sort | toString
  deriving Repr, DecidableEq

namespace ArrayMethod

def name : ArrayMethod → String
  | map => "map"
  | filter => "filter"
  | find => "find"
  | findIndex => "findIndex"
  | some => "some"
  | every => "every"
  | forEach => "forEach"
  | reduce => "reduce"
  | flatMap => "flatMap"
  | join => "join"
  | includes => "includes"
  | indexOf => "indexOf"
  | lastIndexOf => "lastIndexOf"
  | slice => "slice"
  | concat => "concat"
  | reverse => "reverse"
  | flat => "flat"
  | .at => "at"
  | sort => "sort"
  | toString => "toString"

def all : List ArrayMethod :=
  [map, filter, find, findIndex, some, every, forEach, reduce, flatMap, join, includes, indexOf,
    lastIndexOf, slice, concat, reverse, flat, .at, sort, toString]

def table : List (String × ArrayMethod) :=
  all.map fun m => (m.name, m)

end ArrayMethod

inductive NumberMethod where
  | toFixed | toString | toLocaleString | valueOf
  deriving Repr, DecidableEq

def NumberMethod.table : List (String × NumberMethod) :=
  [("toFixed", toFixed), ("toString", toString), ("toLocaleString", toLocaleString),
    ("valueOf", valueOf)]

inductive BoolMethod where
  | toString | valueOf
  deriving Repr, DecidableEq

def BoolMethod.table : List (String × BoolMethod) :=
  [("toString", toString), ("valueOf", valueOf)]

/-- Methods of dates in universal time; several names can stand for one of them. -/
inductive DateMethod where
  | time | year | month | day | weekday | hours | minutes | seconds | millis | offset | iso
  deriving Repr, DecidableEq

def DateMethod.table : List (String × DateMethod) :=
  [("getTime", time), ("valueOf", time), ("getFullYear", year), ("getMonth", month),
    ("getDate", day), ("getDay", weekday), ("getHours", hours), ("getMinutes", minutes),
    ("getSeconds", seconds), ("getMilliseconds", millis), ("getUTCFullYear", year),
    ("getUTCMonth", month), ("getUTCDate", day), ("getUTCDay", weekday), ("getUTCHours", hours),
    ("getUTCMinutes", minutes), ("getUTCSeconds", seconds), ("getTimezoneOffset", offset),
    ("toISOString", iso), ("toJSON", iso), ("toString", iso)]

inductive MomentMethod where
  | plus | minus | toFormat | toISODate | toISOTime | toMillis | toSeconds | toUnixInteger
  | startOf | endOf | setZone | toUTC | toJSDate | toISO
  deriving Repr, DecidableEq

def MomentMethod.table : List (String × MomentMethod) :=
  [("plus", plus), ("minus", minus), ("toFormat", toFormat), ("toISO", toISO),
    ("toISODate", toISODate), ("toISOTime", toISOTime), ("toMillis", toMillis),
    ("toSeconds", toSeconds), ("toUnixInteger", toUnixInteger), ("startOf", startOf),
    ("endOf", endOf), ("setZone", setZone), ("toUTC", toUTC), ("toJSDate", toJSDate),
    ("toString", toISO), ("toJSON", toISO), ("valueOf", toMillis)]

/-- Properties of points in time. -/
inductive MomentField where
  | year | quarter | month | day | hour | minute | second | millisecond | weekday | ordinal
  | offset | zoneName | monthLong | monthShort | weekdayLong | weekdayShort | isValid
  deriving Repr, DecidableEq

def MomentField.table : List (String × MomentField) :=
  [("year", year), ("quarter", quarter), ("month", month), ("day", day), ("hour", hour),
    ("minute", minute), ("second", second), ("millisecond", millisecond), ("weekday", weekday),
    ("ordinal", ordinal), ("offset", offset), ("zoneName", zoneName), ("monthLong", monthLong),
    ("monthShort", monthShort), ("weekdayLong", weekdayLong), ("weekdayShort", weekdayShort),
    ("isValid", isValid)]

end Workflow.Eval
