import Std.Time.DateTime.Timestamp
import Workflow.Cli.Run

/-! The program. -/
namespace Workflow

open Time

/-- All that is left of a stream, behind `seen`. -/
partial def readRest (stream : IO.FS.Stream) (seen : ByteArray) : IO ByteArray := do
  let chunk ← stream.read 65536
  if chunk.isEmpty then return seen else readRest stream (seen ++ chunk)

def readInput : IO String := do
  match String.fromUTF8? (← readRest (← IO.getStdin) .empty) with
  | some text => return text
  | none => throw (.userError "stream did not contain valid UTF-8")

def readFile (path : String) : IO (Except String String) := do
  try return .ok (← IO.FS.readFile path)
  catch
    | .noFileOrDirectory .. => return .error "No such file or directory (os error 2)"
    | cause => return .error (toString cause)

def currentTime : IO Timestamp := do
  let nanos := (← Std.Time.Timestamp.now).toNanosecondsSinceUnixEpoch.val
  return .ofNanos nanos

/-- The variables that configure the program. -/
def readEnvironment : IO Environment := do
  let names := ["FLOWEXPR_EVALUATOR_TIMEOUT_MS", "FLOWEXPR_MAX_EXPRESSION_LENGTH",
    "FLOWEXPR_SCHEDULE_DEFAULT_COUNT", "FLOWEXPR_SCHEDULE_ITERATION_FACTOR"]
  let values ← names.mapM fun name => return (name, ← IO.getEnv name)
  return fun name => (values.lookup name).join

/-- The path of the usual configuration file. -/
def usualConfig : IO String := do
  let tail := "/flowexpr/config.toml"
  match ← IO.getEnv "XDG_CONFIG_HOME" with
  | some path => if path.startsWith "/" then return path ++ tail
  | none => pure ()
  match ← IO.getEnv "HOME" with
  | some path =>
    if path.isEmpty then return ".flowexpr/config.toml" else return path ++ "/.config" ++ tail
  | none => return ".flowexpr/config.toml"

def surroundings : Cli.Surroundings IO :=
  { file := readFile, input := readInput, now := currentTime, zones := .known }

end Workflow

def main (words : List String) : IO UInt32 := do
  let output ← Workflow.Cli.answer Workflow.surroundings (← Workflow.readEnvironment)
    (← Workflow.usualConfig) words
  IO.print output.text
  return output.status.toUInt32
