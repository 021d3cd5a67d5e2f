import Workflow.Cli.Reading
import Workflow.Config
import Workflow.Json.Parser
import Workflow.Json.Printer
import Workflow.Resolve
import Workflow.Schedule.Description

/-! What the commands do. -/
namespace Workflow.Cli

open Schedule Time

/-- What a command can ask of its surroundings: the text of a file or else what is wrong with it,
all that is left on the standard input, the time, and the zones that have names. -/
structure Surroundings (m : Type → Type) where
  file : String → m (Except String String)
  input : m String
  now : m Timestamp
  zones : ZoneDatabase := .known

/-- What a command prints, and its exit status. -/
structure Output where
  text : String := ""
  status : Nat := 0
  deriving Repr, DecidableEq

/-- Something that can fail with a problem. -/
abbrev Task (m : Type → Type) (α : Type) :=
  ExceptT Problem m α

/-- JSON on lines of its own. -/
def jsonLines (v : Json) : String :=
  v.pretty "  " ++ "\n"

variable {m : Type → Type} [Monad m]

def Source.read (w : Surroundings m) : Source → Task m String
  | .inline text => return text
  | .input => w.input
  | .file path => do
    match ← (w.file path : m (Except String String)) with
    | .ok text => return text
    | .error cause => throw (.internal ("Failed to read " ++ path ++ ": " ++ cause))

def Source.json (w : Surroundings m) (s : Source) : Task m Json := do
  match Json.parse? (← s.read w) with
  | some v => return v
  | none => throw (.internal "Invalid JSON")

def Source.context (w : Surroundings m) (s : Source) : Task m Context := do
  match Context.ofJson? (← s.json w) with
  | some ctx => return ctx
  | none => throw .json

def resolve (w : Surroundings m) (limits : Limits) (template : String)
    (item context : Option Source) : Task m Output := do
  let fallback := (← item.mapM (·.json w)).getD .null
  let context ← context.mapM (·.context w)
  let now ← w.now
  let resolver : Resolver := { limits, now, context, fallback, zones := w.zones }
  return { text := match resolver.template template with
    | .string s => s ++ "\n"
    | v => jsonLines v }

def eval (w : Surroundings m) (limits : Limits) (expression : String)
    (item context : Option Source) : Task m Output := do
  let ctx := (← context.mapM (·.context w)).getD {}
  let ctx ← match item with
    | some item => do pure (ctx.withJson (← item.json w))
    | none => pure ctx
  match evaluate limits (← w.now) expression ctx (fun _ => 0) w.zones with
  | .ok outcome => return { text := jsonLines outcome.toJson }
  | .error failure => throw (.ofFailure failure)

def validate (cron : String) : Output :=
  match Cron.issues cron.toList with
  | [] => { text := "✓ Valid: " ++ Schedule.describe cron.toList ++ "\n" }
  | issues =>
    { status := 1
      text := "✗ Invalid cron expression '" ++ cron ++ "'\n" ++ String.join (issues.map fun i =>
        "  - " ++ i.field ++ " [" ++ i.code.text ++ "]: " ++ i.message ++ "\n") }

/-- A schedule that has to be in order. -/
def ensureValid (cron : String) : Task m Unit := do
  match Cron.issues cron.toList with
  | [] => return
  | issues => throw (.validation issues)

def zoneOf (w : Surroundings m) (name : Option String) : Task m Zone := do
  match name with
  | none => return .utc
  | some name =>
    match Zone.parse? name w.zones with
    | some zone => return zone
    | none => throw (.unknownZone name)

def instantOf (s : String) : Task m Timestamp := do
  match Moment.ofStrict (Text.trim s.toList) with
  | .ok t => return t.utc
  | .error cause =>
    throw (.internal ("Invalid RFC3339 timestamp '" ++ s ++ "': " ++ cause.text))

/-- A row of a forecast: the time on the clocks of the zone, to milliseconds, and its distance. -/
def executionRow (zone : Zone) (e : Execution) : String :=
  let shown := match Timestamp.ofMillis? e.time.toMillis with
    | some t => (zone.convert t).offsetIsoText
    | none => e.time.isoText
  "  " ++ shown ++ spaces (26 - shown.length) ++ " " ++ e.relative ++ "\n"

def next (w : Surroundings m) (config : ScheduleConfig) (cron : String) (count : Option Nat)
    (start zone : Option String) : Task m Output := do
  ensureValid cron
  let zone ← zoneOf w zone
  let start ← match start with
    | some s => instantOf s
    | none => w.now
  let count := count.getD config.defaultCount
  let forecast := Schedule.forecast zone cron.toList count start config.iterationFactor
  let rows := String.join (forecast.executions.map (executionRow zone))
  let found := toString forecast.executions.length
  let note := if forecast.horizonReached then
    "\nOnly " ++ found ++ " of " ++ toString count ++
      " executions found within the search horizon.\n" else ""
  return { text :=
    Schedule.describe cron.toList ++ " (" ++ zone.name ++ ")\n\n" ++ rows ++ note }

def firesAt (w : Surroundings m) (cron instant : String) (zone : Option String) : Task m Output := do
  ensureValid cron
  let zone ← zoneOf w zone
  let moment := zone.convert (← instantOf instant)
  let shown := moment.offsetIsoText
  if Cron.textFiresAt cron.toList moment.wall then
    return { text := "✓ " ++ shown ++ " matches '" ++ cron ++ "'\n" }
  else
    return { text := "✗ " ++ shown ++ " does not match '" ++ cron ++ "'\n", status := 1 }

def convert (w : Surroundings m) (config : ScheduleConfig) (settings : Source) :
    Task m Output := do
  match Settings.ofJson? (← settings.json w) with
  | some s => return { text := jsonLines (.object (s.convert config.defaultCron w.zones).entries) }
  | none => throw (.internal "Invalid schedule settings")

def Command.run (w : Surroundings m) (config : Config) : Command → Task m Output
  | .resolve template item context timeoutMs =>
    let limits := { config.evaluator with
      timeoutMs := timeoutMs.getD config.evaluator.timeoutMs }
    Cli.resolve w limits template item context
  | .eval expression item context => Cli.eval w config.evaluator expression item context
  | .validate cron => return Cli.validate cron
  | .describe cron => return { text := Schedule.describe cron.toList ++ "\n" }
  | .next cron count start zone => Cli.next w config.schedule cron count start zone
  | .firesAt cron instant zone => Cli.firesAt w cron instant zone
  | .convert settings => Cli.convert w config.schedule settings
  | .completions => throw (.internal "no completions")

/-- The configuration: of the file that is named, or else of the usual one. -/
def configOf (w : Surroundings m) (env : Environment) (usual : String) (path : Option String) :
    Task m Config := do
  match path with
  | some path =>
    match ← (w.file path : m (Except String String)) with
    | .ok text => ExceptT.mk (pure (Config.read text env))
    | .error cause => throw (.io cause)
  | none =>
    let file ← (w.file usual : m (Except String String))
    return Config.load file.toOption env

def Invocation.run (w : Surroundings m) (env : Environment) (usual : String) (i : Invocation) :
    m Output := do
  let task : Task m Output := do
    i.command.run w (← configOf w env usual i.config)
  match ← task.run with
  | .ok output => return output
  | .error problem =>
    return { text := if i.json then jsonLines problem.toJson else "", status := 1 }

/-- The answer to a command line. -/
def answer (w : Surroundings m) (env : Environment) (usual : String) (words : List String) :
    m Output :=
  match Invocation.parse words with
  | .ok i => i.run w env usual
  | .error .usage => return { status := 2 }
  | .error (.help text) => return { text }
  | .error .version => return { text := versionText }

end Workflow.Cli
