import Workflow.Limits
import Workflow.Problem
import Workflow.Schedule.Cache
import Workflow.Schedule.Conversion
import Workflow.Schedule.Forecast
import Workflow.Toml.Table
import Workflow.Toml.Parser

/-! The configuration: defaults, in their place the sections of a file, and over these the
environment. -/
namespace Workflow

structure ScheduleConfig where
  /-- How many executions are listed when nothing is said. -/
  defaultCount : Nat := 10
  iterationFactor : Nat := Schedule.defaultFactor
  cacheCapacity : Nat := ({} : Schedule.Cache).capacity
  defaultCron : String := Schedule.defaultExpression
  deriving Repr, DecidableEq

namespace ScheduleConfig

/-- The names of the fields, in their order. -/
def names : List String :=
  ["default_count", "iteration_factor", "cache_capacity", "default_cron"]

def ofJson? (v : Json) : Option ScheduleConfig := do
  let default : ScheduleConfig := {}
  let size (value : Nat) := Json.withDefault value (Json.asNat? Json.sizeBound)
  match ← v.record? names with
  | [count, factor, capacity, cron] =>
    return {
      defaultCount := ← size default.defaultCount count
      iterationFactor := ← size default.iterationFactor factor
      cacheCapacity := ← size default.cacheCapacity capacity
      defaultCron := ← Json.withDefault default.defaultCron Json.asString? cron }
  | _ => none

def toJson (c : ScheduleConfig) : Json :=
  .ofEntries (names.zip [.ofNat c.defaultCount, .ofNat c.iterationFactor,
    .ofNat c.cacheCapacity, .string c.defaultCron])

end ScheduleConfig

structure Config where
  evaluator : Limits := {}
  schedule : ScheduleConfig := {}
  deriving Repr, DecidableEq

/-- The values of environment variables. -/
abbrev Environment :=
  String → Option String

namespace Config

/-- A section of a file. One given as an array has the values of the fields in their order, and what
is behind them does not count. -/
def section? (names : List String) (read : Json → Option α) (v : Json) : Option α :=
  match v with
  | .array items => read (.array (items.take names.length))
  | v => read v

/-- The configuration of a file: a section that is there takes the place of the default one. -/
def ofText? (text : String) : Option Config := do
  let file := (Toml.Value.table .headed (← Toml.parse? text)).toJson
  let default : Config := {}
  let evaluator := section? Limits.names Limits.ofJson?
  let schedule := section? ScheduleConfig.names ScheduleConfig.ofJson?
  return {
    evaluator := ← Json.withDefault default.evaluator evaluator (file.field? "evaluator")
    schedule := ← Json.withDefault default.schedule schedule (file.field? "schedule") }

/-- A whole number of 64 bits in the environment. -/
def number? (env : Environment) (name : String) : Option Nat := do
  Text.unsigned? 10 Json.sizeBound (← env name).toList

/-- The configuration under an environment. Times and factors of zero are passed over. -/
def underEnvironment (c : Config) (env : Environment) : Config :=
  let number := number? env
  let positive (name : String) := (number name).filter (0 < ·)
  { evaluator :=
      { c.evaluator with
        timeoutMs := (positive "FLOWEXPR_EVALUATOR_TIMEOUT_MS").getD c.evaluator.timeoutMs
        maxExpressionLength :=
          (number "FLOWEXPR_MAX_EXPRESSION_LENGTH").getD c.evaluator.maxExpressionLength }
    schedule :=
      { c.schedule with
        defaultCount := (number "FLOWEXPR_SCHEDULE_DEFAULT_COUNT").getD c.schedule.defaultCount
        iterationFactor :=
          (positive "FLOWEXPR_SCHEDULE_ITERATION_FACTOR").getD c.schedule.iterationFactor } }

/-- The configuration of the usual file, which can be missing or unreadable. -/
def load (text : Option String) (env : Environment) : Config :=
  ((text.bind ofText?).getD {}).underEnvironment env

/-- The configuration of a file that has to be in order. -/
def read (text : String) (env : Environment) : Except Problem Config :=
  match ofText? text with
  | none => .error .toml
  | some file =>
    let c := file.underEnvironment env
    if c.evaluator.timeoutMs = 0 then
      .error (.config "evaluator.timeout_ms must be positive")
    else if c.schedule.iterationFactor = 0 then
      .error (.config "schedule.iteration_factor must be positive")
    else .ok c

def toJson (c : Config) : Json :=
  .ofEntries [("evaluator", c.evaluator.toJson), ("schedule", c.schedule.toJson)]

end Config

end Workflow
