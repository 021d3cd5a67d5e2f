import Mathlib.Tactic.Common
import Workflow.Eval.Run

/-! Evaluations that call no values. They touch the limits and the meter only through the few steps
listed in `CallFree`, so that what holds of these steps holds of every function of the language that
takes no callback. -/
namespace Workflow.Eval

/-- Built from steps that call no values, with no fault of their own that tells of fuel. -/
inductive CallFree : {α : Type} → EvalM α → Prop
  | pure {α : Type} (a : α) : CallFree (Pure.pure a)
  | bind {α β : Type} {m : EvalM α} {f : α → EvalM β} :
    CallFree m → (∀ a, CallFree (f a)) → CallFree (m >>= f)
  | fail {α : Type} {f : Fault} : f ≠ .exceeded .fuel → CallFree (fail f : EvalM α)
  | tick : CallFree tick
  | checkLength (length : Nat) : CallFree (checkLength length)
  | checkBytes (bytes : Nat) : CallFree (checkBytes bytes)
  | charge (units : Nat) : CallFree (charge units)
  | freshMark : CallFree freshMark
  /-- Looks at the time, the roots of the context and the named zones. -/
  | look {α : Type} {f : Setting → EvalM α} :
    (∀ s s' : Setting, s.now = s'.now → s.roots = s'.roots → s.zones = s'.zones → f s = f s') →
      (∀ s, CallFree (f s)) → CallFree (read >>= f)

namespace CallFree

theorem mismatch {α : Type} (cause : Mismatch) : CallFree (mismatch cause : EvalM α) :=
  fail nofun

theorem outOfRange {α : Type} (cause : Range) : CallFree (outOfRange cause : EvalM α) :=
  fail nofun

theorem orOutOfRange {α : Type} (cause : Range) (o : Option α) :
    CallFree (orOutOfRange cause o) := by
  cases o with
  | none => exact outOfRange cause
  | some a => exact pure a

theorem ofNow (g : Time.Timestamp → Value) : CallFree (do return g (← read).now) := by
  refine look (fun s s' hn _ _ => ?_) fun s => pure _
  rw [hn]

theorem reserveItems (length : Nat) : CallFree (reserveItems length) :=
  bind (checkLength length) fun _ => charge length

theorem reserveBytes (bytes : Nat) : CallFree (reserveBytes bytes) :=
  bind (checkBytes bytes) fun _ => charge bytes

theorem newString (s : String) : CallFree (newString s) :=
  bind (reserveBytes _) fun _ => pure _

theorem freeArray (items : List Value) : CallFree (freeArray items) :=
  bind freshMark fun _ => pure _

theorem newArray (items : List Value) : CallFree (newArray items) :=
  bind (reserveItems _) fun _ => freeArray items

theorem freeObject (entries : List (String × Value)) : CallFree (freeObject entries) :=
  bind freshMark fun _ => pure _

theorem lookup_congr {s s' : Setting} (hn : s.now = s'.now) (hr : s.roots = s'.roots) (env : Env)
    (name : String) : lookup? s env name = lookup? s' env name := by
  unfold lookup?
  rw [hn, hr]

theorem readName (env : Env) (name : String) : CallFree (readName env name) := by
  refine look (fun s s' hn hr _ => ?_) fun s => ?_
  · rw [lookup_congr hn hr]
  · cases lookup? s env name with
    | none => exact fail nofun
    | some v => exact pure v

theorem typeOfName (env : Env) (name : String) : CallFree (typeOfName env name) := by
  refine look (fun s s' hn hr _ => ?_) fun s => pure _
  rw [lookup_congr hn hr]

theorem readMember (v : Value) (key : String) : CallFree (readMember v key) := by
  unfold Eval.readMember
  split
  · exact mismatch _
  · exact pure _

theorem add (v w : Value) : CallFree (add v w) := by
  unfold Eval.add
  split
  · exact newString _
  · exact newString _
  · exact pure _

theorem applyBinary (op : BinaryOp) (v w : Value) : CallFree (applyBinary op v w) := by
  cases op
  case add => exact add v w
  all_goals exact pure _

theorem construct (callee : Value) (args : List Value) : CallFree (construct callee args) := by
  unfold Eval.construct
  split
  · refine look (fun s s' hn _ _ => ?_) fun s => bind (orOutOfRange _ _) fun _ => pure _
    rw [hn]
  · exact mismatch _

theorem callback (args : List Value) (i : Nat) (role : String) :
    CallFree (callback args i role) := by
  unfold Eval.callback
  dsimp only
  split
  · exact pure _
  · exact mismatch _

theorem toObject (v : Value) : CallFree (toObject v) := by
  unfold Eval.toObject
  split
  · exact pure _
  · exact pure _
  · exact freeObject _

theorem toArray (args : List Value) : CallFree (toArray args) := by
  unfold Eval.toArray
  split
  · split
    · exact outOfRange _
    · exact bind (reserveItems _) fun _ => freeArray _
  · exact newArray _

theorem itemsOf (v : Value) : CallFree (itemsOf v) := by
  unfold Eval.itemsOf
  split
  · exact pure _
  · exact pure _
  · exact bind (checkLength _) fun _ => pure _
  · exact pure _

theorem stringify (args : List Value) : CallFree (stringify args) := by
  unfold Eval.stringify
  split
  · exact pure _
  · exact newString _

theorem parseJson (s : String) : CallFree (parseJson s) := by
  unfold Eval.parseJson
  split
  · exact bind freshMark fun _ => pure _
  · exact fail nofun

theorem decodeUri (keep : List Char) (s : String) : CallFree (decodeUri keep s) := by
  unfold Eval.decodeUri
  split
  · exact pure _
  · exact fail nofun

theorem convert (s : Namespace) (args : List Value) : CallFree (convert s args) := by
  cases s
  case array => exact toArray args
  case object => exact toObject _
  case date => exact ofNow fun t => .string t.isoText
  case string | number | boolean => exact pure _
  all_goals exact mismatch _

theorem space (s : Namespace) (args : List Value) : CallFree
    (if s.isCallable then Eval.convert s args
      else Eval.mismatch (.notFunction (Value.space s).display)) := by
  split
  · exact convert s args
  · exact mismatch _

theorem amounts (entries : List (String × Value)) (sign : Float) :
    CallFree (amounts entries sign) := by
  unfold Eval.amounts
  induction entries with
  | nil => exact pure _
  | cons entry entries ih =>
    rw [List.mapM_cons]
    exact bind (bind (orOutOfRange _ _) fun _ => pure _) fun _ => bind ih fun _ => pure _

theorem shift (m : Time.Moment) (duration : Value) (sign : Float) :
    CallFree (shift m duration sign) := by
  unfold Eval.shift
  split
  · exact bind (orOutOfRange _ _) fun _ => pure _
  · refine bind (amounts _ _) fun amounts => ?_
    split
    · exact pure _
    · exact outOfRange _
    · exact outOfRange _
  · exact outOfRange _

theorem readZone (name : String) : CallFree (readZone name) := by
  refine look (fun s s' _ _ hz => ?_) fun s => orOutOfRange _ _
  rw [hz]

theorem momentMethod (m : Time.Moment) (method : MomentMethod) (args : List Value) :
    CallFree (momentMethod m method args) := by
  cases method
  case plus | minus => exact shift _ _ _
  case startOf | endOf =>
    exact bind (orOutOfRange _ _) fun _ => bind (orOutOfRange _ _) fun _ => pure _
  case setZone => exact bind (readZone _) fun _ => pure _
  all_goals exact pure _

theorem toFixed (x : Float) (places : Value) : CallFree (toFixed x places) := by
  unfold Eval.toFixed
  dsimp only
  split
  · exact outOfRange _
  · split
    · exact pure _
    · exact pure _

theorem toRadix (x : Float) (radix : Value) : CallFree (toRadix x radix) := by
  unfold Eval.toRadix
  split
  · exact pure _
  · dsimp only
    split
    · exact outOfRange _
    · exact pure _

theorem numberMethod (x : Float) (method : NumberMethod) (args : List Value) :
    CallFree (numberMethod x method args) := by
  cases method
  case toFixed => exact toFixed _ _
  case toString => exact toRadix _ _
  all_goals exact pure _

/-- The functions that come with the language take no callback, but for one. -/
theorem native {f : Native} (hf : f ≠ .arrayFrom) (call : Caller) (args : List Value) :
    CallFree (f.apply call args) := by
  cases f
  case arrayFrom => exact absurd rfl hf
  case encodeURIComponent | encodeURI | stringFromCharCode => exact newString _
  case decodeURIComponent | decodeURI => exact decodeUri _ _
  case nodeHelper h =>
    refine look (fun s s' _ hr _ => ?_) fun s => pure _
    rw [hr]
  case jsonStringify => exact stringify _
  case jsonParse => exact parseJson _
  case objectKeys | objectValues => exact freeArray _
  case objectEntries => exact bind freshMark fun _ => pure _
  case objectAssign => exact bind (reserveItems _) fun _ => freeObject _
  case objectFromEntries =>
    unfold Native.apply
    dsimp only
    split
    · exact freeObject _
    · exact freeObject _
  case arrayIsArray | numberIsInteger | numberIsFinite | numberIsNaN =>
    unfold Native.apply
    dsimp only
    split
    · exact pure _
    · exact pure _
  case arrayOf => exact newArray _
  case dateNow => exact ofNow fun t => .number (Number.ofInt t.toMillis)
  case dateTimeNow => exact ofNow fun t => .moment (.ofUtc t)
  case dateTimeUtc =>
    unfold Native.apply
    dsimp only
    split
    · exact ofNow fun t => .moment (.ofUtc t)
    · exact bind (orOutOfRange _ _) fun _ => pure _
  case dateTimeFromISO | dateTimeFromMillis => exact bind (orOutOfRange _ _) fun _ => pure _
  case dateTimeFromJSDate =>
    unfold Native.apply
    dsimp only
    split
    · exact pure _
    · exact outOfRange _
  all_goals exact pure _

theorem splitText (s : List Char) (args : List Value) : CallFree (splitText s args) :=
  newArray _

theorem pad (inFront : Bool) (s : String) (args : List Value) : CallFree (pad inFront s args) := by
  unfold Eval.pad
  extract_lets target fill length
  split
  · exact pure _
  · exact bind (reserveBytes _) fun _ => pure _

theorem repeated (s : String) (v : Value) : CallFree (repeated s v) := by
  unfold Eval.repeated
  dsimp only
  split
  · exact outOfRange _
  · exact bind (reserveBytes _) fun _ => pure _

theorem joinFrom (separator : String) (items : List Value) :
    ∀ out first, CallFree (joinFrom separator out first items) := by
  induction items with
  | nil => exact fun _ _ => pure _
  | cons v items ih => exact fun _ _ => bind (checkBytes _) fun _ => ih _ _

theorem concatFrom (args : List Value) : ∀ items, CallFree (concatFrom items args) := by
  induction args with
  | nil => exact fun _ => pure _
  | cons v args ih => exact fun _ => bind (checkLength _) fun _ => ih _

end CallFree

end Workflow.Eval
