import Workflow.Proofs.Eval.AtDepth

/-! How deep the values of expressions are nested. The expressions that are open around another one
add one level each to what calls carry over from one to the next, so that the limit to nesting
bounds the values as well, as long as nothing is carried over that is nested deeper itself. -/
namespace Workflow.Eval

def Value.isClosure : Value → Bool
  | .func (.closure ..) => true
  | _ => false

/-- Does `stop` behind an evaluation with a value that is nested deeper than `carried` levels. -/
def orStop (stop : EvalM Value) (carried : Nat) (m : EvalM Value) : EvalM Value := do
  let v ← m
  if v.nesting ≤ carried then return v else stop

/-- Calls a callback. What a function of the expression returns is no deeper than the expression is;
what another function returns is carried over. -/
def callBack (stop : EvalM Value) (carried : Nat) (call : Caller) : Caller := fun f args =>
  if f.isClosure then call f args else orStop stop carried (call f args)

/-- Calls a value as `callValue` does, but does `stop` where a call carries a collection over that
is nested deeper than `carried` levels: into a function of the expression, as an argument or a
variable in sight; out of a function of the language, to another one whose callback it is; and out
of a text. -/
def callShallow (stop : EvalM Value) (carried : Nat) : (fuel : Nat) → Caller
  | 0, _, _ => exceed .fuel
  | fuel + 1, callee, args =>
    let call : Caller := fun f given => callShallow stop carried fuel f given
    match callee with
    | .func (.closure params body env) =>
      if ∀ e ∈ bindParams params args env, e.2.nesting ≤ carried then
        callOnce call (.func (.closure params body env)) args
      else stop
    | .func (.native .jsonParse) =>
      orStop stop carried (callOnce call (.func (.native .jsonParse)) args)
    | callee => callOnce (callBack stop carried call) callee args

/-- The value of an expression without variables, unless a call carries something over that is
nested deeper than `carried` levels. -/
def runShallow (stop : EvalM Value) (carried : Nat) (e : Expr) : EvalM Value :=
  eval (callShallow stop carried callFuel) [] e

theorem call_shallow_cases (stop : EvalM Value) (carried fuel : Nat) (callee : Value)
    (args : List Value) :
    (∃ params body env, callee = .func (.closure params body env) ∧
      callShallow stop carried (fuel + 1) callee args =
        if ∀ e ∈ bindParams params args env, e.2.nesting ≤ carried then
          callOnce (callShallow stop carried fuel) callee args
        else stop) ∨
    (callee = .func (.native .jsonParse) ∧
      callShallow stop carried (fuel + 1) callee args =
        orStop stop carried (callOnce (callShallow stop carried fuel) callee args)) ∨
    ((∀ params body env, callee ≠ .func (.closure params body env)) ∧
      callee ≠ .func (.native .jsonParse) ∧
      callShallow stop carried (fuel + 1) callee args =
        callOnce (callBack stop carried (callShallow stop carried fuel)) callee args) := by
  unfold callShallow
  dsimp only
  split
  case h_1 params body env => exact .inl ⟨params, body, env, rfl, rfl⟩
  case h_2 => exact .inr (.inl ⟨rfl, rfl⟩)
  case h_3 hclosure hjson => exact .inr (.inr ⟨hclosure, hjson, rfl⟩)

/-- How deep the value of a step can be nested, with so many expressions open around it. -/
def Setting.room (s : Setting) (carried depth : Nat) : Nat :=
  carried + (s.limits.nesting - depth)

/-- The value of an expression inside of one at the depth: there is such an expression, and there is
a level less for its value. -/
def Inner (s : Setting) (carried depth : Nat) (v : Value) : Prop :=
  depth < s.limits.nesting ∧ Shallow (s.room carried (depth + 1)) v

/-- What is carried over may be nested, and no root of the context is nested deeper. -/
structure Setting.Shallow (s : Setting) (carried : Nat) : Prop where
  one : 1 ≤ carried
  roots : ∀ x v, named? s.roots x = some v → Eval.Shallow carried v

variable {s : Setting} {carried depth : Nat}

theorem Setting.le_room (s : Setting) (carried depth : Nat) : carried ≤ s.room carried depth :=
  Nat.le_add_right ..

theorem Setting.room_of_lt (h : depth < s.limits.nesting) :
    s.room carried depth = s.room carried (depth + 1) + 1 := by
  unfold Setting.room
  omega

namespace Inner

theorem shallow {v : Value} (h : Inner s carried depth v) : Shallow (s.room carried depth) v := by
  rw [Setting.room_of_lt h.1]
  exact h.2.deeper (Nat.le_succ _)

/-- An empty array takes one level, which is there. -/
theorem array (hc : 1 ≤ carried) (mark : Mark) {items : List Value}
    (h : ∀ v ∈ items, Inner s carried depth v) :
    Shallow (s.room carried depth) (.array mark items) := by
  cases items with
  | nil => exact Nat.le_trans hc (s.le_room carried depth)
  | cons v rest =>
    rw [Setting.room_of_lt (h v List.mem_cons_self).1]
    exact Shallow.array_iff.2 fun w hw => (h w hw).2

theorem object (hc : 1 ≤ carried) (mark : Mark) {entries : List (String × Value)}
    (h : ∀ e ∈ entries, Inner s carried depth e.2) :
    Shallow (s.room carried depth) (.object mark entries) := by
  cases entries with
  | nil => exact Nat.le_trans hc (s.le_room carried depth)
  | cons e rest =>
    rw [Setting.room_of_lt (h e List.mem_cons_self).1]
    exact Shallow.object_iff.2 fun e' he => (h e' he).2

end Inner

theorem Setting.Shallow.lookup (h : s.Shallow carried) {env : Env}
    (he : ∀ e ∈ env, Eval.Shallow carried e.2) {name : String} {v : Value}
    (hv : lookup? s env name = some v) : Eval.Shallow carried v := by
  rcases lookup?_cases hv with hv | hv | rfl | rfl | ⟨x, rfl⟩ | ⟨space, rfl⟩ | ⟨f, rfl⟩
  · exact he _ hv
  · exact h.roots name v hv
  all_goals exact Nat.zero_le _

theorem Setting.Shallow.read_name (h : s.Shallow carried) {env : Env}
    (he : ∀ e ∈ env, Eval.Shallow carried e.2) (name : String) :
    AtDepth s depth (Eval.Shallow carried) (readName env name) := by
  refine .free (.readName env name) (.look ?_)
  cases hv : lookup? s env name with
  | none => exact .fail
  | some v => exact .pure (h.lookup he hv)

/-- The value of a chain is nested no deeper than `n` levels, if it has one. -/
abbrev Link.Shallow (n : Nat) (link : Link) : Prop :=
  ∀ v ∈ link, Eval.Shallow n v

/-- Values that are nested no deeper than there is room can be called with such arguments, at the
cost of one level; a call of a function of the expression leaves room for that level. -/
structure CallsShallow (s : Setting) (carried : Nat) (call : Caller) : Prop where
  keeps : ∀ f args, KeepsDepth s (call f args)
  shallow : ∀ depth f args, Inner s carried depth f → (∀ v ∈ args, Inner s carried depth v) →
    AtDepth s depth (Shallow (s.room carried depth)) (call f args)
  closure : ∀ depth f args, f.isClosure = true →
    AtDepth s depth (Inner s carried depth) (call f args)

namespace AtDepth

theorem some_link {n : Nat} {m : EvalM Value} (hm : AtDepth s depth (Shallow n) m) :
    AtDepth s depth (Link.Shallow n) (some <$> m) :=
  hm.map fun _ hv _ hw => Option.some.inj hw ▸ hv

theorem as_value {m : EvalM Link}
    (hm : ∀ depth, AtDepth s depth (Link.Shallow (s.room carried depth)) m) :
    AtDepth s depth (Inner s carried depth) (asValue m) := by
  refine deeper fun _ => (hm (depth + 1)).bind fun link hl => pure ?_
  cases link with
  | none => exact Nat.zero_le _
  | some v => exact hl v rfl

theorem as_link (isChain : Bool) {m : EvalM Link}
    (hm : ∀ depth, AtDepth s depth (Link.Shallow (s.room carried depth)) m) :
    AtDepth s depth (fun link => ∀ v ∈ link, Inner s carried depth v) (asLink isChain m) := by
  cases isChain with
  | true =>
    show AtDepth s depth _ (Eval.deeper (fun _ => .chain) m)
    exact (deeper fun _ => hm (depth + 1)).mono fun link ⟨hlt, hl⟩ v hv => ⟨hlt, hl v hv⟩
  | false => exact (as_value hm).map fun _ hv _ hw => Option.some.inj hw ▸ hv

end AtDepth

section

variable {call : Caller} {env : Env}

mutual

theorem step_shallow (hs : s.Shallow carried) (hc : CallsShallow s carried call)
    (he : ∀ e ∈ env, Shallow carried e.2) : ∀ (e : Expr) (depth : Nat),
      AtDepth s depth (Link.Shallow (s.room carried depth)) (step call env e)
  | .literal value, _ => .pure fun v hv => by
    obtain rfl := Option.some.inj hv
    cases value
    all_goals exact Nat.zero_le _
  | .template fragments, depth => by
    simp only [step]
    -- of the values in the holes only the texts are left
    have hkeeps := KeepsDepth.of_calls hc.keeps (calls_only_fragments env "" fragments)
    exact (hkeeps depth).bind fun text _ =>
      (AtDepth.free (.newString _) (Shallow.new_string _)).some_link
  | .name name, depth => by
    have hname : AtDepth s depth (Shallow carried) (readName env name) := hs.read_name he name
    exact (hname.mono fun v hv => hv.deeper (s.le_room carried depth)).some_link
  | .array items, depth => by
    simp only [step]
    refine .skip (.reserveItems _) fun _ => ?_
    refine (step_items_shallow hs hc he items depth (List.forall_mem_nil _)).bind
      fun values hv => ?_
    refine (AtDepth.free (.freeArray _) ?_).some_link
    exact .after fun mark => .pure (Inner.array hs.one mark hv)
  | .object entries, depth => by
    simp only [step]
    refine .skip (.reserveItems _) fun _ => ?_
    refine (step_entries_shallow hs hc he entries depth (List.forall_mem_nil _)).bind
      fun values hv => ?_
    refine (AtDepth.free (.freeObject _) ?_).some_link
    exact .after fun mark => .pure (Inner.object hs.one mark fun e he =>
      hv e (Fields.mem_of_mem_ofList he))
  | .member e name optional, depth => by
    simp only [step]
    refine (AtDepth.as_link _ (step_shallow hs hc he e)).bind fun link hl => ?_
    split
    · split
      · exact .pure nofun
      · exact (AtDepth.read_member (hl _ rfl).shallow _).some_link
    · exact .pure nofun
  | .index e key optional, depth => by
    simp only [step]
    refine (AtDepth.as_link _ (step_shallow hs hc he e)).bind fun link hl => ?_
    split
    · split
      · exact .pure nofun
      · refine (AtDepth.as_value (step_shallow hs hc he key)).bind fun key _ => ?_
        exact (AtDepth.read_member (hl _ rfl).shallow _).some_link
    · exact .pure nofun
  | .call e args optional, depth => by
    simp only [step]
    refine (AtDepth.as_link _ (step_shallow hs hc he e)).bind fun link hl => ?_
    split
    · split
      · exact .pure nofun
      -- the level that the call adds is the one that its callee and arguments leave
      · refine (step_items_shallow hs hc he args depth (List.forall_mem_nil _)).bind
          fun values hv => ?_
        exact (hc.shallow depth _ values (hl _ rfl) hv).some_link
    · exact .pure nofun
  | .construct e args, depth => by
    simp only [step]
    refine (AtDepth.as_value (step_shallow hs hc he e)).bind fun callee _ => ?_
    refine (step_items_shallow hs hc he args depth (List.forall_mem_nil _)).bind
      fun values _ => ?_
    exact (AtDepth.construct callee values).some_link
  | .unary op e, depth => by
    -- the type of a name is read without evaluating the name
    by_cases hname : ∃ name, op = .typeOf ∧ e = .name name
    · obtain ⟨name, rfl, rfl⟩ := hname
      have hread : AtDepth s depth (Shallow (s.room carried depth)) (typeOfName env name) :=
        .free (.typeOfName env name) (.look (.pure (Nat.zero_le _)))
      exact hread.some_link
    · have hstep : step call env (.unary op e) =
          (do return some (applyUnary op (← asValue (step call env e)))) := by
        rw [step]
        exact fun name ho hn => hname ⟨name, ho, hn⟩
      rw [hstep]
      refine (AtDepth.as_value (step_shallow hs hc he e)).bind fun v _ => .pure fun w hw => ?_
      obtain rfl := Option.some.inj hw
      cases op
      all_goals exact Nat.zero_le _
  | .binary op left right, depth => by
    simp only [step]
    refine (AtDepth.as_value (step_shallow hs hc he left)).bind fun v _ => ?_
    refine (AtDepth.as_value (step_shallow hs hc he right)).bind fun w _ => ?_
    exact (AtDepth.apply_binary op v w).some_link
  | .logical op left right, depth => by
    simp only [step]
    refine (AtDepth.as_value (step_shallow hs hc he left)).bind fun v hv => ?_
    split
    · exact .pure fun w hw => Option.some.inj hw ▸ hv.shallow
    · exact ((AtDepth.as_value (step_shallow hs hc he right)).mono fun _ h => h.shallow).some_link
  | .conditional test consequent alternate, depth => by
    simp only [step]
    refine (AtDepth.as_value (step_shallow hs hc he test)).bind fun v _ => ?_
    split
    · exact ((AtDepth.as_value (step_shallow hs hc he consequent)).mono fun _ h =>
        h.shallow).some_link
    · exact ((AtDepth.as_value (step_shallow hs hc he alternate)).mono fun _ h =>
        h.shallow).some_link
  -- what a function sees is checked when it is called
  | .arrow params body, _ => .pure fun v hv => by
    obtain rfl := Option.some.inj hv
    exact Nat.zero_le _
termination_by structural e => e

theorem step_items_shallow (hs : s.Shallow carried) (hc : CallsShallow s carried call)
    (he : ∀ e ∈ env, Shallow carried e.2) : ∀ (items : List Expr) (depth : Nat) {done : List Value},
      (∀ v ∈ done, Inner s carried depth v) →
        AtDepth s depth (fun values => ∀ v ∈ values, Inner s carried depth v)
          (stepItems call env done items)
  | [], _, _, hd => .pure fun v hv => hd v (List.mem_reverse.1 hv)
  | e :: rest, depth, _, hd => by
    simp only [stepItems]
    refine (AtDepth.as_value (step_shallow hs hc he e)).bind fun v hv => ?_
    exact step_items_shallow hs hc he rest depth (List.forall_mem_cons.2 ⟨hv, hd⟩)
termination_by structural items => items

theorem step_entries_shallow (hs : s.Shallow carried) (hc : CallsShallow s carried call)
    (he : ∀ e ∈ env, Shallow carried e.2) : ∀ (entries : List (String × Expr)) (depth : Nat)
      {done : List (String × Value)}, (∀ e ∈ done, Inner s carried depth e.2) →
        AtDepth s depth (fun values => ∀ e ∈ values, Inner s carried depth e.2)
          (stepEntries call env done entries)
  | [], _, _, hd => .pure fun e he => hd e (List.mem_reverse.1 he)
  | (key, e) :: rest, depth, _, hd => by
    simp only [stepEntries]
    refine (AtDepth.as_value (step_shallow hs hc he e)).bind fun v hv => ?_
    exact step_entries_shallow hs hc he rest depth (List.forall_mem_cons.2 ⟨hv, hd⟩)
termination_by structural entries => entries

end

end

theorem eq_closure_of_isClosure {f : Value} (h : f.isClosure = true) :
    ∃ params body env, f = .func (.closure params body env) := by
  unfold Value.isClosure at h
  split at h
  · exact ⟨_, _, _, rfl⟩
  · cases h

section

variable {stop : EvalM Value} (hstop : Ensures s (fun _ => False) stop)
include hstop

theorem AtDepth.stopped {post : Value → Prop} : AtDepth s depth post stop :=
  fun t v t' _ h => (hstop t v t' h).elim

theorem AtDepth.or_stop {m : EvalM Value} (hm : KeepsDepth s m) :
    AtDepth s depth (Shallow carried) (orStop stop carried m) := by
  refine (hm depth).bind fun v _ => ?_
  split
  · rename_i hv
    exact pure hv
  · exact stopped hstop

theorem KeepsDepth.call_back {call : Caller} (hc : ∀ f args, KeepsDepth s (call f args)) (f : Value)
    (args : List Value) : KeepsDepth s (callBack stop carried call f args) := by
  unfold callBack
  split
  · exact hc f args
  · exact fun depth => (AtDepth.or_stop hstop (hc f args)).mono fun _ _ => trivial

/-- What a callback returns is nested no deeper than the values of expressions at the depth. -/
theorem CallsShallow.calls_back {call : Caller} (hc : CallsShallow s carried call) :
    CallsBack s depth (s.room carried (depth + 1)) (callBack stop carried call) where
  keeps := KeepsDepth.call_back hstop hc.keeps
  shallow f args _ _ := by
    unfold callBack
    split
    · rename_i hf
      exact (hc.closure depth f args hf).mono fun v hv => hv.2
    · exact (AtDepth.or_stop hstop (hc.keeps f args)).mono fun v hv => hv.deeper (s.le_room _ _)

theorem KeepsDepth.call_shallow (fuel : Nat) (callee : Value) (args : List Value) :
    KeepsDepth s (callShallow stop carried fuel callee args) := by
  induction fuel generalizing callee args with
  | zero => exact fun _ => .fail
  | succ fuel ih =>
    have honce := of_calls ih (calls_only_once callee args)
    rcases call_shallow_cases stop carried fuel callee args with
      ⟨params, body, env, -, he⟩ | ⟨-, he⟩ | ⟨-, -, he⟩
    · rw [he]
      split
      · exact honce
      · exact fun _ => AtDepth.stopped hstop
    · rw [he]
      exact fun depth => (AtDepth.or_stop hstop honce).mono fun _ _ => trivial
    · rw [he]
      exact of_calls (call_back hstop ih) (calls_only_once callee args)

variable (hs : s.Shallow carried)
include hs

omit hstop in
/-- What a function of the expression sees is carried over to it. -/
theorem CallsShallow.call_closure {call : Caller} (hc : CallsShallow s carried call)
    {params : List String} {body : Expr} {env : Env} {args : List Value}
    (he : ∀ e ∈ bindParams params args env, Shallow carried e.2) :
    AtDepth s depth (Inner s carried depth)
      (callOnce call (.func (.closure params body env)) args) :=
  .skip .tick fun _ => (AtDepth.as_value (step_shallow hs hc he body)).calling

/-- A function of the language adds the level that its call takes. -/
theorem CallsShallow.call_builtin {call : Caller} (hc : CallsShallow s carried call)
    {callee : Value} (hv : Inner s carried depth callee)
    (hclosure : ∀ params body env, callee ≠ .func (.closure params body env))
    (hjson : callee ≠ .func (.native .jsonParse)) {args : List Value}
    (ha : ∀ v ∈ args, Inner s carried depth v) :
    AtDepth s depth (Shallow (s.room carried depth))
      (callOnce (callBack stop carried call) callee args) := by
  obtain ⟨hlt, hv⟩ := hv
  have hroom : carried ≤ s.room carried (depth + 1) := s.le_room carried (depth + 1)
  have hback : CallsBack s depth (s.room carried (depth + 1)) (callBack stop carried call) :=
    hc.calls_back hstop
  have hroots (v : Value) (hv : named? s.roots "$node" = some v) :
      Shallow (s.room carried (depth + 1)) v := (hs.roots _ v hv).deeper hroom
  have hargs : ∀ v ∈ args, Shallow (s.room carried (depth + 1)) v := fun v hv => (ha v hv).2
  -- the entries of a text need a level that there is because a root may have one
  have hpos : 1 ≤ s.room carried (depth + 1) := Nat.le_trans hs.one hroom
  obtain ⟨n, hn⟩ := Nat.exists_eq_add_one.2 hpos
  rw [hn] at hback hroots hargs hv
  rw [Setting.room_of_lt hlt, hn]
  exact AtDepth.call_once hback hroots hv hclosure hjson hargs

theorem calls_shallow (fuel : Nat) : CallsShallow s carried (callShallow stop carried fuel) := by
  induction fuel with
  | zero => exact ⟨fun _ _ _ => .fail, fun _ _ _ _ _ => .fail, fun _ _ _ _ => .fail⟩
  | succ fuel ih =>
    -- a function of the expression runs only if what it sees was checked
    have hclosure (depth : Nat) (params : List String) (body : Expr) (env : Env)
        (args : List Value) : AtDepth s depth (Inner s carried depth)
          (if ∀ e ∈ bindParams params args env, e.2.nesting ≤ carried then
            callOnce (callShallow stop carried fuel) (.func (.closure params body env)) args
          else stop) := by
      split
      · rename_i he
        exact ih.call_closure hs he
      · exact AtDepth.stopped hstop
    constructor
    case keeps => exact KeepsDepth.call_shallow hstop (fuel + 1)
    case shallow =>
      intro depth callee args hv ha
      rcases call_shallow_cases stop carried fuel callee args with
        ⟨params, body, env, rfl, he⟩ | ⟨-, he⟩ | ⟨hcl, hjson, he⟩
      · rw [he]
        exact (hclosure depth params body env args).mono fun v hv => hv.shallow
      -- what is read from a text can be nested at will, and is checked behind the call
      · rw [he]
        have honce := KeepsDepth.of_calls ih.keeps (calls_only_once callee args)
        exact (AtDepth.or_stop hstop honce).mono fun v hv => hv.deeper (s.le_room _ _)
      · rw [he]
        exact ih.call_builtin hstop hs hv hcl hjson ha
    case closure =>
      intro depth callee args hf
      obtain ⟨params, body, env, rfl⟩ := eq_closure_of_isClosure hf
      exact hclosure depth params body env args

/-- The value of an expression is nested no deeper than what calls carry over and the limit to
nesting together. -/
theorem run_shallow (e : Expr) :
    AtDepth s 0 (Shallow (carried + s.limits.nesting)) (runShallow stop carried e) := by
  have hcalls := calls_shallow hstop hs callFuel
  have hrun : AtDepth s 0 (Inner s carried 0) (runShallow stop carried e) :=
    AtDepth.as_value (step_shallow hs hcalls (List.forall_mem_nil _) e)
  exact hrun.mono fun v hv => hv.shallow

end

end Workflow.Eval
