import Mathlib.Data.List.Induction
import Workflow.Eval.Run
import Workflow.Expr.Parser
import Workflow.Proofs.Eval.Meter

/-! Chains that end at an optional link: what is before the link is evaluated as deep as it stands,
and nothing of the links behind. -/
namespace Workflow

/-- A link of a chain, with the expressions in it. -/
inductive ChainLink where
  | member (name : String) (optional : Bool)
  | index (key : Expr) (optional : Bool)
  | call (args : List Expr) (optional : Bool)

namespace ChainLink

def optional : ChainLink → Bool
  | member _ optional | index _ optional | call _ optional => optional

/-- The expression with the link behind it. -/
def onto (e : Expr) : ChainLink → Expr
  | member name optional => .member e name optional
  | index key optional => .index e key optional
  | call args optional => .call e args optional

end ChainLink

/-- The chain of the links behind an expression. -/
def Expr.chain (e : Expr) (links : List ChainLink) : Expr :=
  links.foldl ChainLink.onto e

theorem Expr.chain_concat (e : Expr) (links : List ChainLink) (last : ChainLink) :
    e.chain (links ++ [last]) = last.onto (e.chain links) :=
  List.foldl_append

namespace Eval

variable {call : Caller} {env : Env} {s : Setting}

theorem isChain_onto (e : Expr) (link : ChainLink) : isChain (link.onto e) = true := by
  cases link
  all_goals rfl

theorem isChain_chain (e : Expr) (first : ChainLink) (rest : List ChainLink) :
    isChain (e.chain (first :: rest)) = true := by
  cases rest using List.reverseRecOn with
  | nil => exact isChain_onto e first
  | append_singleton rest last =>
    rw [← List.cons_append, Expr.chain_concat]
    exact isChain_onto _ last

/-- What is evaluated of a chain that ends at an optional link behind the expression. -/
def cutOff (call : Caller) (env : Env) (e : Expr) : EvalM Link := do
  let _ ← asLink (isChain e) (step call env e)
  return none

/-- An optional link behind nothing ends the chain. -/
theorem step_optional {e : Expr} {link : ChainLink} {t : Meter} (hlink : link.optional = true)
    (hbase : ∀ v t', asLink (isChain e) (step call env e) s t = .ok v t' →
      (v.getD .undefined).isNullish = true) :
    step call env (link.onto e) s t = cutOff call env e s t := by
  cases h : asLink (isChain e) (step call env e) s t with
  | error fault t' =>
    cases link
    all_goals simp only [ChainLink.onto, step, cutOff, run_bind, h]
  | ok v t' =>
    cases v with
    | none =>
      cases link
      all_goals simp only [ChainLink.onto, step, cutOff, run_bind, h]
    | some v =>
      have hv : v.isNullish = true := hbase _ _ h
      cases link
      all_goals
        obtain rfl := show _ = true from hlink
        simp only [ChainLink.onto, step, cutOff, run_bind, h, hv, Bool.and_self, if_true]

/-- A link behind a chain that has ended is skipped. -/
theorem step_ended {e : Expr} {link : ChainLink} {t : Meter}
    (hbase : ∀ v t', asLink (isChain e) (step call env e) s t = .ok v t' → v = none) :
    step call env (link.onto e) s t = asLink (isChain e) (step call env e) s t := by
  cases h : asLink (isChain e) (step call env e) s t with
  | error fault t' =>
    cases link
    all_goals simp only [ChainLink.onto, step, run_bind, h]
  | ok v t' =>
    obtain rfl := hbase _ _ h
    cases link
    all_goals simp only [ChainLink.onto, step, run_bind, h, run_pure]

/-- So many links deeper. -/
def beneath : (links : Nat) → EvalM Link → EvalM Link
  | 0, m => m
  | links + 1, m => deeper (fun _ => .chain) (beneath links m)

/-- A meter so many levels deeper, each of which was counted as a step. -/
def Meter.below (t : Meter) (levels : Nat) : Meter :=
  { t with ticks := t.ticks + levels, depth := t.depth + levels }

theorem below_below (t : Meter) (levels more : Nat) :
    (t.below levels).below more = t.below (levels + more) := by
  simp only [Meter.below, Nat.add_assoc]

theorem run_deeper_congr {α : Type} (cause : Nat → Excess) {m m' : EvalM α} {t : Meter}
    (h : m s (t.below 1) = m' s (t.below 1)) : deeper cause m s t = deeper cause m' s t := by
  rw [run_deeper, run_deeper]
  cases htick : tick s t with
  | error fault t' => rfl
  | ok _ t' =>
    obtain rfl := eq_of_tick htick
    dsimp only
    rw [show m s { t with ticks := t.ticks + 1, depth := t.depth + 1 } = _ from h]
    rfl

theorem eq_none_of_cutOff {e : Expr} {t t' : Meter} {v : Link}
    (h : cutOff call env e s t = .ok v t') : v = none := by
  obtain ⟨_, t₁, -, hv⟩ := exists_of_bind h
  cases hv
  rfl

theorem eq_none_of_beneath {m : EvalM Link} (hm : ∀ t v t', m s t = .ok v t' → v = none)
    (links : Nat) (t : Meter) (v : Link) (t' : Meter) (h : beneath links m s t = .ok v t') :
    v = none := by
  induction links generalizing t t' with
  | zero => exact hm t v t' h
  | succ links ih =>
    obtain ⟨-, t₁, hb, -⟩ := exists_of_deeper h
    exact ih _ t₁ hb

/-- Behind an optional link behind nothing, all links are skipped. -/
theorem step_chain {e : Expr} {first : ChainLink} {rest : List ChainLink} {t : Meter}
    (hfirst : first.optional = true)
    (hbase : ∀ v t', asLink (isChain e) (step call env e) s (t.below rest.length) = .ok v t' →
      (v.getD .undefined).isNullish = true) :
    step call env (e.chain (first :: rest)) s t =
      beneath rest.length (cutOff call env e) s t := by
  induction rest using List.reverseRecOn generalizing t with
  | nil => exact step_optional hfirst hbase
  | append_singleton rest last ih =>
    rw [List.length_append, List.length_singleton] at hbase ⊢
    have hinner : step call env (e.chain (first :: rest)) s (t.below 1) =
        beneath rest.length (cutOff call env e) s (t.below 1) := by
      refine ih ?_
      rw [below_below, Nat.add_comm]
      exact hbase
    have hlink : asLink (isChain (e.chain (first :: rest)))
          (step call env (e.chain (first :: rest))) s t =
        beneath (rest.length + 1) (cutOff call env e) s t := by
      rw [isChain_chain]
      exact run_deeper_congr (fun _ => .chain) hinner
    rw [← List.cons_append, Expr.chain_concat, step_ended, hlink]
    intro v t' h
    rw [hlink] at h
    exact eq_none_of_beneath (fun _ _ _ => eq_none_of_cutOff) _ _ _ _ h

/-- At none of the next ticks the clock is found to be over. -/
def InTime (s : Setting) (t : Meter) (ticks : Nat) : Prop :=
  ∀ i < ticks, (t.ticks + i + 1) % clockInterval = 0 →
    s.elapsed (t.ticks + i + 1) < s.limits.timeoutMs

theorem InTime.run_tick {t : Meter} {ticks : Nat} (h : InTime s t (ticks + 1)) :
    tick s t = .ok () { t with ticks := t.ticks + 1 } := by
  rw [Eval.run_tick, if_neg]
  rintro ⟨hlook, hover⟩
  exact Nat.not_lt.2 hover (h 0 (Nat.succ_pos _) hlook)

theorem InTime.below {t : Meter} {ticks : Nat} (h : InTime s t (ticks + 1)) :
    InTime s (t.below 1) ticks := by
  intro i hi
  have := h (i + 1) (Nat.succ_lt_succ hi)
  rwa [Nat.add_comm i, ← Nat.add_assoc] at this

/-- In time, and with levels left, a body ends one level deeper as it does there. -/
theorem run_deeper_ok {α : Type} {cause : Nat → Excess} {m : EvalM α} {t u : Meter} {a : α}
    (hclock : InTime s t 1) (hdepth : t.depth + 1 ≤ s.limits.nesting)
    (h : m s (t.below 1) = .ok a u) :
    deeper cause m s t = .ok a { u with depth := u.depth - 1 } := by
  rw [run_deeper, hclock.run_tick]
  dsimp only
  rw [if_neg (Nat.not_lt.2 hdepth),
    show m s { t with ticks := t.ticks + 1, depth := t.depth + 1 } = _ from h]

theorem run_beneath {m : EvalM Link} {links : Nat} {t u : Meter} {v : Link}
    (hclock : InTime s t links) (hdepth : t.depth + links ≤ s.limits.nesting)
    (h : m s (t.below links) = .ok v u) :
    beneath links m s t = .ok v { u with depth := u.depth - links } := by
  induction links generalizing t with
  | zero => exact h
  | succ links ih =>
    have hinner : beneath links m s (t.below 1) = .ok v { u with depth := u.depth - links } := by
      refine ih hclock.below ?_ ?_
      · show t.depth + 1 + links ≤ _
        omega
      · rw [below_below, Nat.add_comm]
        exact h
    have hfirst : InTime s t 1 := fun i hi => hclock i (by omega)
    rw [beneath, run_deeper_ok hfirst (by omega) hinner, Nat.sub_sub]

/-- An expression that has a value has it in front of a link too. -/
theorem exists_asLink_of_eval {e : Expr} {t u : Meter} {v : Value}
    (h : eval call env e s t = .ok v u) :
    t.depth + 1 ≤ s.limits.nesting ∧
      ∃ l, asLink (isChain e) (step call env e) s t = .ok l u ∧ l.getD .undefined = v := by
  have hvalue := h
  rw [eval, asValue, run_deeper] at h
  cases htick : tick s t with
  | error fault t' =>
    rw [htick] at h
    cases h
  | ok _ t' =>
    obtain rfl := eq_of_tick htick
    rw [htick] at h
    dsimp only at h
    split at h
    · cases h
    · rename_i hdepth
      refine ⟨Nat.not_lt.1 hdepth, ?_⟩
      rw [run_bind] at h
      cases hc : isChain e with
      | false =>
        refine ⟨some v, ?_, rfl⟩
        show (some <$> eval call env e) s t = _
        rw [map_eq_pure_bind, run_bind, hvalue]
        rfl
      | true =>
        show ∃ l, deeper (fun _ => .chain) (step call env e) s t = .ok l u ∧ _
        rw [run_deeper, htick]
        dsimp only
        rw [if_neg hdepth]
        cases hstep : step call env e s { t with ticks := t.ticks + 1, depth := t.depth + 1 } with
        | error fault t' =>
          rw [hstep] at h
          cases h
        | ok l t' =>
          rw [hstep] at h
          cases h
          exact ⟨l, rfl, rfl⟩

/-- If an optional link stands behind an expression with no value but null or undefined, the rest of
the chain is skipped. Links in the place of its links, with whatever keys and arguments, change
nothing; and unless the clock is over before the expression is reached, the chain is undefined and
has used up what the expression has. -/
theorem chain_skipped {e : Expr} {t u : Meter} {v : Value} (first : ChainLink)
    (rest : List ChainLink) (hfirst : first.optional = true) (hv : v.isNullish = true)
    (he : eval call env e s (t.below (rest.length + 1)) = .ok v u) :
    (∀ first' rest', first'.optional = true → rest'.length = rest.length →
      eval call env (e.chain (first' :: rest')) s t =
        eval call env (e.chain (first :: rest)) s t) ∧
    (InTime s t (rest.length + 1) →
      eval call env (e.chain (first :: rest)) s t =
        .ok .undefined { u with depth := u.depth - (rest.length + 1) }) := by
  obtain ⟨hdepth, l, hl, hlv⟩ := exists_asLink_of_eval he
  have hbelow : (t.below 1).below rest.length = t.below (rest.length + 1) := by
    rw [below_below, Nat.add_comm]
  have hstep (first' : ChainLink) (rest' : List ChainLink) (hfirst' : first'.optional = true)
      (hrest : rest'.length = rest.length) :
      step call env (e.chain (first' :: rest')) s (t.below 1) =
        beneath rest.length (cutOff call env e) s (t.below 1) := by
    rw [step_chain hfirst', hrest]
    rw [hrest, hbelow]
    intro l' u' h
    obtain ⟨rfl, -⟩ := EStateM.Result.ok.inj (hl.symm.trans h)
    rw [hlv]
    exact hv
  constructor
  · intro first' rest' hfirst' hrest
    refine run_deeper_congr _ ?_
    rw [run_bind, run_bind, hstep first' rest' hfirst' hrest, hstep first rest hfirst rfl]
  · intro hclock
    have hcut : cutOff call env e s (t.below (rest.length + 1)) = .ok none u := by
      rw [cutOff, run_bind, hl]
      rfl
    have hchain : step call env (e.chain (first :: rest)) s (t.below 1) =
        .ok none { u with depth := u.depth - rest.length } := by
      rw [hstep first rest hfirst rfl]
      refine run_beneath hclock.below ?_ ?_
      · show t.depth + 1 + rest.length ≤ _
        have : t.depth + (rest.length + 1) + 1 ≤ s.limits.nesting := hdepth
        omega
      · rw [hbelow]
        exact hcut
    have hdepth : t.depth + (rest.length + 1) + 1 ≤ s.limits.nesting := hdepth
    have hfirst : InTime s t 1 := fun i hi => hclock i (by omega)
    rw [eval, asValue, run_deeper_ok hfirst (by omega) (a := Value.undefined)
      (u := { u with depth := u.depth - rest.length }), Nat.sub_sub]
    rw [run_bind, hchain]
    rfl

/-- Names that nothing has stand behind the optional link. -/
theorem chain_skipped_unknown_names :
    Expr.parse 64 "null?.[x].y(x())" = .ok (Expr.chain (.literal .null)
      [.index (.name "x") true, .member "y" false, .call [.call (.name "x") [] false] false]) ∧
    run (Expr.chain (.literal .null)
        [.index (.name "x") true, .member "y" false, .call [.call (.name "x") [] false] false])
      { limits := {}, now := ⟨0, 0⟩, roots := [], zones := .known } {} =
        .ok .undefined { ticks := 4 } := by
  refine ⟨by with_unfolding_all rfl, ?_⟩
  have hbase : eval (callValue callFuel) [] (.literal .null)
      { limits := {}, now := ⟨0, 0⟩, roots := [], zones := .known } (Meter.below {} 3) =
        .ok .null { ticks := 4, depth := 3 } := rfl
  have hclock : 0 < ({} : Limits).timeoutMs := by decide
  exact (chain_skipped (.index (.name "x") true)
    [.member "y" false, .call [.call (.name "x") [] false] false] rfl rfl hbase).2
      fun _ _ _ => hclock

end Eval

end Workflow
