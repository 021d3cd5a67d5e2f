import Workflow.Proofs.Eval.Affords
import Workflow.Proofs.Eval.CutShort
import Workflow.Proofs.Eval.PlainData
import Workflow.Proofs.Expr.Chain

/-! Chains of members on plain data: their values are those that the path leads to. -/
namespace Workflow

open Text

theorem IsNoIndex.unsigned? {s : List Char} (h : IsNoIndex s) (bound : Nat) :
    Text.unsigned? 10 bound s = none := by
  cases s with
  | nil => rfl
  | cons c s => exact unsigned?_of_not_digit (h c rfl).1 (h c rfl).2 bound s

namespace Eval

theorem index?_toString {n : Nat} (h : n ≤ Number.maxSize) : index? (toString n) = some n := by
  unfold index?
  rw [digits?_toString, Option.filter_some, if_pos (by simpa using h)]

/-- A segment that is the text of a whole number, or that no number begins with. -/
theorem member_of_step? {mark : Mark} {j j' : Json} {key : String}
    (hk : IsNoIndex key.toList ∨ ∃ n : Nat, key = toString n) (h : Path.step? j key = some j') :
    ∃ mark', member (Value.ofJson mark j) key = Value.ofJson mark' j' := by
  cases j with
  | null | bool | number | string => exact absurd h nofun
  | object entries =>
    obtain ⟨k, he⟩ := Value.get?_ofJsonEntries mark 0 h
    exact ⟨mark.part k, congrArg (·.getD .undefined) he⟩
  | array items =>
    obtain hk | ⟨n, rfl⟩ := hk
    · unfold Path.step? at h
      rw [hk.unsigned?] at h
      exact absurd h nofun
    · unfold Path.step? at h
      rw [unsigned?_toString, Option.filter_some] at h
      by_cases hn : n < 0x1_0000_0000_0000_0000
      · rw [if_pos (by simpa using hn)] at h
        have hi := Value.getElem?_ofJsonItems mark 0 (show items[n]? = some j' from h)
        refine ⟨mark.part (0 + n), ?_⟩
        show arrayMember mark (Value.ofJsonItems mark 0 [] items) (toString n) = _
        unfold arrayMember
        rw [index?_toString (Nat.le_of_lt_succ hn)]
        dsimp only
        rw [List.getD_eq_getElem?_getD, hi]
        rfl
      · rw [if_neg (by simpa using hn)] at h
        exact absurd h nofun

theorem ofJson_ofNat (mark : Mark) (n : Nat) : Value.ofJson mark (.ofNat n) = .ofNat n := by
  have hn : ¬(n : Int) < 0 := by omega
  show Value.number (Numeral.toDouble (.whole n)) = _
  unfold Numeral.toDouble
  dsimp only
  rw [if_neg hn]
  rfl

theorem member_length {mark : Mark} {j : Json} {n : Nat} (h : Path.length? j = some n) :
    member (Value.ofJson mark j) "length" = .ofNat n := by
  have hi : index? "length" = none := by decide
  cases j with
  | null | bool | number | object => exact absurd h nofun
  | string s =>
    obtain rfl := Option.some.inj h
    show stringMember s "length" = _
    unfold stringMember
    rw [hi]
    rfl
  | array items =>
    obtain rfl := Option.some.inj h
    show arrayMember mark (Value.ofJsonItems mark 0 [] items) "length" = _
    unfold arrayMember
    rw [hi]
    show Value.ofNat (Value.ofJsonItems mark 0 [] items).length = _
    rw [Value.length_ofJsonItems]

theorem segment_cases (hop : Hop) (hk : ∀ s h, hop = .key s h → IsNoIndex s) :
    IsNoIndex hop.segment.toList ∨ ∃ n : Nat, hop.segment = toString n := by
  cases hop with
  | name s h => exact Or.inl ((String.toList_ofList (l := s)).symm ▸ h.isNoIndex)
  | key s h => exact Or.inl ((String.toList_ofList (l := s)).symm ▸ hk s h rfl)
  | index n => exact Or.inr ⟨n, rfl⟩

/-- A hop from plain data that leads on is a member that is plain data again. -/
theorem exists_readMember (hop : Hop) (hk : ∀ s h, hop = .key s h → IsNoIndex s) {mark : Mark}
    {j v : Json} {rest : List String}
    (h : Path.lookupSegments j (hop.segment :: rest) = some v) :
    ∃ mark' j', readMember (Value.ofJson mark j) hop.segment = pure (Value.ofJson mark' j') ∧
      Path.lookupSegments j' rest = some v := by
  have hn : (Value.ofJson mark j).isNullish = false := by
    cases j with
    | null =>
      rw [Path.lookupSegments_cons fun _ _ => rfl] at h
      exact absurd h nofun
    | _ => rfl
  have hr : readMember (Value.ofJson mark j) hop.segment =
      pure (member (Value.ofJson mark j) hop.segment) := by
    unfold readMember
    rw [if_neg (by simp [hn])]
  rw [hr]
  by_cases hl : hop.segment = "length" ∧ rest = [] ∧ ∃ n, Path.length? j = some n
  · obtain ⟨hs, rfl, n, hj⟩ := hl
    rw [hs, Path.lookupSegments, hj] at h
    refine ⟨mark, .ofNat n, ?_, h⟩
    rw [hs, member_length hj, ofJson_ofNat]
  · rw [Path.lookupSegments_cons fun hs hr => ?_] at h
    · obtain ⟨j', hj, hv⟩ := Option.bind_eq_some_iff.1 h
      obtain ⟨mark', hm⟩ : ∃ mark', member (Value.ofJson mark j) hop.segment = .ofJson mark' j' :=
        member_of_step? (segment_cases hop hk) hj
      exact ⟨mark', j', by rw [hm], hv⟩
    · cases hj : Path.length? j with
      | none => rfl
      | some n => exact absurd ⟨hs, hr, n, hj⟩ hl

/-- From every meter on, the evaluation has the value, or ends with the fault of a limit. It has the
value wherever so many levels of nesting are left and no look at the clock ends it. -/
def Gives {α : Type} (s : Setting) (levels : Nat) (m : EvalM α) (a : α) : Prop :=
  ∀ t, (∃ t', m s t = .ok a t' ∧ t'.depth = t.depth) ∨
    ∃ fault t', m s t = .error fault t' ∧ fault.IsLimit ∧
      ¬(Untimed s ∧ t.depth + levels ≤ s.limits.nesting)

namespace Gives

variable {α β : Type} {s : Setting} {levels : Nat}

theorem pure (a : α) : Gives s levels (Pure.pure a) a :=
  fun t => Or.inl ⟨t, rfl, rfl⟩

theorem mono {levels' : Nat} {m : EvalM α} {a : α} (hm : Gives s levels m a)
    (h : levels ≤ levels') : Gives s levels' m a := by
  intro t
  rcases hm t with hok | ⟨fault, t', he, hl, hno⟩
  · exact Or.inl hok
  · exact Or.inr ⟨fault, t', he, hl, fun ⟨hs, hd⟩ => hno ⟨hs, by omega⟩⟩

theorem bind {m : EvalM α} {f : α → EvalM β} {a : α} {b : β} (hm : Gives s levels m a)
    (hf : Gives s levels (f a) b) : Gives s levels (m >>= f) b := by
  intro t
  rw [run_bind]
  rcases hm t with ⟨t', he, hd⟩ | ⟨fault, t', he, hl, hno⟩
  · rw [he, ← hd]
    exact hf t'
  · rw [he]
    exact Or.inr ⟨fault, t', rfl, hl, hno⟩

theorem tick : Gives s levels tick () := by
  intro t
  rw [run_tick]
  split
  · rename_i hover
    exact Or.inr ⟨_, _, rfl, trivial, fun ⟨hs, _⟩ => absurd hover.2 (Nat.not_le.2 (hs _))⟩
  · exact Or.inl ⟨_, rfl, rfl⟩

theorem deeper {cause : Nat → Excess} {m : EvalM α} {a : α} (hc : ∀ limit, cause limit ≠ .fuel)
    (hm : Gives s levels m a) : Gives s (levels + 1) (deeper cause m) a := by
  intro t
  have htick : Gives s (levels + 1) Eval.tick () := tick
  rw [run_deeper]
  rcases htick t with ⟨t', he, hd⟩ | ⟨fault, t', he, hl, hno⟩
  · rw [he]
    dsimp only
    split
    · exact Or.inr ⟨_, _, rfl, hc _, fun ⟨_, hroom⟩ => by omega⟩
    · rcases hm { t' with depth := t'.depth + 1 } with ⟨t'', he, hd'⟩ | ⟨fault, t'', he, hl, hno⟩
      · rw [he]
        dsimp only at hd'
        exact Or.inl ⟨_, rfl, by dsimp only; omega⟩
      · rw [he]
        exact Or.inr ⟨fault, _, rfl, hl, fun ⟨hs, hroom⟩ => hno ⟨hs, by dsimp only; omega⟩⟩
  · rw [he]
    exact Or.inr ⟨fault, t', rfl, hl, hno⟩

theorem as_value {m : EvalM Link} {v : Value} (hm : Gives s levels m (some v)) :
    Gives s (levels + 1) (asValue m) v :=
  deeper (fun _ => nofun) (hm.bind (pure v))

theorem as_link {m : EvalM Link} {v : Value} (hm : Gives s levels m (some v)) (isChain : Bool) :
    Gives s (levels + 1) (asLink isChain m) (some v) := by
  cases isChain with
  | true =>
    show Gives s (levels + 1) (Eval.deeper (fun _ => .chain) m) (some v)
    exact deeper (fun _ => nofun) hm
  | false => exact hm.as_value.bind (pure _)

end Gives

/-- The number of an index is displayed as the index was written. -/
def ReadsBack (n : Nat) : Prop :=
  Number.display (Number.ofDecimal n 0) = toString n

section

variable {s : Setting} {levels : Nat} {call : Caller} {env : Env} {e : Expr} {v w : Value}

theorem gives_member (he : Gives s levels (step call env e) (some v)) {name : String}
    (hm : readMember v name = pure w) :
    Gives s (levels + 1) (step call env (.member e name false)) (some w) := by
  refine (he.as_link (isChain e)).bind ?_
  show Gives s (levels + 1) (some <$> readMember v name) (some w)
  rw [hm]
  exact .pure _

theorem gives_index (he : Gives s levels (step call env e) (some v)) {value : Literal}
    {key : String} (hk : (Value.ofLiteral value).display = key) (hm : readMember v key = pure w) :
    Gives s (levels + 1) (step call env (.index e (.literal value) false)) (some w) := by
  have hvalue : Gives s levels (step call env (.literal value)) (some (Value.ofLiteral value)) :=
    .pure _
  refine (he.as_link (isChain e)).bind ?_
  refine Gives.bind hvalue.as_value ?_
  rw [hk, hm]
  exact .pure _

/-- A hop takes the value of a chain to its member, one level further down. -/
theorem gives_link (hop : Hop) (hb : ∀ n, hop = .index n → ReadsBack n)
    (he : Gives s levels (step call env e) (some v)) (hm : readMember v hop.segment = pure w) :
    Gives s (levels + 1) (step call env (hop.link e)) (some w) := by
  cases hop with
  | name k h => exact gives_member he hm
  | key k h => exact gives_index he (String.empty_append ..) hm
  | index n =>
    refine gives_index he ?_ hm
    show "" ++ Number.display (Number.ofDecimal n 0) = toString n
    rw [hb n rfl, String.empty_append]

/-- Hops behind a chain lead where the path leads. -/
theorem gives_links {hops : List Hop} (hk : ∀ s h, .key s h ∈ hops → IsNoIndex s)
    (hb : ∀ n, .index n ∈ hops → ReadsBack n) {mark : Mark} {j r : Json}
    (he : Gives s levels (step call env e) (some (.ofJson mark j)))
    (hr : Path.lookupSegments j (hops.map Hop.segment) = some r) :
    ∃ mark', Gives s (levels + hops.length) (step call env (hops.foldl Hop.link e))
      (some (.ofJson mark' r)) := by
  induction hops generalizing e levels mark j with
  | nil =>
    obtain rfl : j = r := Option.some.inj hr
    exact ⟨mark, he⟩
  | cons hop hops ih =>
    obtain ⟨mark', j', hm, hr⟩ :=
      exists_readMember hop (fun s h hs => hk s h (hs ▸ List.mem_cons_self)) hr
    have hl := gives_link hop (fun n hn => hb n (hn ▸ List.mem_cons_self)) he hm
    obtain ⟨mark'', hg⟩ := ih (fun s h hs => hk s h (List.mem_cons_of_mem _ hs))
      (fun n hn => hb n (List.mem_cons_of_mem _ hn)) hl hr
    refine ⟨mark'', hg.mono ?_⟩
    rw [List.length_cons]
    omega

end

end Eval

end Workflow
