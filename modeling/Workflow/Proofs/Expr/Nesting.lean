import Mathlib.Tactic.Common
import Workflow.Expr.Parser

/-! Reading with less room. What is read is the same, or the reading gives up for want of room. -/
namespace Workflow.Parser

/-- The first reading is the second one, or wants room. -/
def Shallower {α : Type} (r r' : Except ParseFault α) : Prop :=
  r = r' ∨ ∃ limit, r = .error (.tooDeep limit)

namespace Shallower

variable {α β : Type}

theorem refl (r : Except ParseFault α) : Shallower r r :=
  Or.inl rfl

theorem bind {r r' : Except ParseFault α} {f f' : α → Except ParseFault β} (hr : Shallower r r')
    (hf : ∀ a, Shallower (f a) (f' a)) : Shallower (r >>= f) (r' >>= f') := by
  rcases hr with rfl | ⟨limit, rfl⟩
  · cases r with
    | error fault => exact refl _
    | ok a => exact hf a
  · exact Or.inr ⟨limit, rfl⟩

theorem map {r r' : Except ParseFault α} (hr : Shallower r r') (f : α → β) :
    Shallower (r.map f) (r'.map f) := by
  rcases hr with rfl | ⟨limit, rfl⟩
  · exact refl _
  · exact Or.inr ⟨limit, rfl⟩

end Shallower

namespace Scope

theorem shallower_joined {operand operand' : (ts : List Spanned) → Parsed Expr ts}
    (ho : ∀ ts, Shallower (operand ts) (operand' ts)) (level : Nat) (left : Expr)
    (ts : List Spanned) :
    Shallower (joined operand level left ts) (joined operand' level left ts) := by
  rw [joined, joined]
  rcases joint? level ts with _ | ⟨j, rest, hrest⟩
  · exact .refl _
  · dsimp only
    rcases ho rest with he | ⟨limit, he⟩
    · rw [he]
      rcases operand' rest with fault | ⟨right, more, hmore⟩
      · exact .refl _
      · exact (shallower_joined ho level (j.apply left right) more).map _
    · rw [he]
      exact Or.inr ⟨limit, rfl⟩
termination_by ts.length
decreasing_by exact Nat.lt_trans hmore hrest

/-- The first scope leaves no more room than the second one. -/
structure Narrower (s s' : Scope) : Prop where
  nested : ∀ goal ts, Shallower (s.nested goal ts) (s'.nested goal ts)
  hole : ∀ ts, Shallower (s.inner s.room .expression ts) (s'.inner s'.room .expression ts)

namespace Narrower

variable {s s' : Scope} (h : Narrower s s')
include h

theorem items (close : Mark) (ts : List Spanned) :
    Shallower (s.items close ts) (s'.items close ts) := by
  rw [Scope.items, Scope.items]
  cases mark? close ts with
  | some rest => exact .refl _
  | none =>
    dsimp only
    rcases h.nested .expression ts with he | ⟨limit, he⟩
    · rw [he]
      rcases s'.nested .expression ts with fault | ⟨e, rest, hrest⟩
      · exact .refl _
      · dsimp only
        rcases mark? .comma rest with _ | ⟨more, hmore⟩
        · exact .refl _
        · dsimp only
          rcases items close more with he | ⟨limit, he⟩
          · rw [he]
            exact .refl _
          · rw [he]
            exact Or.inr ⟨limit, rfl⟩
    · rw [he]
      exact Or.inr ⟨limit, rfl⟩
termination_by ts.length
decreasing_by exact Nat.lt_trans hmore hrest

theorem enclosed (close : Mark) (ts : List Spanned) :
    Shallower (s.enclosed close ts) (s'.enclosed close ts) :=
  (h.nested .expression ts).bind fun _ => .refl _

theorem entry (ts : List Spanned) : Shallower (s.entry ts) (s'.entry ts) := by
  unfold Scope.entry
  refine (Shallower.refl (key ts)).bind fun ⟨key, rest, hrest⟩ => ?_
  dsimp only
  cases mark? .colon rest with
  | some rest => exact (h.nested .expression rest.1).bind fun _ => .refl _
  | none => exact .refl _

theorem entries (ts : List Spanned) : Shallower (s.entries ts) (s'.entries ts) := by
  rw [Scope.entries, Scope.entries]
  cases mark? .rightBrace ts with
  | some rest => exact .refl _
  | none =>
    dsimp only
    rcases h.entry ts with he | ⟨limit, he⟩
    · rw [he]
      rcases s'.entry ts with fault | ⟨e, rest, hrest⟩
      · exact .refl _
      · dsimp only
        rcases mark? .comma rest with _ | ⟨more, hmore⟩
        · exact .refl _
        · dsimp only
          rcases entries more with he | ⟨limit, he⟩
          · rw [he]
            exact .refl _
          · rw [he]
            exact Or.inr ⟨limit, rfl⟩
    · rw [he]
      exact Or.inr ⟨limit, rfl⟩
termination_by ts.length
decreasing_by exact Nat.lt_trans hmore hrest

theorem fragments (chunks : List Chunk) : Shallower (s.fragments chunks) (s'.fragments chunks) := by
  unfold Scope.fragments
  induction chunks with
  | nil => exact .refl _
  | cons chunk chunks ih =>
    simp only [List.mapM_cons]
    refine Shallower.bind ?_ fun f => ih.bind fun fs => .refl _
    cases chunk with
    | text t => exact .refl _
    | source t =>
      refine Shallower.map ?_ _
      unfold Scope.whole
      exact (Shallower.refl _).bind fun ts => (h.hole ts).bind fun _ => .refl _

theorem primary (ts : List Spanned) : Shallower (s.primary ts) (s'.primary ts) := by
  unfold Scope.primary
  split
  · exact .refl _
  · exact .refl _
  · exact (h.fragments _).map _
  · exact .refl _
  · exact (h.enclosed _ _).map _
  · exact (h.items _ _).map _
  · exact (h.entries _).map _
  · exact .refl _

theorem arguments (ts : List Spanned) : Shallower (s.arguments? ts) (s'.arguments? ts) := by
  unfold Scope.arguments?
  rcases mark? .leftParen ts with _ | ⟨rest, hrest⟩
  · exact .refl _
  · exact (h.items _ _).map _

theorem head (ts : List Spanned) : Shallower (s.head ts) (s'.head ts) := by
  unfold Scope.head
  cases ts with
  | nil => exact h.primary _
  | cons t rest =>
    dsimp only
    split
    · exact (h.primary rest).bind fun ⟨_, rest, _⟩ => (h.arguments rest).bind fun _ => .refl _
    · exact h.primary _

/-- There is a link in both scopes or in none. -/
theorem link (e : Expr) (ts : List Spanned) :
    s.link? e ts = none ∧ s'.link? e ts = none ∨
      ∃ r r', s.link? e ts = some r ∧ s'.link? e ts = some r' ∧ Shallower r r' := by
  unfold Scope.link?
  split
  · exact Or.inr ⟨_, _, rfl, rfl, .refl _⟩
  · exact Or.inr ⟨_, _, rfl, rfl, (h.items _ _).map _⟩
  · exact Or.inr ⟨_, _, rfl, rfl, (h.enclosed _ _).map _⟩
  · exact Or.inr ⟨_, _, rfl, rfl, .refl _⟩
  · exact Or.inr ⟨_, _, rfl, rfl, (h.enclosed _ _).map _⟩
  · exact Or.inr ⟨_, _, rfl, rfl, (h.items _ _).map _⟩
  · exact Or.inl ⟨rfl, rfl⟩

theorem links (e : Expr) (ts : List Spanned) : Shallower (s.links e ts) (s'.links e ts) := by
  rw [Scope.links, Scope.links]
  rcases h.link e ts with ⟨hn, hn'⟩ | ⟨r, r', hr, hr', hs⟩
  · rw [hn, hn']
    exact .refl _
  · rw [hr, hr']
    rcases hs with rfl | ⟨limit, rfl⟩
    · rcases r with fault | ⟨e, rest, hrest⟩
      · exact .refl _
      · exact (links e rest).map _
    · exact Or.inr ⟨limit, rfl⟩
termination_by ts.length

theorem chain (ts : List Spanned) : Shallower (s.chain ts) (s'.chain ts) := by
  unfold Scope.chain
  exact (h.head ts).bind fun ⟨e, rest, _⟩ => (h.links e rest).bind fun _ => .refl _

theorem unary (ts : List Spanned) : Shallower (s.unary ts) (s'.unary ts) := by
  unfold Scope.unary
  cases ts with
  | nil => exact h.chain _
  | cons t rest =>
    dsimp only
    split
    · exact (h.nested _ _).map _
    · exact h.chain _

theorem power (ts : List Spanned) : Shallower (s.power ts) (s'.power ts) := by
  unfold Scope.power
  refine (h.unary ts).bind fun ⟨base, rest, hrest⟩ => ?_
  dsimp only
  rcases mark? .starStar rest with _ | ⟨rest, _⟩
  · exact .refl _
  · exact (h.nested .power rest).bind fun _ => .refl _

theorem operators (count : Nat) (ts : List Spanned) :
    Shallower (s.operators count ts) (s'.operators count ts) := by
  induction count generalizing ts with
  | zero => exact h.power ts
  | succ count ih =>
    unfold Scope.operators
    refine (ih ts).bind fun ⟨e, rest, hrest⟩ => ?_
    exact (shallower_joined ih _ e rest).bind fun _ => .refl _

theorem expression (ts : List Spanned) : Shallower (s.expression ts) (s'.expression ts) := by
  unfold Scope.expression
  rcases arrowHead? ts with _ | ⟨params, rest, _⟩
  · refine (h.operators Joint.levelCount ts).bind fun ⟨test, rest, hrest⟩ => ?_
    dsimp only
    rcases mark? .question rest with _ | ⟨rest, _⟩
    · exact .refl _
    · refine (h.nested .expression rest).bind fun ⟨consequent, rest, _⟩ => ?_
      refine (Shallower.refl (mark .colon rest)).bind fun ⟨rest, _⟩ => ?_
      exact (h.nested .expression rest).bind fun _ => .refl _
  · exact (h.nested .expression rest).map _

theorem read (goal : Goal) (ts : List Spanned) : Shallower (s.read goal ts) (s'.read goal ts) := by
  cases goal with
  | expression => exact h.expression ts
  | unary => exact h.unary ts
  | power => exact h.power ts

end Narrower

end Scope

/-- With less room, and holes that have less room, a reader reads the same or wants room. -/
theorem shallower_nested {room room' : Nat} (hr : room ≤ room') (limit limit' : Nat) (goal : Goal)
    (ts : List Spanned) : Shallower (nested room limit goal ts) (nested room' limit' goal ts) := by
  induction room generalizing room' limit limit' goal ts with
  | zero => exact Or.inr ⟨limit, rfl⟩
  | succ room ih =>
    obtain ⟨k, rfl⟩ : ∃ k, room' = k + 1 := ⟨room' - 1, by omega⟩
    refine Scope.Narrower.read ⟨fun goal ts => ?_, fun ts => ?_⟩ goal ts
    · exact ih (by omega) limit limit' goal ts
    -- a hole is read with the room that is left as its limit
    · exact ih (by omega) room k .expression ts

/-- A smaller limit to nesting makes a text the same expression or too deep, and does not hide any
other fault. -/
theorem shallower_parse {limit limit' : Nat} (h : limit ≤ limit') (source : String) :
    Shallower (Expr.parse limit source) (Expr.parse limit' source) := by
  unfold Expr.parse Scope.whole
  refine (Shallower.refl _).bind fun ts => ?_
  exact (shallower_nested h limit limit' .expression ts).bind fun _ => .refl _

/-- What is an expression stays one under a larger limit. -/
theorem parse_of_le {limit limit' : Nat} (h : limit ≤ limit') {source : String} {e : Expr}
    (hp : Expr.parse limit source = .ok e) : Expr.parse limit' source = .ok e := by
  rcases shallower_parse h source with he | ⟨reached, he⟩
  · rw [← he, hp]
  · rw [hp] at he
    contradiction

end Workflow.Parser
