import Workflow.Proofs.Eval.Blind
import Workflow.Proofs.Expr.TextsRead

/-! What the value of an expression can take over as it stands: what its names stand for, and the
texts that are written in it. Operators and templates make values of their own, and of alternatives
there is only one. -/
namespace Workflow

/-- How much the parts of an expression count. -/
structure Scale where
  name : String → Nat := fun _ => 0
  text : Inscription → Nat := fun _ => 0
  /-- A new point in time, or the name of a kind of values. -/
  other : Nat := 0

namespace Expr

mutual

/-- What the value of the expression can take over, by a scale. -/
def taken (w : Scale) : Expr → Nat
  | .literal (.string s) => w.text (.literal s)
  | .literal _ => 0
  | .template _ => 0
  | .name x => w.name x
  | .array items => itemsTaken w items
  | .object entries => entriesTaken w entries
  | .member e _ _ => taken w e
  | .index e _ _ => taken w e
  | .call e args _ => taken w e + itemsTaken w args
  | .construct _ _ => w.other
  | .unary .typeOf _ => w.other
  | .unary _ _ => 0
  | .binary _ _ _ => 0
  | .logical _ left right => max (taken w left) (taken w right)
  | .conditional _ consequent alternate => max (taken w consequent) (taken w alternate)
  | .arrow _ _ => 0
termination_by structural e => e

def itemsTaken (w : Scale) : List Expr → Nat
  | [] => 0
  | e :: rest => taken w e + itemsTaken w rest
termination_by structural items => items

def entriesTaken (w : Scale) : List (String × Expr) → Nat
  | [] => 0
  | (key, e) :: rest => w.text (.key key) + taken w e + entriesTaken w rest
termination_by structural entries => entries

end

end Expr

namespace Scale

/-- The sum of a scale and a multiple of another one. -/
def plus (w : Scale) (c : Nat) (w' : Scale) : Scale where
  name x := w.name x + c * w'.name x
  text x := w.text x + c * w'.text x
  other := w.other + c * w'.other

/-- The texts count at least their bytes. -/
abbrev Counts (w : Scale) (texts : List Inscription) : Prop :=
  ∀ x ∈ texts, x.text.utf8ByteSize ≤ w.text x

theorem counts_append {w : Scale} {texts more : List Inscription} :
    w.Counts (texts ++ more) ↔ w.Counts texts ∧ w.Counts more :=
  List.forall_mem_append

end Scale

namespace Expr

variable {w w' : Scale} {c : Nat}

theorem max_le_plus {a b p q p' q' : Nat} (ha : a ≤ p + c * p') (hb : b ≤ q + c * q') :
    max a b ≤ max p q + c * max p' q' := by
  have hp := Nat.mul_le_mul_left c (Nat.le_max_left p' q')
  have hq := Nat.mul_le_mul_left c (Nat.le_max_right p' q')
  omega

mutual

theorem taken_plus_le : ∀ e : Expr, e.taken (w.plus c w') ≤ e.taken w + c * e.taken w'
  | .literal (.string s) => Nat.le_refl _
  | .literal (.number _) | .literal (.bool _) | .literal .null | .literal .undefined =>
    Nat.zero_le _
  | .template fragments => Nat.zero_le _
  | .name x => Nat.le_refl _
  | .array items => itemsTaken_plus_le items
  | .object entries => entriesTaken_plus_le entries
  | .member e _ _ => taken_plus_le e
  | .index e key optional => taken_plus_le e
  | .call e args optional => by
    have hcallee := taken_plus_le e
    have hargs := itemsTaken_plus_le args
    rw [taken, taken, taken, Nat.mul_add]
    omega
  | .construct e args => Nat.le_refl _
  | .unary .typeOf e => Nat.le_refl _
  | .unary .not _ | .unary .neg _ | .unary .plus _ => Nat.zero_le _
  | .binary op left right => Nat.zero_le _
  | .logical op left right => max_le_plus (taken_plus_le left) (taken_plus_le right)
  | .conditional test consequent alternate =>
    max_le_plus (taken_plus_le consequent) (taken_plus_le alternate)
  | .arrow params body => Nat.zero_le _
termination_by structural e => e

theorem itemsTaken_plus_le : ∀ items : List Expr,
    itemsTaken (w.plus c w') items ≤ itemsTaken w items + c * itemsTaken w' items
  | [] => Nat.zero_le _
  | e :: rest => by
    have hfirst := taken_plus_le e
    have hrest := itemsTaken_plus_le rest
    rw [itemsTaken, itemsTaken, itemsTaken, Nat.mul_add]
    omega
termination_by structural items => items

theorem entriesTaken_plus_le : ∀ entries : List (String × Expr),
    entriesTaken (w.plus c w') entries ≤ entriesTaken w entries + c * entriesTaken w' entries
  | [] => Nat.zero_le _
  | (key, e) :: rest => by
    have hfirst := taken_plus_le e
    have hrest := entriesTaken_plus_le rest
    rw [entriesTaken, entriesTaken, entriesTaken, Nat.mul_add, Nat.mul_add]
    show w.text (.key key) + c * w'.text (.key key) + _ + _ ≤ _
    omega
termination_by structural entries => entries

end

end Expr

namespace Scale

/-- Counts the texts of an expression by their bytes. -/
def texts (keyBytes : String → Nat) : Scale :=
  { text := Inscription.bytes keyBytes }

/-- Counts how often a root of the context is named. -/
def root (r : ContextRoot) : Scale :=
  { name := fun x => if x ∈ r.names then 1 else 0 }

/-- Counts what is no larger than the texts and the context only by chance: points in time, and the
names of kinds of values. -/
def strange : Scale :=
  { name := fun x => if x = "$now" ∨ x = "$today" then 1 else 0, other := 1 }

/-- Counts names by the sizes of roots, besides what another scale counts. -/
def withRoots (size : ContextRoot → Nat) (w : Scale) (roots : List ContextRoot) : Scale :=
  roots.foldr (fun r w => w.plus (size r) (root r)) w

end Scale

namespace Expr

mutual

theorem taken_texts_le {keyBytes : String → Nat} : ∀ e : Expr,
    e.taken (.texts keyBytes) ≤ Inscription.total keyBytes e.texts
  | .literal (.string s) => by
    show Inscription.bytes keyBytes (.literal s) ≤ Inscription.total keyBytes [.literal s]
    exact Inscription.bytes_le_total (List.mem_singleton_self _)
  | .literal (.number _) | .literal (.bool _) | .literal .null | .literal .undefined =>
    Nat.zero_le _
  | .template fragments => Nat.zero_le _
  | .name x => Nat.zero_le _
  | .array items => itemsTaken_texts_le items
  | .object entries => entriesTaken_texts_le entries
  | .member e _ _ => taken_texts_le e
  | .index e key optional => by
    rw [taken, texts, Inscription.total_append]
    exact Nat.le_trans (taken_texts_le e) (Nat.le_add_right _ _)
  | .call e args optional => by
    rw [taken, texts, Inscription.total_append]
    exact Nat.add_le_add (taken_texts_le e) (itemsTaken_texts_le args)
  | .construct e args => Nat.zero_le _
  | .unary .typeOf e => Nat.zero_le _
  | .unary .not _ | .unary .neg _ | .unary .plus _ => Nat.zero_le _
  | .binary op left right => Nat.zero_le _
  | .logical op left right => by
    have hleft : taken (.texts keyBytes) left ≤ _ := taken_texts_le left
    have hright : taken (.texts keyBytes) right ≤ _ := taken_texts_le right
    rw [taken, texts, Inscription.total_append]
    omega
  | .conditional test consequent alternate => by
    have hconsequent : taken (.texts keyBytes) consequent ≤ _ := taken_texts_le consequent
    have halternate : taken (.texts keyBytes) alternate ≤ _ := taken_texts_le alternate
    rw [taken, texts, Inscription.total_append, Inscription.total_append]
    omega
  | .arrow params body => Nat.zero_le _
termination_by structural e => e

theorem itemsTaken_texts_le {keyBytes : String → Nat} : ∀ items : List Expr,
    itemsTaken (.texts keyBytes) items ≤ Inscription.total keyBytes (itemTexts items)
  | [] => Nat.zero_le _
  | e :: rest => by
    rw [itemsTaken, itemTexts, Inscription.total_append]
    exact Nat.add_le_add (taken_texts_le e) (itemsTaken_texts_le rest)
termination_by structural items => items

theorem entriesTaken_texts_le {keyBytes : String → Nat} : ∀ entries : List (String × Expr),
    entriesTaken (.texts keyBytes) entries ≤ Inscription.total keyBytes (entryTexts entries)
  | [] => Nat.zero_le _
  | (key, e) :: rest => by
    rw [entriesTaken, entryTexts, Inscription.total_cons, Inscription.total_append, Nat.add_assoc]
    refine Nat.add_le_add_left (Nat.add_le_add (taken_texts_le e) ?_) _
    exact entriesTaken_texts_le rest
termination_by structural entries => entries

end

/-- Roots count as often as they are named. -/
theorem taken_withRoots_le (size : ContextRoot → Nat) (w : Scale) (roots : List ContextRoot)
    (e : Expr) : e.taken (w.withRoots size roots) ≤
      e.taken w + (roots.map fun r => size r * e.taken (.root r)).sum := by
  induction roots with
  | nil => exact Nat.le_refl _
  | cons r roots ih =>
    have hplus : e.taken ((w.withRoots size roots).plus (size r) (.root r)) ≤ _ := taken_plus_le e
    rw [List.map_cons, List.sum_cons]
    show e.taken ((w.withRoots size roots).plus (size r) (.root r)) ≤ _
    omega

end Expr

namespace Scale

variable {size : ContextRoot → Nat} {w : Scale} {roots : List ContextRoot}

theorem text_withRoots (x : Inscription) : (w.withRoots size roots).text x = w.text x := by
  induction roots with
  | nil => rfl
  | cons r roots ih => exact ih

theorem le_name_withRoots {r : ContextRoot} (hr : r ∈ roots) {x : String} (hx : x ∈ r.names) :
    size r ≤ (w.withRoots size roots).name x := by
  induction roots with
  | nil => cases hr
  | cons q roots ih =>
    show size r ≤ (w.withRoots size roots).name x + size q * if x ∈ q.names then 1 else 0
    rcases List.mem_cons.1 hr with rfl | hr
    · rw [if_pos hx, Nat.mul_one]
      exact Nat.le_add_left _ _
    · exact Nat.le_trans (ih hr) (Nat.le_add_right _ _)

end Scale

end Workflow
