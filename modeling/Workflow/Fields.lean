/-! Finite maps from keys to values, kept as entries in the order of their keys. -/
namespace Workflow

/-- The entries of a map; every operation here keeps their keys strictly increasing. -/
abbrev Fields (α : Type u) :=
  List (String × α)

namespace Fields

/-- Keys are strictly increasing, so each occurs once. -/
def Sorted (m : Fields α) : Prop :=
  m.Pairwise fun a b => a.1 < b.1

def get? (m : Fields α) (key : String) : Option α :=
  m.lookup key

def has (m : Fields α) (key : String) : Bool :=
  (m.lookup key).isSome

def keys (m : Fields α) : List String :=
  m.map (·.1)

/-- Adds a value under `key`, or replaces the one there. -/
def insert (m : Fields α) (key : String) (value : α) : Fields α :=
  match m with
  | [] => [(key, value)]
  | (k, v) :: rest =>
    if key < k then (key, value) :: (k, v) :: rest
    else if key = k then (key, value) :: rest
    else (k, v) :: insert rest key value

/-- Inserts entries one after another: the last value of a key stays. -/
def insertAll (m : Fields α) (entries : List (String × α)) : Fields α :=
  entries.foldl (fun m (key, value) => m.insert key value) m

def ofList (entries : List (String × α)) : Fields α :=
  insertAll [] entries

@[simp] theorem get?_nil (key : String) : get? ([] : Fields α) key = none := rfl

theorem get?_insert (m : Fields α) (key k : String) (value : α) :
    get? (insert m key value) k = if k = key then some value else get? m k := by
  induction m with
  | nil => simp [insert, get?, List.lookup_cons]; grind
  | cons e rest ih =>
    obtain ⟨k', v⟩ := e
    simp only [get?] at ih
    simp only [insert, get?]
    split
    · simp [List.lookup_cons]; grind
    · split
      · simp [List.lookup_cons]; grind
      · simp [List.lookup_cons, ih]; grind

end Fields

end Workflow
