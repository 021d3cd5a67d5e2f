/-! White space: trimming, and the words between it. -/
namespace Workflow.Text

/-- The characters of the Unicode property White_Space. -/
def isBlank (c : Char) : Bool :=
  let n := c.toNat
  (9 ≤ n && n ≤ 13) || n = 0x20 || n = 0x85 || n = 0xa0 || n = 0x1680 ||
    (0x2000 ≤ n && n ≤ 0x200a) || n = 0x2028 || n = 0x2029 || n = 0x202f || n = 0x205f || n = 0x3000

/-- The six ASCII characters of white space, the vertical tab among them. -/
def isAsciiBlank (c : Char) : Bool :=
  (9 ≤ c.toNat && c.toNat ≤ 13) || c.toNat = 0x20

theorem isBlank_of_isAsciiBlank {c : Char} (h : isAsciiBlank c = true) : isBlank c = true := by
  simp only [isAsciiBlank, isBlank, Bool.or_eq_true] at h ⊢
  rcases h with h | h
  · simp only [h, true_or]
  · simp only [h, true_or, or_true]

def trimStart (s : List Char) : List Char :=
  s.dropWhile isBlank

def trimEnd (s : List Char) : List Char :=
  (s.reverse.dropWhile isBlank).reverse

def trim (s : List Char) : List Char :=
  trimEnd (trimStart s)

/-- The pieces between the elements that satisfy `p`, empty ones included. -/
def splitWhen (p : α → Bool) (l : List α) : List (List α) :=
  l.foldr (fun a pieces =>
    if p a then [] :: pieces
    else match pieces with
      | [] => [[a]]
      | piece :: rest => (a :: piece) :: rest) [[]]

/-- The maximal runs of characters that are not white space. -/
def words (s : List Char) : List (List Char) :=
  (splitWhen isBlank s).filter (!·.isEmpty)

theorem length_dropWhile_le (p : α → Bool) (l : List α) : (l.dropWhile p).length ≤ l.length :=
  (List.dropWhile_sublist p).length_le

end Workflow.Text
