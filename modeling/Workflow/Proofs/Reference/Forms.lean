import Mathlib.Data.List.TakeDrop
import Mathlib.Data.List.TakeWhile
import Mathlib.Tactic.Common
import Workflow.Proofs.Path.Segments
import Workflow.Proofs.Text.Decimal
import Workflow.Proofs.Text.Pieces
import Workflow.Reference

/-! The forms of references, as they are put together. A root that is a name is followed by a path or
by nothing; a node or an index, which says itself where it ends, by whatever is on the same line. -/
namespace Workflow.Reference

open Text

theorem oneLine?_eq_some_iff {path path' : List Char} :
    oneLine? path = some path' ↔ path' = path ∧ '\n' ∉ path := by
  unfold oneLine?
  by_cases h : '\n' ∈ path
  · rw [if_pos (List.contains_iff_mem.2 h)]
    exact iff_of_false nofun fun hp => hp.2 h
  · rw [if_neg (mt List.contains_iff_mem.1 h), Option.some.injEq, and_iff_left h, eq_comm]

theorem dropStart?_append (start rest : List Char) :
    dropStart? start (start ++ rest) = some rest := by
  unfold dropStart?
  rw [if_pos (List.isPrefixOf_iff_prefix.2 (List.prefix_append _ _)), List.drop_left]

theorem dropStart?_eq_some_iff {start s rest : List Char} :
    dropStart? start s = some rest ↔ s = start ++ rest := by
  constructor
  · intro h
    unfold dropStart? at h
    split at h
    · rename_i hstart
      obtain ⟨t, rfl⟩ := List.isPrefixOf_iff_prefix.1 hstart
      rw [List.drop_left] at h
      rw [Option.some.inj h]
    · contradiction
  · rintro rfl
    exact dropStart?_append start rest

theorem root?_eq_some_iff {root : String} {content path : List Char} :
    root? root content = some path ↔ content = root.toList ++ path ∧ Path.IsBreak path := by
  unfold root?
  constructor
  · intro h
    obtain ⟨rest, hrest, h⟩ := Option.bind_eq_some_iff.1 h
    split at h
    · obtain rfl := Option.some.inj h
      exact ⟨dropStart?_eq_some_iff.1 hrest, nofun⟩
    · obtain rfl := Option.some.inj h
      exact ⟨dropStart?_eq_some_iff.1 hrest, fun c hc => Or.inl (Option.some.inj hc).symm⟩
    · obtain rfl := Option.some.inj h
      exact ⟨dropStart?_eq_some_iff.1 hrest, fun c hc => Or.inr (Option.some.inj hc).symm⟩
    · contradiction
  · rintro ⟨rfl, hbreak⟩
    rw [dropStart?_append]
    cases path with
    | nil => rfl
    | cons c rest =>
      rcases hbreak c rfl with rfl | rfl
      · rfl
      · rfl

theorem root?_append {path : List Char} (h : Path.IsBreak path) (root : String) :
    root? root (root.toList ++ path) = some path :=
  root?_eq_some_iff.2 ⟨rfl, h⟩

/-- White space as it may stand inside of brackets. -/
def AllBlank (s : List Char) : Prop :=
  ∀ c ∈ s, isAsciiBlank c = true

theorem not_isAsciiBlank_of_isDigit {c : Char} (h : Number.isDigit c = true) :
    isAsciiBlank c = false := by
  by_contra hc
  have hblank := isBlank_of_isAsciiBlank (by simpa using hc)
  rw [not_isBlank_of_isDigit h] at hblank
  contradiction

theorem exists_eq_append_skipBlanks (s : List Char) :
    ∃ blanks, AllBlank blanks ∧ s = blanks ++ skipBlanks s :=
  ⟨s.takeWhile isAsciiBlank, fun _ hc => List.mem_takeWhile_imp hc,
    List.takeWhile_append_dropWhile.symm⟩

theorem skipBlanks_append {blanks : List Char} (h : AllBlank blanks) {c : Char}
    (hc : isAsciiBlank c = false) (rest : List Char) :
    skipBlanks (blanks ++ c :: rest) = c :: rest := by
  unfold skipBlanks
  rw [List.dropWhile_append_of_pos h, List.dropWhile_cons_of_neg (by simpa using hc)]

theorem afterBracket?_append {blanks : List Char} (h : AllBlank blanks) (path : List Char) :
    afterBracket? (blanks ++ ']' :: path) = oneLine? path := by
  unfold afterBracket?
  rw [skipBlanks_append h (by decide)]
  rfl

theorem afterBracket?_eq_some_iff {s path : List Char} :
    afterBracket? s = some path ↔
      ∃ blanks, AllBlank blanks ∧ s = blanks ++ ']' :: path ∧ '\n' ∉ path := by
  constructor
  · intro h
    obtain ⟨blanks, hblanks, hs⟩ := exists_eq_append_skipBlanks s
    unfold afterBracket? at h
    split at h
    · rename_i rest he
      obtain ⟨rfl, hline⟩ := oneLine?_eq_some_iff.1 h
      exact ⟨blanks, hblanks, he ▸ hs, hline⟩
    · contradiction
  · rintro ⟨blanks, hblanks, rfl, hline⟩
    rw [afterBracket?_append hblanks]
    exact oneLine?_eq_some_iff.2 ⟨rfl, hline⟩

/-- Content that selects a node or an item, and what is behind that. -/
inductive Selects : List Char → List Char → Prop
  | quoted {q : Char} {lead name trail rest : List Char} :
    (q = '\x22' ∨ q = '\'') → q ∉ name → AllBlank lead → AllBlank trail →
      Selects ("$node".toList ++ '[' :: (lead ++ q :: (name ++ q :: (trail ++ ']' :: rest)))) rest
  | named {c : Char} {name rest : List Char} :
    isNameStart c = true → (∀ d ∈ name, isNamePart d = true) →
      (∀ d ∈ rest.head?, isNamePart d = false) →
      Selects ("$node".toList ++ '.' :: c :: (name ++ rest)) rest
  | index {root lead digits trail rest : List Char} :
    (root = "$json".toList ∨ root = "json".toList) → digits ≠ [] →
      (∀ d ∈ digits, Number.isDigit d = true) → AllBlank lead → AllBlank trail →
      Selects (root ++ '[' :: (lead ++ (digits ++ (trail ++ ']' :: rest)))) rest

theorem selects_of_node? {content : List Char} {r : Reference} (hnode : node? content = some r) :
    ∃ name path, r = .node name path ∧ Selects content path ∧ '\n' ∉ path := by
  unfold node? at hnode
  obtain ⟨rest, hrest, h⟩ := Option.bind_eq_some_iff.1 hnode
  clear hnode
  obtain rfl := dropStart?_eq_some_iff.1 hrest
  split at h
  · rename_i rest
    obtain ⟨lead, hlead, hbody⟩ := exists_eq_append_skipBlanks rest
    split at h
    · rename_i q body he
      split at h
      · rename_i hq
        obtain ⟨⟨name, after⟩, hcut, hbind⟩ := Option.bind_eq_some_iff.1 h
        obtain ⟨path, hpath, hr⟩ := Option.bind_eq_some_iff.1 hbind
        obtain ⟨rfl, hname⟩ := cutChar?_eq_some_iff.1 hcut
        obtain ⟨trail, htrail, rfl, hline⟩ := afterBracket?_eq_some_iff.1 hpath
        rw [he] at hbody
        rw [hbody]
        exact ⟨_, path, (Option.some.inj hr).symm, .quoted hq hname hlead htrail, hline⟩
      · contradiction
    · contradiction
  · rename_i c rest
    split at h
    · rename_i hc
      obtain ⟨path, hpath, hr⟩ := Option.bind_eq_some_iff.1 h
      obtain ⟨rfl, hline⟩ := oneLine?_eq_some_iff.1 hpath
      have hsplit : rest = rest.takeWhile isNamePart ++ rest.dropWhile isNamePart :=
        List.takeWhile_append_dropWhile.symm
      have hselects : Selects ("$node".toList ++ '.' :: c :: rest) (rest.dropWhile isNamePart) := by
        conv in '.' :: c :: rest => rw [hsplit]
        exact .named hc (fun d hd => List.mem_takeWhile_imp hd) head_dropWhile
      exact ⟨_, _, (Option.some.inj hr).symm, hselects, hline⟩
    · contradiction
  · contradiction

theorem node?_quoted {q : Char} {lead name trail : List Char} (hq : q = '\x22' ∨ q = '\'')
    (hname : q ∉ name) (hlead : AllBlank lead) (htrail : AllBlank trail) (path : List Char) :
    node? ("$node".toList ++ '[' :: (lead ++ q :: (name ++ q :: (trail ++ ']' :: path)))) =
      (oneLine? path).map (.node (String.ofList name)) := by
  have hquote : isAsciiBlank q = false := by
    rcases hq with rfl | rfl
    · decide
    · decide
  unfold node?
  rw [dropStart?_append]
  dsimp only [Option.bind_eq_bind, Option.bind_some]
  split
  · rename_i rest he
    obtain rfl := (List.cons.inj he).2
    rw [skipBlanks_append hlead hquote]
    dsimp only
    rw [if_pos hq, cutChar?_eq_some_iff.2 ⟨rfl, hname⟩, Option.bind_some,
      afterBracket?_append htrail]
    exact (Option.map_eq_bind ..).symm
  · rename_i he
    exact absurd (List.cons.inj he).1 (by decide)
  · rename_i hother _
    exact absurd rfl (hother _)

theorem node?_named {c : Char} {name rest : List Char} (hc : isNameStart c = true)
    (hname : ∀ d ∈ name, isNamePart d = true) (hrest : ∀ d ∈ rest.head?, isNamePart d = false) :
    node? ("$node".toList ++ '.' :: c :: (name ++ rest)) =
      (oneLine? rest).map (.node (String.ofList (c :: name))) := by
  have hdot (rest : List Char) : node? ("$node".toList ++ '.' :: c :: rest) =
      if isNameStart c then
        (oneLine? (rest.dropWhile isNamePart)).bind fun path =>
          some (.node (String.ofList (c :: rest.takeWhile isNamePart)) path)
      else none :=
    rfl
  rw [hdot, if_pos hc, List.takeWhile_append_of_pos hname, List.dropWhile_append_of_pos hname,
    takeWhile_eq_nil hrest, dropWhile_eq_self hrest, List.append_nil]
  exact (Option.map_eq_bind ..).symm

theorem selects_of_indexed? {content digits path : List Char}
    (hindexed : indexed? content = some (digits, path)) : Selects content path ∧ '\n' ∉ path := by
  unfold indexed? at hindexed
  obtain ⟨rest, hrest, h⟩ := Option.bind_eq_some_iff.1 hindexed
  clear hindexed
  have hbody := dropStart?_eq_some_iff.1 hrest
  have hroot : ∃ root, (root = "$json".toList ∨ root = "json".toList) ∧
      content = root ++ '[' :: rest := by
    split at hbody
    · exact ⟨_, Or.inl rfl, congrArg ('$' :: ·) hbody⟩
    · exact ⟨_, Or.inr rfl, hbody⟩
  obtain ⟨root, hroot, rfl⟩ := hroot
  obtain ⟨lead, hlead, hskip⟩ := exists_eq_append_skipBlanks rest
  dsimp only at h
  split at h
  · contradiction
  · rename_i hdigits
    obtain ⟨path', hpath, hr⟩ := Option.bind_eq_some_iff.1 h
    obtain ⟨rfl, rfl⟩ := Prod.mk.inj (Option.some.inj hr)
    obtain ⟨trail, htrail, hafter, hline⟩ := afterBracket?_eq_some_iff.1 hpath
    have hsplit : rest = lead ++ ((skipBlanks rest).takeWhile Number.isDigit ++
        (trail ++ ']' :: path')) := by
      rw [← hafter, List.takeWhile_append_dropWhile]
      exact hskip
    rw [hsplit]
    refine ⟨.index hroot ?_ (fun d hd => List.mem_takeWhile_imp hd) hlead htrail, hline⟩
    simpa using hdigits

theorem indexed?_append {root lead digits trail : List Char}
    (hroot : root = "$json".toList ∨ root = "json".toList) (hne : digits ≠ [])
    (hdigits : ∀ d ∈ digits, Number.isDigit d = true) (hlead : AllBlank lead)
    (htrail : AllBlank trail) (path : List Char) :
    indexed? (root ++ '[' :: (lead ++ (digits ++ (trail ++ ']' :: path)))) =
      (oneLine? path).map (digits, ·) := by
  have hbracket (rest : List Char) : indexed? (root ++ '[' :: rest) =
      if ((skipBlanks rest).takeWhile Number.isDigit).isEmpty then none
      else (afterBracket? ((skipBlanks rest).dropWhile Number.isDigit)).bind fun path =>
        some ((skipBlanks rest).takeWhile Number.isDigit, path) := by
    rcases hroot with rfl | rfl
    · rfl
    · rfl
  have hskip : skipBlanks (lead ++ (digits ++ (trail ++ ']' :: path))) =
      digits ++ (trail ++ ']' :: path) := by
    obtain ⟨d, ds, rfl⟩ := List.exists_cons_of_ne_nil hne
    exact skipBlanks_append hlead (not_isAsciiBlank_of_isDigit (hdigits d List.mem_cons_self)) _
  have hend : ∀ c ∈ (trail ++ ']' :: path).head?, Number.isDigit c = false := by
    intro c hc
    cases trail with
    | nil =>
      obtain rfl : ']' = c := Option.some.inj hc
      decide
    | cons b trail =>
      obtain rfl : b = c := Option.some.inj hc
      by_contra hdigit
      have hblank := htrail b List.mem_cons_self
      rw [not_isAsciiBlank_of_isDigit (by simpa using hdigit)] at hblank
      contradiction
  rw [hbracket, hskip, List.takeWhile_append_of_pos hdigits, List.dropWhile_append_of_pos hdigits,
    takeWhile_eq_nil hend, dropWhile_eq_self hend, List.append_nil, afterBracket?_append htrail,
    if_neg (by simpa using hne)]
  exact (Option.map_eq_bind ..).symm

end Workflow.Reference
