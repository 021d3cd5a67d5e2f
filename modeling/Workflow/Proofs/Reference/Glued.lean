import Workflow.Proofs.Reference.Forms
import Workflow.Resolve

/-! What may stand behind the root of a reference. Behind the name of a root it is a path; behind a
node or an index it is anything, and all of it is looked up. -/
namespace Workflow.Reference

open Text

/-- The path behind the root of a reference. -/
def path? : Reference → Option (List Char)
  | .node _ path | .vars path | .workflow path | .execution path | .jsonIndex _ path
  | .json path => some path
  | .itemIndex => none

/-- The names that references begin with. -/
def rootNames : List String :=
  ["$node", "$vars", "$workflow", "$execution", "$json", "json", "$itemIndex"]

theorem root_of_selects {content path : List Char} (h : Selects content path) :
    ∃ root ∈ rootNames, ∃ rest, content = root.toList ++ rest ∧ Path.IsBreak rest := by
  cases h with
  | quoted => exact ⟨"$node", by decide, _, rfl, fun c hc => Or.inr (Option.some.inj hc).symm⟩
  | named => exact ⟨"$node", by decide, _, rfl, fun c hc => Or.inl (Option.some.inj hc).symm⟩
  | index hroot =>
    rcases hroot with rfl | rfl
    · exact ⟨"$json", by decide, _, rfl, fun c hc => Or.inr (Option.some.inj hc).symm⟩
    · exact ⟨"json", by decide, _, rfl, fun c hc => Or.inr (Option.some.inj hc).symm⟩

/-- No name of a root begins another one, so a content has one root. -/
theorem root_unique {root root' : String} (h : root ∈ rootNames) (h' : root' ∈ rootNames)
    {rest rest' : List Char} (he : root.toList ++ rest = root'.toList ++ rest') : rest = rest' := by
  have hnames : ∀ root ∈ rootNames, ∀ root' ∈ rootNames,
      root.toList.isPrefixOf root'.toList = true → root = root' := by
    decide
  have hprefix : root.toList <+: root'.toList ∨ root'.toList <+: root.toList :=
    List.prefix_or_prefix_of_prefix ⟨rest, he⟩ ⟨rest', rfl⟩
  have hroot : root = root' := by
    rcases hprefix with hp | hp
    · exact hnames root h root' h' (List.isPrefixOf_iff_prefix.2 hp)
    · exact (hnames root' h' root h (List.isPrefixOf_iff_prefix.2 hp)).symm
  rw [hroot] at he
  exact List.append_cancel_left he

theorem form_of_parse? {content : List Char} {r : Reference} (h : parse? content = some r) :
    (∃ path, r.path? = some path ∧ Selects content path ∧ '\n' ∉ path) ∨
      ∃ root ∈ rootNames, ∃ rest, content = root.toList ++ rest ∧ Path.IsBreak rest ∧
        ∀ path, r.path? = some path → path = rest := by
  have hnamed (root : String) (hroot : root ∈ rootNames) {path : List Char}
      (hpath : root? root content = some path) (hr : r.path? = some path) :
      ∃ root ∈ rootNames, ∃ rest, content = root.toList ++ rest ∧ Path.IsBreak rest ∧
        ∀ path, r.path? = some path → path = rest := by
    obtain ⟨hcontent, hbreak⟩ := root?_eq_some_iff.1 hpath
    refine ⟨root, hroot, path, hcontent, hbreak, fun path' h' => ?_⟩
    exact Option.some.inj (h'.symm.trans hr)
  unfold parse? at h
  split at h
  · rename_i r' hnode
    obtain rfl := Option.some.inj h
    obtain ⟨name, path, rfl, hselects, hline⟩ := selects_of_node? hnode
    exact Or.inl ⟨path, rfl, hselects, hline⟩
  · split at h
    · rename_i path hpath
      obtain rfl := Option.some.inj h
      exact Or.inr (hnamed "$vars" (by decide) hpath rfl)
    · rename_i path hpath _
      obtain rfl := Option.some.inj h
      exact Or.inr (hnamed "$workflow" (by decide) hpath rfl)
    · rename_i path hpath _ _
      obtain rfl := Option.some.inj h
      exact Or.inr (hnamed "$execution" (by decide) hpath rfl)
    · split at h
      · rename_i digits path hindexed
        obtain ⟨i, -, rfl⟩ := Option.map_eq_some_iff.1 h
        obtain ⟨hselects, hline⟩ := selects_of_indexed? hindexed
        exact Or.inl ⟨path, rfl, hselects, hline⟩
      · split at h
        · rename_i path hpath
          obtain rfl := Option.some.inj h
          exact Or.inr (hnamed "$json" (by decide) hpath rfl)
        · rename_i path hpath _
          obtain rfl := Option.some.inj h
          exact Or.inr (hnamed "json" (by decide) hpath rfl)
        · split at h
          · rename_i hcontent
            obtain rfl := Option.some.inj h
            refine Or.inr ⟨"$itemIndex", by decide, [], ?_, nofun, nofun⟩
            rw [hcontent, List.append_nil]
          · contradiction

theorem path?_of_selects {content rest : List Char} {r : Reference} (hs : Selects content rest)
    (hline : '\n' ∉ rest) (h : parse? content = some r) : r.path? = some rest := by
  have hrest : oneLine? rest = some rest := oneLine?_eq_some_iff.2 ⟨rfl, hline⟩
  unfold parse? at h
  cases hs with
  | quoted hq hname hlead htrail =>
    rw [node?_quoted hq hname hlead htrail, hrest] at h
    obtain rfl := Option.some.inj h
    rfl
  | named hc hname hend =>
    rw [node?_named hc hname hend, hrest] at h
    obtain rfl := Option.some.inj h
    rfl
  | @index root lead digits trail _ hroot hne hdigits hlead htrail =>
    have hnode : ∀ s, node? (root ++ '[' :: s) = none := by
      rcases hroot with rfl | rfl
      · exact fun _ => rfl
      · exact fun _ => rfl
    have hother : ∀ name ∈ ["$vars", "$workflow", "$execution"], ∀ s,
        root? name (root ++ '[' :: s) = none := by
      rcases hroot with rfl | rfl
      · simp only [List.forall_mem_cons]
        exact ⟨fun _ => rfl, fun _ => rfl, fun _ => rfl, List.forall_mem_nil _⟩
      · simp only [List.forall_mem_cons]
        exact ⟨fun _ => rfl, fun _ => rfl, fun _ => rfl, List.forall_mem_nil _⟩
    rw [hnode, hother "$vars" (by decide), hother "$workflow" (by decide),
      hother "$execution" (by decide), indexed?_append hroot hne hdigits hlead htrail, hrest] at h
    obtain ⟨i, -, rfl⟩ := Option.map_eq_some_iff.1 h
    rfl

/-- Content in which something else than a dot or a bracket stands right behind a node or an index. -/
def Glued (content : List Char) : Prop :=
  ∃ rest, Selects content rest ∧ '\n' ∉ rest ∧ ¬Path.IsBreak rest

theorem isBreak_path_iff {content path : List Char} {r : Reference} (h : parse? content = some r)
    (hpath : r.path? = some path) : Path.IsBreak path ↔ ¬Glued content := by
  constructor
  · rintro hbreak ⟨rest, hselects, hline, hrest⟩
    have he := path?_of_selects hselects hline h
    obtain rfl := Option.some.inj (hpath.symm.trans he)
    exact hrest hbreak
  · intro hglued
    rcases form_of_parse? h with ⟨path', he, hselects, hline⟩ | ⟨root, -, rest, -, hrest, he⟩
    · obtain rfl := Option.some.inj (hpath.symm.trans he)
      by_contra hbreak
      exact hglued ⟨path, hselects, hline, hbreak⟩
    · rwa [he path hpath]

/-- What has something else than a dot or a bracket right behind the name of its root is no
reference. -/
theorem parse?_eq_none {root : String} (hroot : root ∈ rootNames) {rest : List Char}
    (h : ¬Path.IsBreak rest) : parse? (root.toList ++ rest) = none := by
  cases hr : parse? (root.toList ++ rest) with
  | none => rfl
  | some r =>
    have hname : ∃ root' ∈ rootNames, ∃ rest', root.toList ++ rest = root'.toList ++ rest' ∧
        Path.IsBreak rest' := by
      rcases form_of_parse? hr with ⟨path, -, hselects, -⟩ | ⟨root', hroot', rest', he, hbreak, -⟩
      · exact root_of_selects hselects
      · exact ⟨root', hroot', rest', he, hbreak⟩
    obtain ⟨root', hroot', rest', he, hbreak⟩ := hname
    rw [root_unique hroot hroot' he] at h
    exact absurd hbreak h

/-- The path of a reference is empty or begins with a dot or a bracket iff nothing is glued to a node
or to an index in front of it; what is glued to the name of a root never resolves to data. -/
theorem path_begins_hop_iff_not_glued (content : List Char) :
    (∀ r path, parse? content = some r → r.path? = some path →
        (Path.IsBreak path ↔ ¬Glued content)) ∧
      ∀ root ∈ rootNames, ∀ rest, content = root.toList ++ rest → ¬Path.IsBreak rest →
        ∀ resolver : Resolver, resolver.referenced? content = none := by
  refine ⟨fun r path h hpath => isBreak_path_iff h hpath, ?_⟩
  rintro root hroot rest rfl hrest resolver
  unfold Resolver.referenced?
  rw [parse?_eq_none hroot hrest]
  rfl

theorem path_begins_hop_behind_node :
    parse? "$node[\x22A\x22].x".toList = some (.node "A" ".x".toList) ∧
      (Path.IsBreak ".x".toList ↔ ¬Glued "$node[\x22A\x22].x".toList) ∧
      "$json" ∈ rootNames ∧ ¬Path.IsBreak "x".toList ∧
      ∀ resolver : Resolver, resolver.referenced? ("$json".toList ++ "x".toList) = none := by
  have hparse : parse? "$node[\x22A\x22].x".toList = some (.node "A" ".x".toList) := by decide
  have hroot : "$json" ∈ rootNames := by decide
  have hx : ¬Path.IsBreak "x".toList := fun h => absurd (h 'x' rfl) (by decide)
  exact ⟨hparse, (path_begins_hop_iff_not_glued _).1 _ _ hparse rfl, hroot, hx,
    (path_begins_hop_iff_not_glued _).2 "$json" hroot "x".toList rfl hx⟩

/-- The name that is glued to the index is looked up in the item. -/
theorem not_every_path_begins_hop :
    parse? "$json[0]name".toList = some (.jsonIndex 0 "name".toList) ∧
      ¬Path.IsBreak "name".toList ∧
      Resolver.referenced?
        { now := ⟨0, 0⟩, context := none, fallback := .array [.object [("name", .ofNat 1)]] }
        "$json[0]name".toList = some (.ofNat 1) := by
  have hparse : parse? "$json[0]name".toList = some (.jsonIndex 0 "name".toList) := by decide
  have hsegments : Path.segments "name".toList = ["name"] := by decide +kernel
  refine ⟨hparse, fun h => absurd (h 'n' rfl) (by decide), ?_⟩
  unfold Resolver.referenced?
  rw [hparse]
  show Path.lookup (.object [("name", .ofNat 1)]) "name".toList = _
  unfold Path.lookup
  rw [hsegments]
  rfl

end Workflow.Reference
