import Workflow.Proofs.Expr.Readers

/-! Spelled expressions are read back as they are. -/
namespace Workflow

namespace Parser

/-- The scope behind the level that was opened last, with so many left. -/
def Scope.within (room limit : Nat) : Scope where
  room := room
  limit := limit
  inner := fun limit goal ts => Parser.nested room limit goal ts

namespace Scope

theorem fragments_text {s : Scope} {fragments : List Fragment} {chunks : List Chunk} (t : String)
    (h : s.fragments chunks = .ok fragments) :
    s.fragments (.text t :: chunks) = .ok (.text t :: fragments) := by
  unfold Scope.fragments at h ⊢
  rw [List.mapM_cons, h]
  rfl

/-- A hole is read with the room that is left, which is enough for its text. -/
theorem fragments_hole {room limit limit' : Nat} {e : Expr} {source : String}
    {fragments : List Fragment} {chunks : List Chunk} (he : Expr.parse limit' source = .ok e)
    (hr : limit' ≤ room) (h : (within room limit).fragments chunks = .ok fragments) :
    (within room limit).fragments (.source source :: chunks) = .ok (.hole e :: fragments) := by
  have hw : Expr.parse room source = .ok e := parse_of_le hr he
  unfold Scope.fragments at h ⊢
  rw [List.mapM_cons, h]
  dsimp only
  rw [show whole ((within room limit).inner (within room limit).room .expression) source = .ok e
    from hw]
  rfl

section

variable {e : Expr} {sp : List Spanned} {n room limit : Nat}

theorem readsInner_within (h : ∀ k, n ≤ k → (within k limit).ReadsAt 0 sp e) (hn : n < room) :
    (within room limit).ReadsInner sp e := by
  cases room with
  | zero => exact absurd hn (Nat.not_lt_zero n)
  | succ room => exact h room (Nat.le_of_lt_succ hn)

theorem nested_unary_within (h : ∀ k, n ≤ k → (within k limit).ReadsAt 9 sp e)
    (hn : n < room) :
    ∀ rest, Stops 9 rest → Yields ((within room limit).nested .unary (sp ++ rest)) e rest := by
  cases room with
  | zero => exact absurd hn (Nat.not_lt_zero n)
  | succ room => exact h room (Nat.le_of_lt_succ hn)

theorem nested_power_within (h : ∀ k, n ≤ k → (within k limit).ReadsAt 8 sp e)
    (hn : n < room) :
    ∀ rest, Stops 8 rest → Yields ((within room limit).nested .power (sp ++ rest)) e rest := by
  cases room with
  | zero => exact absurd hn (Nat.not_lt_zero n)
  | succ room => exact h room (Nat.le_of_lt_succ hn)

end

end Scope

end Parser

open Parser.Scope

mutual

/-- Where its level is called for, a spelled expression is read by the reader of that level. -/
theorem Spells.reads {e : Expr} {ts : List Token} {n : Nat} : Spells e ts n →
    ∀ {room limit : Nat} {sp : List Spanned}, n ≤ room → sp.map Spanned.token = ts →
      (within room limit).ReadsAt e.level sp e
  | .number x, _, _, _, _, hsp => by
    obtain ⟨o, rfl⟩ := exists_of_map_singleton hsp
    exact ReadsPrimary.of_operand (.number x) o
  | .string x, _, _, _, _, hsp => by
    obtain ⟨o, rfl⟩ := exists_of_map_singleton hsp
    exact ReadsPrimary.of_operand (.string x) o
  | .name hx, _, _, _, _, hsp => by
    obtain ⟨o, rfl⟩ := exists_of_map_singleton hsp
    exact ReadsPrimary.of_operand (.name hx) o
  | .true, _, _, _, _, hsp | .false, _, _, _, _, hsp | .null, _, _, _, _, hsp
  | .undefined, _, _, _, _, hsp => by
    obtain ⟨o, rfl⟩ := exists_of_map_singleton hsp
    exact ⟨⟨_, _, rfl, rfl, rfl⟩, fun rest => ⟨_, rfl⟩⟩
  | .template h, _, limit, _, hn, hsp => by
    obtain ⟨o, rfl⟩ := exists_of_map_singleton hsp
    exact ReadsPrimary.template (h.reads hn) o
  | .array h, _, _, _, hn, hsp => by
    obtain ⟨o, sp, rfl, h₁⟩ := exists_of_map_token hsp
    obtain ⟨sp, us, rfl, hitems, h₂⟩ := List.map_eq_append_iff.1 h₁
    obtain ⟨o', rfl⟩ := exists_of_map_singleton h₂
    exact ReadsPrimary.array (h.reads hn hitems isClosing_rightBracket) o o'
  | .object h, _, _, _, hn, hsp => by
    obtain ⟨o, sp, rfl, h₁⟩ := exists_of_map_token hsp
    obtain ⟨sp, us, rfl, hentries, h₂⟩ := List.map_eq_append_iff.1 h₁
    obtain ⟨o', rfl⟩ := exists_of_map_singleton h₂
    exact ReadsPrimary.object (h.reads hn hentries) o o'
  | .member x optional h, _, _, _, hn, hsp => by
    obtain ⟨sp, us, rfl, he, hus⟩ := List.map_eq_append_iff.1 hsp
    exact ReadsChain.member (h.reads (by decide) hn he) x optional hus
  | .index optional h hk, room, limit, _, hn, hsp => by
    obtain ⟨sp, us, rfl, he, h₁⟩ := List.map_eq_append_iff.1 hsp
    obtain ⟨us, vs, rfl, hus, h₂⟩ := List.map_eq_append_iff.1 h₁
    obtain ⟨vs, ws, rfl, hkey, h₃⟩ := List.map_eq_append_iff.1 h₂
    obtain ⟨o, rfl⟩ := exists_of_map_singleton h₃
    have key : (within room limit).ReadsInner vs _ :=
      readsInner_within (fun k hn => hk.reads (by decide) hn hkey) (by omega)
    exact ReadsChain.index (h.reads (by decide) (by omega) he) optional hus key o
  | .call optional h ha, _, _, _, hn, hsp => by
    obtain ⟨sp, us, rfl, he, h₁⟩ := List.map_eq_append_iff.1 hsp
    obtain ⟨us, vs, rfl, hus, h₂⟩ := List.map_eq_append_iff.1 h₁
    obtain ⟨vs, ws, rfl, hargs, h₃⟩ := List.map_eq_append_iff.1 h₂
    obtain ⟨o, rfl⟩ := exists_of_map_singleton h₃
    exact ReadsChain.call (h.reads (by decide) (by omega) he) optional hus
      (ha.reads (by omega) hargs isClosing_rightParen) o
  | .construct h ha, _, _, _, hn, hsp => by
    obtain ⟨o, sp, rfl, h₁⟩ := exists_of_map_token hsp
    obtain ⟨sp, us, rfl, he, h₂⟩ := List.map_eq_append_iff.1 h₁
    obtain ⟨o', us, rfl, h₃⟩ := exists_of_map_token h₂
    obtain ⟨us, vs, rfl, hargs, h₄⟩ := List.map_eq_append_iff.1 h₃
    obtain ⟨o'', rfl⟩ := exists_of_map_singleton h₄
    exact ReadsPrimary.construct (h.reads (by decide) (by omega) he)
      (ha.reads (by omega) hargs isClosing_rightParen) o o' o''
  | .unary op h, room, limit, _, hn, hsp => by
    obtain ⟨o, sp, rfl, he⟩ := exists_of_map_token hsp
    exact ReadsUnary.prefixed (nested_unary_within (fun k hn => h.reads (by decide) hn he) hn) o
  -- the base is read in the same room, the exponent one level deeper
  | .power hb he, room, limit, _, hn, hsp => by
    obtain ⟨sp, us, rfl, hbase, h₁⟩ := List.map_eq_append_iff.1 hsp
    obtain ⟨o, us, rfl, hexponent⟩ := exists_of_map_token h₁
    have base : (within room limit).ReadsUnary sp _ := hb.reads (by decide) (by omega) hbase
    exact base.power
      (nested_power_within (fun k hn => he.reads (by decide) hn hexponent) (by omega)) o
  | .binary hne hl hr, _, _, _, hn, hsp => by
    obtain ⟨sp, us, rfl, hleft, h₁⟩ := List.map_eq_append_iff.1 hsp
    obtain ⟨o, us, rfl, hright⟩ := exists_of_map_token h₁
    exact ReadsAt.joint (j := .binary _) (fun h => hne (Joint.binary.inj h))
      (hl.reads (Joint.level_add_le _ (by decide)) (by omega) hleft)
      (hr.reads (Joint.level_add_le _ (by decide)) (by omega) hright) o
  | .logical hl hr, _, _, _, hn, hsp => by
    obtain ⟨sp, us, rfl, hleft, h₁⟩ := List.map_eq_append_iff.1 hsp
    obtain ⟨o, us, rfl, hright⟩ := exists_of_map_token h₁
    exact ReadsAt.joint (j := .logical _) (fun h => Joint.noConfusion h)
      (hl.reads (Joint.level_add_le _ (by decide)) (by omega) hleft)
      (hr.reads (Joint.level_add_le _ (by decide)) (by omega) hright) o
  -- the test stands at the level of operators, so that no arrow follows its first tokens
  | .conditional ht hc ha, room, limit, _, hn, hsp => by
    obtain ⟨sp, us, rfl, htest, h₁⟩ := List.map_eq_append_iff.1 hsp
    obtain ⟨o, us, rfl, h₂⟩ := exists_of_map_token h₁
    obtain ⟨us, vs, rfl, hconsequent, h₃⟩ := List.map_eq_append_iff.1 h₂
    obtain ⟨o', vs, rfl, halternate⟩ := exists_of_map_token h₃
    have test : (within room limit).ReadsLeft 6 sp _ := ht.reads (by decide) (by omega) htest
    have head := htest ▸ ht.noArrowHead (by decide) (by decide)
    have consequent : (within room limit).ReadsInner us _ :=
      readsInner_within (fun k hn => hc.reads (by decide) hn hconsequent) (by omega)
    have alternate : (within room limit).ReadsInner vs _ :=
      readsInner_within (fun k hn => ha.reads (by decide) hn halternate) (by omega)
    exact ReadsOperand.conditional (test.operand (Nat.le_refl 6)) head consequent alternate o o'
  | .arrow params h, room, limit, _, hn, hsp => by
    obtain ⟨sp, us, rfl, hparams, h₁⟩ := List.map_eq_append_iff.1 hsp
    obtain ⟨o, us, rfl, hbody⟩ := exists_of_map_token h₁
    have body : (within room limit).ReadsInner us _ :=
      readsInner_within (fun k hn => h.reads (by decide) hn hbody) hn
    exact ReadsInner.arrow body hparams o
termination_by structural h => h

theorem SpellsAt.reads {level : Nat} {e : Expr} {ts : List Token} {n : Nat} :
    SpellsAt level e ts n → level ≤ 11 → ∀ {room limit : Nat} {sp : List Spanned}, n ≤ room →
      sp.map Spanned.token = ts → (within room limit).ReadsAt level sp e
  | .bare hl h, _, _, _, _, hn, hsp =>
    (h.reads hn hsp).of_le hl e.level_le fun hp => hsp ▸ h.noArrowHead (Expr.ne_arrow_of_level hp)
  | .enclosed hl h, hle, room, limit, _, hn, hsp => by
    have head : NoArrowHead _ := (SpellsAt.enclosed hl h).noArrowHead (by omega) hle
    rw [← hsp] at head
    obtain ⟨o, sp, rfl, h₁⟩ := exists_of_map_token hsp
    obtain ⟨sp, us, rfl, he, h₂⟩ := List.map_eq_append_iff.1 h₁
    obtain ⟨o', rfl⟩ := exists_of_map_singleton h₂
    have inner : (within room limit).ReadsInner sp _ := readsInner_within (fun k hn =>
      (h.reads hn he).of_le (Nat.zero_le _) (Expr.level_le _) fun hp =>
        he ▸ h.noArrowHead (Expr.ne_arrow_of_level hp)) hn
    have reads : (within room limit).ReadsAt 11 _ _ := ReadsPrimary.enclosed inner o o'
    exact reads.of_le hle (Nat.le_refl 11) fun _ => head
  | .new hl h, _, room, limit, _, hn, hsp => by
    have head : NoArrowHead _ := .of_starts "new" h.starts
    rw [← hsp] at head
    obtain ⟨o, sp, rfl, he⟩ := exists_of_map_token hsp
    have reads : (within room limit).ReadsAt 9 _ _ := ReadsPrimary.new (h.reads (by decide) hn he) o
    exact reads.of_le hl (by decide) fun _ => head
termination_by structural h => h

theorem SpellsItems.reads {es : List Expr} {ts : List Token} {n : Nat} : SpellsItems es ts n →
    ∀ {room limit : Nat} {sp : List Spanned} {close : Mark}, n ≤ room →
      sp.map Spanned.token = ts → IsClosing close → (within room limit).ReadsItems close sp es
  | .nil, _, _, _, _, _, hsp, _ => by
    obtain rfl := List.map_eq_nil_iff.1 hsp
    exact .nil
  | .one h, room, limit, sp, _, hn, hsp, hc => by
    have item : (within room limit).ReadsInner sp _ :=
      readsInner_within (fun k hn => h.reads (by decide) hn hsp) hn
    exact ReadsItems.one hc item (hsp ▸ h.starts)
  | .cons h hes, room, limit, _, _, hn, hsp, hc => by
    obtain ⟨sp, us, rfl, he, h₁⟩ := List.map_eq_append_iff.1 hsp
    obtain ⟨o, us, rfl, hus⟩ := exists_of_map_token h₁
    have item : (within room limit).ReadsInner sp _ :=
      readsInner_within (fun k hn => h.reads (by decide) hn he) (by omega)
    exact ReadsItems.cons hc item (he ▸ h.starts) (hes.reads (by omega) hus hc) o
termination_by structural h => h

theorem SpellsEntry.reads {entry : String × Expr} {ts : List Token} {n : Nat} :
    SpellsEntry entry ts n → ∀ {room limit : Nat} {sp : List Spanned}, n ≤ room →
      sp.map Spanned.token = ts → (within room limit).ReadsEntry sp entry
  | .pair hk h, room, limit, _, hn, hsp => by
    obtain ⟨o, sp, rfl, h₁⟩ := exists_of_map_token hsp
    obtain ⟨o', sp, rfl, he⟩ := exists_of_map_token h₁
    have value : (within room limit).ReadsInner sp _ :=
      readsInner_within (fun k hn => h.reads (by decide) hn he) hn
    exact ReadsEntry.pair hk value o o'
  | .short hk, _, _, _, _, hsp => by
    obtain ⟨o, rfl⟩ := exists_of_map_singleton hsp
    exact ReadsEntry.short hk o
termination_by structural h => h

theorem SpellsEntries.reads {entries : List (String × Expr)} {ts : List Token} {n : Nat} :
    SpellsEntries entries ts n → ∀ {room limit : Nat} {sp : List Spanned}, n ≤ room →
      sp.map Spanned.token = ts → (within room limit).ReadsEntries sp entries
  | .nil, _, _, _, _, hsp => by
    obtain rfl := List.map_eq_nil_iff.1 hsp
    exact .nil
  | .one h, _, _, _, hn, hsp => .one (h.reads hn hsp) (hsp ▸ h.starts)
  | .cons h hm, _, _, _, hn, hsp => by
    obtain ⟨sp, us, rfl, he, h₁⟩ := List.map_eq_append_iff.1 hsp
    obtain ⟨o, us, rfl, hus⟩ := exists_of_map_token h₁
    exact ReadsEntries.cons (h.reads (by omega) he) (he ▸ h.starts) (hm.reads (by omega) hus) o
termination_by structural h => h

theorem SpellsFragments.reads {fragments : List Fragment} {chunks : List Chunk} {n : Nat} :
    SpellsFragments fragments chunks n → ∀ {room limit : Nat}, n ≤ room →
      (within room limit).fragments chunks = .ok fragments
  | .nil, _, _, _ => rfl
  | .text t h, _, _, hn => fragments_text t (h.reads hn)
  | .hole he h, _, _, hn => fragments_hole he (by omega) (h.reads (by omega))
termination_by structural h => h

end

namespace Parser

/-- In front of the end, spelled tokens are all taken up. -/
theorem yields_of_spells {e : Expr} {ts : List Token} {n limit : Nat} (hs : SpellsAt 0 e ts n)
    (hn : n < limit) {sp : List Spanned} (hsp : sp.map Spanned.token = ts) (o : Nat) :
    Yields (Parser.nested limit limit .expression (sp ++ [⟨.stop, o⟩])) e [⟨.stop, o⟩] := by
  have hread : (within limit limit).ReadsInner sp e :=
    readsInner_within (fun k hk => hs.reads (by decide) hk hsp) hn
  exact hread [⟨.stop, o⟩] (.of_none rfl o [])

theorem parse_of_yields {e : Expr} {ts : List Spanned} {o limit : Nat} {source : String}
    (hy : Yields (Parser.nested limit limit .expression ts) e [⟨.stop, o⟩])
    (hsource : tokenize source = .ok ts) : Expr.parse limit source = .ok e := by
  obtain ⟨_, hy⟩ := hy
  unfold Expr.parse whole
  rw [hsource]
  dsimp only [bind, Except.bind]
  rw [hy]
  rfl

/-- A text whose tokens spell an expression is read as the expression. -/
theorem parse_of_spells {e : Expr} {ts : List Token} {n limit : Nat} (hs : SpellsAt 0 e ts n)
    (hn : n < limit) {source : String} {spanned : List Spanned}
    (hsource : tokenize source = .ok spanned) (hts : spanned.map Spanned.token = ts ++ [.stop]) :
    Expr.parse limit source = .ok e := by
  obtain ⟨sp, rest, rfl, hsp, hstop⟩ := List.map_eq_append_iff.1 hts
  obtain ⟨o, rfl⟩ := exists_of_map_singleton hstop
  exact parse_of_yields (yields_of_spells hs hn hsp o) hsource

/-- Every expression that can be written at all is spelled by some tokens with no more parentheses
than its operators call for. Whichever of them are read, with as many levels to open as they are
nested, all of them are taken up and give back the expression. -/
theorem spelled_read_back (e : Expr) (he : e.Writable) :
    (∃ ts n, SpellsAt 0 e ts n) ∧
      ∀ ts n, SpellsAt 0 e ts n → ∀ limit, n < limit → ∀ (sp : List Spanned) (o : Nat),
        sp.map Spanned.token = ts →
          Yields (Parser.nested limit limit .expression (sp ++ [⟨.stop, o⟩])) e [⟨.stop, o⟩] ∧
            ∀ source, tokenize source = .ok (sp ++ [⟨.stop, o⟩]) →
              Expr.parse limit source = .ok e := by
  constructor
  · obtain ⟨ts, n, hs⟩ := exists_spells e he
    exact hs.exists_at 0
  · intro ts n hs limit hn sp o hsp
    have hy := yields_of_spells hs hn hsp o
    exact ⟨hy, fun source hsource => parse_of_yields hy hsource⟩

/-- A power whose base is negated takes no parentheses, and opens one level for the operand of the
sign and one for the exponent. -/
theorem negated_power_read_back :
    ∃ h, Parser.nested 2 2 .expression
        [⟨.mark .minus, 0⟩, ⟨.name "x", 1⟩, ⟨.mark .starStar, 3⟩, ⟨.name "y", 6⟩, ⟨.stop, 7⟩] =
      .ok (.binary .pow (.unary .neg (.name "x")) (.name "y"), ⟨[⟨.stop, 7⟩], h⟩) := by
  have hx : Spells (.name "x") [.name "x"] 0 := .name (by decide)
  have hy : Spells (.name "y") [.name "y"] 0 := .name (by decide)
  have hneg : Spells (.unary .neg (.name "x")) [.mark .minus, .name "x"] 1 :=
    .unary .neg (.bare (by decide) hx)
  have hpow : Spells (.binary .pow (.unary .neg (.name "x")) (.name "y"))
      [.mark .minus, .name "x", .mark .starStar, .name "y"] 1 :=
    .power (.bare (by decide) hneg) (.bare (by decide) hy)
  have hw : (Expr.binary .pow (.unary .neg (.name "x")) (.name "y")).Writable := by
    constructor
    all_goals show _ ∉ keywords
    all_goals decide
  exact ((spelled_read_back _ hw).2 _ 1 (.bare (Nat.zero_le _) hpow) 2 (by decide)
    [⟨.mark .minus, 0⟩, ⟨.name "x", 1⟩, ⟨.mark .starStar, 3⟩, ⟨.name "y", 6⟩] 7 rfl).1

end Parser

end Workflow
