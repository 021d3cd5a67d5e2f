import Workflow.Proofs.Attempt
import Workflow.Proofs.Expr.Cursor

/-! A reader goes forward and stays on its tokens: wherever it stands there is a token, which is the
one that is not what it should be if the reader gives up, and the end of the text is left to read.
Inner readers are asked only for what stands behind the place where the reader began. -/
namespace Workflow.Parser

/-- A place among the tokens. The end of the text is at or behind it. -/
structure On (us ts : List Spanned) : Prop where
  ended : Ended ts
  suffix : ts <:+ us

/-- A place behind the first token. -/
structure Inside (us ts : List Spanned) : Prop extends On us ts where
  shorter : ts.length < us.length

/-- The fault of the token at some place among these. -/
def UnexpectedIn (us : List Spanned) (fault : ParseFault) : Prop :=
  ∃ t rest, On us (t :: rest) ∧ fault = .malformed (.unexpectedToken t.token) t.offset

namespace On

variable {us ts rest : List Spanned} {t : Spanned} {m : Mark}

theorem refl (h : Ended us) : On us us :=
  ⟨h, List.suffix_rfl⟩

theorem trans (h : On us ts) (hr : On ts rest) : On us rest :=
  ⟨hr.ended, hr.suffix.trans h.suffix⟩

theorem tail (h : On us (t :: rest)) (ht : t.token ≠ .stop) : Inside us rest where
  ended := h.ended.tail ht
  suffix := (List.suffix_cons t rest).trans h.suffix
  shorter := h.suffix.length_le

theorem mark? {rest : { rest : List Spanned // rest.length < ts.length }} (h : On us ts)
    (hm : mark? m ts = some rest) : Inside us rest.1 := by
  unfold Parser.mark? at hm
  split at hm
  · split at hm
    · obtain rfl := Option.some.inj hm
      exact h.tail (by simp)
    · contradiction
  · contradiction

theorem mark (h : On us ts) (m : Mark) : mark m ts = .error (unexpected ts) ∨
    ∃ rest, Parser.mark m ts = .ok rest ∧ Inside us rest.1 := by
  unfold Parser.mark
  rcases hm : Parser.mark? m ts with _ | rest
  · exact Or.inl rfl
  · exact Or.inr ⟨rest, rfl, h.mark? hm⟩

/-- What is unexpected at a place is a token. -/
theorem unexpectedIn (h : On us ts) : UnexpectedIn us (unexpected ts) := by
  obtain ⟨t, rest, rfl⟩ := List.exists_cons_of_ne_nil h.ended.ne_nil
  exact ⟨t, rest, h, rfl⟩

theorem trans_unexpectedIn {fault : ParseFault} (h : On us ts) (hf : UnexpectedIn ts fault) :
    UnexpectedIn us fault := by
  obtain ⟨t, rest, ht, rfl⟩ := hf
  exact ⟨t, rest, h.trans ht, rfl⟩

end On

/-- Both readings are the same one. It leaves a place among the tokens, or it gives up at one or for
a reason that is not its own. -/
structure Stays {α : Type} {P : List Spanned → Prop} (foreign : ParseFault → Prop)
    (us : List Spanned) (r r' : Except ParseFault (α × { rest : List Spanned // P rest })) :
    Prop where
  same : r = r'
  ok : ∀ a rest, r = .ok (a, rest) → On us rest.1
  error : ∀ fault, r = .error fault → UnexpectedIn us fault ∨ foreign fault

namespace Stays

variable {α β : Type} {P Q : List Spanned → Prop} {foreign : ParseFault → Prop}
  {us ts : List Spanned} {r r' : Except ParseFault (α × { rest : List Spanned // P rest })}

theorem done {a : α} {rest : { rest : List Spanned // P rest }} (h : On us rest.1) :
    Stays foreign us (.ok (a, rest)) (.ok (a, rest)) where
  same := rfl
  ok := by
    rintro _ _ ⟨⟩
    exact h
  error := by
    rintro _ ⟨⟩

theorem unexpected (h : On us ts) : Stays foreign us
    (.error (unexpected ts) : Except ParseFault (α × { rest : List Spanned // P rest }))
    (.error (Parser.unexpected ts)) where
  same := rfl
  ok := by
    rintro _ _ ⟨⟩
  error := by
    rintro _ ⟨⟩
    exact Or.inl h.unexpectedIn

theorem fault {fault : ParseFault} (h : Stays foreign us r r') (hr : r = .error fault) :
    Stays foreign us (.error fault : Except ParseFault (β × { rest : List Spanned // Q rest }))
      (.error fault) where
  same := rfl
  ok := by
    rintro _ _ ⟨⟩
  error := by
    rintro _ ⟨⟩
    exact h.error fault hr

theorem bind {f f' : α × { rest : List Spanned // P rest } →
      Except ParseFault (β × { rest : List Spanned // Q rest })}
    (hr : Stays foreign us r r') (hf : ∀ a rest, On us rest.1 →
      Stays foreign us (f (a, rest)) (f' (a, rest))) : Stays foreign us (r >>= f) (r' >>= f') := by
  obtain ⟨rfl, hok, herror⟩ := hr
  rcases r with fault | ⟨a, rest⟩
  · refine ⟨rfl, by rintro _ _ ⟨⟩, ?_⟩
    rintro _ ⟨⟩
    exact herror fault rfl
  · exact hf a rest (hok a rest rfl)

theorem map {f : α × { rest : List Spanned // P rest } → β × { rest : List Spanned // Q rest }}
    (hr : Stays foreign us r r') (hf : ∀ a rest, (f (a, rest)).2.1 = rest.1) :
    Stays foreign us (r.map f) (r'.map f) := by
  refine hr.bind fun a rest hrest => ?_
  have hon : On us (f (a, rest)).2.1 := by
    rw [hf]
    exact hrest
  exact done hon

theorem imp {foreign' : ParseFault → Prop} (h : Stays foreign us r r')
    (hf : ∀ fault, foreign fault → foreign' fault) : Stays foreign' us r r' where
  same := h.same
  ok := h.ok
  error fault hr := (h.error fault hr).imp_right (hf fault)

theorem of_suffix (h : Stays foreign ts r r') (hts : On us ts) : Stays foreign us r r' where
  same := h.same
  ok a rest hr := hts.trans (h.ok a rest hr)
  error fault hr := (h.error fault hr).imp_left hts.trans_unexpectedIn

end Stays

theorem on_params? {us ts : List Spanned} {xs : List String}
    {rest : { rest : List Spanned // rest.length < ts.length }} (h : On us ts)
    (hp : Scope.params? ts = some (xs, rest)) : Inside us rest.1 := by
  unfold Scope.params? at hp
  split at hp
  · obtain ⟨-, rfl⟩ := Prod.mk.inj (Option.some.inj hp)
    exact h.tail (by simp)
  · obtain ⟨⟨ys, rest'⟩, hmore, he⟩ := Option.map_eq_some_iff.1 hp
    obtain ⟨-, rfl⟩ := Prod.mk.inj he
    have hrest := on_params? ((h.tail (by simp)).toOn.tail (by simp)).toOn hmore
    exact hrest
  · obtain ⟨-, rfl⟩ := Prod.mk.inj (Option.some.inj hp)
    exact (h.tail (by simp)).toOn.tail (by simp)
  · contradiction
termination_by ts.length

theorem on_arrowHead? {us ts : List Spanned} {xs : List String}
    {rest : { rest : List Spanned // rest.length < ts.length }} (h : On us ts)
    (ha : Scope.arrowHead? ts = some (xs, rest)) : Inside us rest.1 := by
  unfold Scope.arrowHead? at ha
  split at ha
  · obtain ⟨-, rfl⟩ := Prod.mk.inj (Option.some.inj ha)
    exact (h.tail (by simp)).toOn.tail (by simp)
  · rename_i offset more
    split at ha
    · rename_i ys rest' hrest' hp
      obtain ⟨rest'', harrow, he⟩ := Option.map_eq_some_iff.1 ha
      obtain ⟨-, rfl⟩ := Prod.mk.inj he
      exact (on_params? (h.tail (by simp)).toOn hp).toOn.mark? harrow
    · contradiction
  · contradiction

/-- The inner readers of both scopes read the same wherever a reader of these tokens asks them: at
places behind the first token, where they stay, and in the holes of templates. -/
structure Confined (foreign : ParseFault → Prop) (s s' : Scope) (us : List Spanned) : Prop where
  nested : ∀ goal ts, Inside us ts → Stays foreign us (s.nested goal ts) (s'.nested goal ts)
  hole : ∀ source, IsHole us source →
    Scope.whole (s.inner s.room .expression) source =
      Scope.whole (s'.inner s'.room .expression) source ∧
    ∀ fault, Scope.whole (s.inner s.room .expression) source = .error fault → foreign fault

namespace Confined

variable {foreign : ParseFault → Prop} {s s' : Scope} {us ts : List Spanned}
  (h : Confined foreign s s' us)
include h

theorem items (close : Mark) {ts : List Spanned} (hts : Inside us ts) :
    Stays foreign us (s.items close ts) (s'.items close ts) := by
  rw [Scope.items, Scope.items]
  rcases hclose : mark? close ts with _ | rest
  · dsimp only
    have hnested := h.nested .expression ts hts
    rw [← hnested.same]
    rcases hn : s.nested .expression ts with fault | ⟨e, rest, hrest⟩
    · exact hnested.fault hn
    · have hon : On us rest := hnested.ok e ⟨rest, hrest⟩ hn
      dsimp only
      rcases hcomma : mark? .comma rest with _ | ⟨more, hmore⟩
      · dsimp only
        rcases hon.mark close with hm | ⟨⟨rest', hrest'⟩, hm, hrest⟩
        · rw [hm]
          exact .unexpected hon
        · rw [hm]
          exact .done hrest.toOn
      · dsimp only
        -- the other elements are read from a place that is further on
        have hitems := items close (hon.mark? hcomma)
        rw [← hitems.same]
        rcases hi : s.items close more with fault | ⟨es, rest', hrest'⟩
        · exact hitems.fault hi
        · exact .done (hitems.ok es ⟨rest', hrest'⟩ hi)
  · exact .done (hts.mark? hclose).toOn
termination_by ts.length
decreasing_by exact Nat.lt_trans hmore hrest

theorem enclosed (close : Mark) (hts : Inside us ts) :
    Stays foreign us (s.enclosed close ts) (s'.enclosed close ts) := by
  unfold Scope.enclosed
  refine (h.nested .expression ts hts).bind fun e left hon => ?_
  obtain ⟨rest, hrest⟩ := left
  dsimp only
  rcases hon.mark close with hm | ⟨⟨rest', hrest'⟩, hm, hrest⟩
  · rw [hm]
    exact .unexpected hon
  · rw [hm]
    exact .done hrest.toOn

omit h in
theorem key (hts : On us ts) : Stays foreign us (Scope.key ts) (Scope.key ts) := by
  unfold Scope.key
  split
  · exact .done (hts.tail (by simp)).toOn
  · exact .done (hts.tail (by simp)).toOn
  · exact .done (hts.tail (by simp)).toOn
  · exact .unexpected hts

theorem entry (hts : Inside us ts) : Stays foreign us (s.entry ts) (s'.entry ts) := by
  unfold Scope.entry
  refine (key hts.toOn).bind fun key left hon => ?_
  obtain ⟨rest, hrest⟩ := left
  dsimp only
  rcases hcolon : mark? .colon rest with _ | ⟨more, hmore⟩
  · exact .done hon
  · exact (h.nested .expression more (hon.mark? hcolon)).bind fun _ _ hon => .done hon

theorem entries {ts : List Spanned} (hts : Inside us ts) :
    Stays foreign us (s.entries ts) (s'.entries ts) := by
  rw [Scope.entries, Scope.entries]
  rcases hclose : mark? .rightBrace ts with _ | rest
  · dsimp only
    have hentry := h.entry hts
    rw [← hentry.same]
    rcases hn : s.entry ts with fault | ⟨e, rest, hrest⟩
    · exact hentry.fault hn
    · have hon : On us rest := hentry.ok e ⟨rest, hrest⟩ hn
      dsimp only
      rcases hcomma : mark? .comma rest with _ | ⟨more, hmore⟩
      · dsimp only
        rcases hon.mark .rightBrace with hm | ⟨⟨rest', hrest'⟩, hm, hrest⟩
        · rw [hm]
          exact .unexpected hon
        · rw [hm]
          exact .done hrest.toOn
      · dsimp only
        have hentries := entries (hon.mark? hcomma)
        rw [← hentries.same]
        rcases hi : s.entries more with fault | ⟨es, rest', hrest'⟩
        · exact hentries.fault hi
        · exact .done (hentries.ok es ⟨rest', hrest'⟩ hi)
  · exact .done (hts.mark? hclose).toOn
termination_by ts.length
decreasing_by exact Nat.lt_trans hmore hrest

/-- The holes of a template are read the same, and its faults are theirs. -/
theorem fragments {chunks : List Chunk} (hc : ∀ source, .source source ∈ chunks → IsHole us source) :
    s.fragments chunks = s'.fragments chunks ∧
      ∀ fault, s.fragments chunks = .error fault → foreign fault := by
  unfold Scope.fragments
  induction chunks with
  | nil => exact ⟨rfl, by rintro _ ⟨⟩⟩
  | cons chunk chunks ih =>
    obtain ⟨hsame, hfault⟩ := ih fun source hs => hc source (List.mem_cons_of_mem _ hs)
    simp only [List.mapM_cons]
    rw [← hsame]
    -- what comes first has no faults of its own, or is a hole
    have hbehind (f : Fragment) (fault : ParseFault)
        (hf : (s.fragments chunks >>= fun fs => pure (f :: fs)) = .error fault) : foreign fault := by
      rcases bind_eq_error_iff.1 hf with hf | ⟨fs, -, hf⟩
      · exact hfault fault hf
      · contradiction
    cases chunk with
    | text t => exact ⟨rfl, fun fault hf => hbehind _ fault hf⟩
    | source t =>
      obtain ⟨hwhole, hforeign⟩ := h.hole t (hc t List.mem_cons_self)
      dsimp only
      rw [← hwhole]
      refine ⟨rfl, fun fault hf => ?_⟩
      rcases bind_eq_error_iff.1 hf with hf | ⟨f, -, hf⟩
      · exact hforeign fault (map_eq_error_iff.1 hf)
      · exact hbehind f fault hf

theorem primary (hts : On us ts) : Stays foreign us (s.primary ts) (s'.primary ts) := by
  unfold Scope.primary
  split
  · exact .done (hts.tail (by simp)).toOn
  · exact .done (hts.tail (by simp)).toOn
  · rename_i chunks o rest
    -- its holes are those of one of the tokens
    have hmem : ⟨.template chunks, o⟩ ∈ us := hts.suffix.subset List.mem_cons_self
    obtain ⟨hsame, hforeign⟩ := h.fragments fun source hs => ⟨chunks, o, hmem, hs⟩
    rw [← hsame]
    rcases hf : s.fragments chunks with fault | fs
    · exact ⟨rfl, by rintro _ _ ⟨⟩, by
        rintro _ ⟨⟩
        exact Or.inr (hforeign fault hf)⟩
    · exact .done (hts.tail (by simp)).toOn
  · exact .done (hts.tail (by simp)).toOn
  · exact (h.enclosed _ (hts.tail (by simp))).map fun _ _ => rfl
  · exact (h.items _ (hts.tail (by simp))).map fun _ _ => rfl
  · exact (h.entries (hts.tail (by simp))).map fun _ _ => rfl
  · exact .unexpected hts

theorem arguments (hts : On us ts) : Stays foreign us (s.arguments? ts) (s'.arguments? ts) := by
  unfold Scope.arguments?
  rcases hopen : mark? .leftParen ts with _ | ⟨rest, hrest⟩
  · exact .done hts
  · exact (h.items _ (hts.mark? hopen)).map fun _ _ => rfl

theorem head (hts : On us ts) : Stays foreign us (s.head ts) (s'.head ts) := by
  unfold Scope.head
  cases ts with
  | nil => exact h.primary hts
  | cons t rest =>
    dsimp only
    split
    · rename_i hnew
      have hstop : t.token ≠ .stop := by
        intro hstop
        rw [hstop] at hnew
        contradiction
      refine (h.primary (hts.tail hstop).toOn).bind fun callee left hon => ?_
      obtain ⟨rest, _⟩ := left
      exact (h.arguments hon).bind fun _ _ hon => .done hon
    · exact h.primary hts

/-- There is a link in both scopes or in none. -/
theorem link (e : Expr) (hts : On us ts) :
    s.link? e ts = none ∧ s'.link? e ts = none ∨
      ∃ r r', s.link? e ts = some r ∧ s'.link? e ts = some r' ∧ Stays foreign us r r' := by
  have hproperty {ts : List Spanned} (hts : On us ts) :
      Stays foreign us (Scope.propertyName ts) (Scope.propertyName ts) := by
    unfold Scope.propertyName
    split
    · exact .done (hts.tail (by simp)).toOn
    · exact .unexpected hts
  unfold Scope.link?
  split
  · exact Or.inr ⟨_, _, rfl, rfl, (hproperty (hts.tail (by simp)).toOn).map fun _ _ => rfl⟩
  · exact Or.inr ⟨_, _, rfl, rfl,
      (h.items _ ((hts.tail (by simp)).toOn.tail (by simp))).map fun _ _ => rfl⟩
  · exact Or.inr ⟨_, _, rfl, rfl,
      (h.enclosed _ ((hts.tail (by simp)).toOn.tail (by simp))).map fun _ _ => rfl⟩
  · exact Or.inr ⟨_, _, rfl, rfl, (hproperty (hts.tail (by simp)).toOn).map fun _ _ => rfl⟩
  · exact Or.inr ⟨_, _, rfl, rfl, (h.enclosed _ (hts.tail (by simp))).map fun _ _ => rfl⟩
  · exact Or.inr ⟨_, _, rfl, rfl, (h.items _ (hts.tail (by simp))).map fun _ _ => rfl⟩
  · exact Or.inl ⟨rfl, rfl⟩

theorem links (e : Expr) {ts : List Spanned} (hts : On us ts) :
    Stays foreign us (s.links e ts) (s'.links e ts) := by
  rw [Scope.links, Scope.links]
  rcases h.link e hts with ⟨hn, hn'⟩ | ⟨r, r', hr, hr', rfl, hok, herror⟩
  · rw [hn, hn']
    exact .done hts
  · rw [hr, hr']
    rcases r with fault | ⟨e, rest, hrest⟩
    · exact ⟨rfl, by rintro _ _ ⟨⟩, by
        rintro _ ⟨⟩
        exact herror fault rfl⟩
    · exact (links e (hok e ⟨rest, hrest⟩ rfl)).map fun _ _ => rfl
termination_by ts.length

theorem chain (hts : On us ts) : Stays foreign us (s.chain ts) (s'.chain ts) := by
  unfold Scope.chain
  refine (h.head hts).bind fun e left hon => ?_
  obtain ⟨rest, _⟩ := left
  exact (h.links e hon).bind fun _ _ hon => .done hon

theorem unary (hts : On us ts) : Stays foreign us (s.unary ts) (s'.unary ts) := by
  unfold Scope.unary
  cases ts with
  | nil => exact h.chain hts
  | cons t rest =>
    dsimp only
    split
    · rename_i op hop
      have hstop : t.token ≠ .stop := by
        intro hstop
        rw [hstop] at hop
        contradiction
      exact (h.nested .unary rest (hts.tail hstop)).map fun _ _ => rfl
    · exact h.chain hts

theorem power (hts : On us ts) : Stays foreign us (s.power ts) (s'.power ts) := by
  unfold Scope.power
  refine (h.unary hts).bind fun base left hon => ?_
  obtain ⟨rest, hrest⟩ := left
  dsimp only
  rcases hstar : mark? .starStar rest with _ | ⟨more, hmore⟩
  · exact .done hon
  · exact (h.nested .power more (hon.mark? hstar)).bind fun _ _ hon => .done hon

omit h in
theorem joined {operand operand' : (ts : List Spanned) → Parsed Expr ts}
    (ho : ∀ ts, On us ts → Stays foreign us (operand ts) (operand' ts)) (level : Nat) (left : Expr)
    {ts : List Spanned} (hts : On us ts) :
    Stays foreign us (Scope.joined operand level left ts) (Scope.joined operand' level left ts) := by
  rw [Scope.joined, Scope.joined]
  rcases hj : Scope.joint? level ts with _ | ⟨j, rest, hrest⟩
  · exact .done hts
  · dsimp only
    have hon : On us rest := by
      unfold Scope.joint? at hj
      split at hj
      · obtain ⟨k, -, hk⟩ := Option.map_eq_some_iff.1 hj
        obtain ⟨-, hk⟩ := Prod.mk.inj hk
        obtain rfl := Subtype.mk.inj hk
        exact (hts.tail (by simp)).toOn
      · contradiction
    have hoperand := ho rest hon
    rw [← hoperand.same]
    rcases hr : operand rest with fault | ⟨right, more, hmore⟩
    · exact hoperand.fault hr
    · have hright : On us more := hoperand.ok right ⟨more, hmore⟩ hr
      exact (joined ho level (j.apply left right) hright).map fun _ _ => rfl
termination_by ts.length
decreasing_by exact Nat.lt_trans hmore hrest

theorem operators (count : Nat) (hts : On us ts) :
    Stays foreign us (s.operators count ts) (s'.operators count ts) := by
  induction count generalizing ts with
  | zero => exact h.power hts
  | succ count ih =>
    unfold Scope.operators
    refine (ih hts).bind fun e left hon => ?_
    obtain ⟨rest, hrest⟩ := left
    exact (joined (fun _ hts => ih hts) _ e hon).bind fun _ _ hon => .done hon

theorem expression (hts : On us ts) : Stays foreign us (s.expression ts) (s'.expression ts) := by
  unfold Scope.expression
  rcases harrow : Scope.arrowHead? ts with _ | ⟨params, rest, _⟩
  · refine (h.operators Joint.levelCount hts).bind fun test left hon => ?_
    obtain ⟨rest, hrest⟩ := left
    dsimp only
    rcases hq : mark? .question rest with _ | ⟨rest, _⟩
    · exact .done hon
    · refine (h.nested .expression rest (hon.mark? hq)).bind fun consequent left hon => ?_
      obtain ⟨rest, _⟩ := left
      dsimp only
      rcases hon.mark .colon with hm | ⟨⟨rest', hrest'⟩, hm, hcolon⟩
      · rw [hm]
        exact .unexpected hon
      · rw [hm]
        exact (h.nested .expression rest' hcolon).bind fun _ _ hon => .done hon
  · exact (h.nested .expression rest (on_arrowHead? hts harrow)).map fun _ _ => rfl

theorem read (goal : Goal) (hts : Ended us) : Stays foreign us (s.read goal us) (s'.read goal us) := by
  cases goal with
  | expression => exact h.expression (.refl hts)
  | unary => exact h.unary (.refl hts)
  | power => exact h.power (.refl hts)

end Confined

end Workflow.Parser
