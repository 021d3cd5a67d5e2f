import Workflow.Proofs.Attempt
import Workflow.Proofs.Expr.Texts

/-! What is read from tokens has no more text than they have. A key that is written as a number may
be longer than its token, so that such keys do not count. -/
namespace Workflow

/-- A measure of keys by their bytes that does not count the texts of numbers. -/
structure KeyMeasure (keyBytes : String → Nat) : Prop where
  number : ∀ x, keyBytes (Number.display x) = 0
  le_bytes : ∀ key, keyBytes key ≤ key.utf8ByteSize

/-- The bytes of the texts in an expression. -/
def Expr.textBytes (keyBytes : String → Nat) (e : Expr) : Nat :=
  Inscription.total keyBytes e.texts

namespace Expr

variable {keyBytes : String → Nat}

theorem textBytes_index (e key : Expr) (optional : Bool) :
    (index e key optional).textBytes keyBytes = e.textBytes keyBytes + key.textBytes keyBytes :=
  Inscription.total_append _ _

theorem textBytes_call (e : Expr) (args : List Expr) (optional : Bool) :
    (call e args optional).textBytes keyBytes =
      e.textBytes keyBytes + Inscription.total keyBytes (itemTexts args) :=
  Inscription.total_append _ _

theorem textBytes_construct (e : Expr) (args : List Expr) :
    (construct e args).textBytes keyBytes =
      e.textBytes keyBytes + Inscription.total keyBytes (itemTexts args) :=
  Inscription.total_append _ _

theorem textBytes_binary (op : BinaryOp) (left right : Expr) :
    (binary op left right).textBytes keyBytes =
      left.textBytes keyBytes + right.textBytes keyBytes :=
  Inscription.total_append _ _

theorem textBytes_conditional (test consequent alternate : Expr) :
    (conditional test consequent alternate).textBytes keyBytes = test.textBytes keyBytes +
      (consequent.textBytes keyBytes + alternate.textBytes keyBytes) :=
  (Inscription.total_append _ _).trans (congrArg _ (Inscription.total_append _ _))

end Expr

namespace Parser

/-- What is read, together with the tokens it leaves, has at most `n` bytes of text. -/
def AtMost {α : Type} {P : List Spanned → Prop} (size : α → Nat) (n : Nat)
    (r : Except ParseFault (α × { rest : List Spanned // P rest })) : Prop :=
  ∀ a rest, r = .ok (a, rest) → size a + tokenBytes rest.1 ≤ n

namespace AtMost

variable {α β : Type} {P Q : List Spanned → Prop} {size : α → Nat} {size' : β → Nat} {n n' : Nat}

theorem error (fault : ParseFault) :
    AtMost size n (.error fault : Except ParseFault (α × { rest : List Spanned // P rest })) := by
  intro a rest h
  cases h

theorem ok {a : α} {rest : { rest : List Spanned // P rest }}
    (h : size a + tokenBytes rest.1 ≤ n) : AtMost size n (.ok (a, rest)) := by
  intro b rest' hb
  cases hb
  exact h

theorem bind {r : Except ParseFault (α × { rest : List Spanned // P rest })}
    {f : α × { rest : List Spanned // P rest } →
      Except ParseFault (β × { rest : List Spanned // Q rest })}
    (hr : AtMost size n r)
    (hf : ∀ a rest, size a + tokenBytes rest.1 ≤ n → AtMost size' n' (f (a, rest))) :
    AtMost size' n' (r >>= f) := by
  rcases r with fault | ⟨a, rest⟩
  · exact error fault
  · exact hf a rest (hr a rest rfl)

theorem map {r : Except ParseFault (α × { rest : List Spanned // P rest })}
    {f : α × { rest : List Spanned // P rest } → β × { rest : List Spanned // Q rest }}
    (hr : AtMost size n r)
    (hf : ∀ a rest, size a + tokenBytes rest.1 ≤ n →
      size' (f (a, rest)).1 + tokenBytes (f (a, rest)).2.1 ≤ n') :
    AtMost size' n' (r.map f) := by
  rcases r with fault | ⟨a, rest⟩
  · exact error fault
  · exact ok (hf a rest (hr a rest rfl))

end AtMost

theorem tokenBytes_mark? {m : Mark} {ts : List Spanned}
    {rest : { rest : List Spanned // rest.length < ts.length }} (h : mark? m ts = some rest) :
    tokenBytes rest.1 ≤ tokenBytes ts := by
  unfold mark? at h
  split at h
  · split at h
    · cases h
      rw [tokenBytes_cons]
      exact Nat.le_add_left _ _
    · cases h
  · cases h

theorem tokenBytes_mark {m : Mark} {ts : List Spanned}
    {rest : { rest : List Spanned // rest.length < ts.length }} (h : mark m ts = .ok rest) :
    tokenBytes rest.1 ≤ tokenBytes ts := by
  unfold mark at h
  split at h
  · rename_i hm
    cases h
    exact tokenBytes_mark? hm
  · cases h

namespace Scope

theorem tokenBytes_params? {ts : List Spanned} {xs : List String}
    {rest : { rest : List Spanned // rest.length < ts.length }} (h : params? ts = some (xs, rest)) :
    tokenBytes rest.1 ≤ tokenBytes ts := by
  fun_induction params? ts generalizing xs with
  | case1 offset more =>
    cases h
    rw [tokenBytes_cons]
    exact Nat.le_add_left _ _
  | case2 x offset offset' more ih =>
    obtain ⟨⟨ys, rest'⟩, hp, he⟩ := Option.map_eq_some_iff.1 h
    cases he
    have hle := ih hp
    rw [tokenBytes_cons, tokenBytes_cons]
    dsimp only
    omega
  | case3 x offset offset' more =>
    cases h
    rw [tokenBytes_cons, tokenBytes_cons]
    dsimp only
    omega
  | case4 => cases h

theorem tokenBytes_arrowHead? {ts : List Spanned} {xs : List String}
    {rest : { rest : List Spanned // rest.length < ts.length }}
    (h : arrowHead? ts = some (xs, rest)) : tokenBytes rest.1 ≤ tokenBytes ts := by
  unfold arrowHead? at h
  split at h
  · cases h
    rw [tokenBytes_cons, tokenBytes_cons]
    dsimp only
    omega
  · rename_i offset more
    rcases hp : params? more with _ | ⟨ys, rest', hrest'⟩
    · rw [hp] at h
      cases h
    · rw [hp] at h
      obtain ⟨rest'', harrow, he⟩ := Option.map_eq_some_iff.1 h
      cases he
      have hparams : tokenBytes rest' ≤ tokenBytes more := tokenBytes_params? hp
      have hmark := tokenBytes_mark? harrow
      rw [tokenBytes_cons]
      dsimp only
      omega
  · cases h

variable {keyBytes : String → Nat}

/-- The reader of operands reads no more text than there is. -/
theorem atMost_joined {operand : (ts : List Spanned) → Parsed Expr ts}
    (ho : ∀ ts, AtMost (Expr.textBytes keyBytes) (tokenBytes ts) (operand ts)) (level : Nat)
    (left : Expr) (ts : List Spanned) :
    AtMost (Expr.textBytes keyBytes) (left.textBytes keyBytes + tokenBytes ts)
      (joined operand level left ts) := by
  rw [joined]
  rcases hj : joint? level ts with _ | ⟨j, rest, hrest⟩
  · exact .ok (Nat.le_refl _)
  · dsimp only
    have hmark : tokenBytes rest ≤ tokenBytes ts := by
      unfold joint? at hj
      split at hj
      · obtain ⟨k, -, hk⟩ := Option.map_eq_some_iff.1 hj
        cases hk
        rw [tokenBytes_cons]
        exact Nat.le_add_left _ _
      · cases hj
    rcases hr : operand rest with fault | ⟨right, more, hmore⟩
    · exact .error fault
    · have hright : right.textBytes keyBytes + tokenBytes more ≤ tokenBytes rest :=
        ho rest right ⟨more, hmore⟩ hr
      have hjoin : (j.apply left right).textBytes keyBytes =
          left.textBytes keyBytes + right.textBytes keyBytes := by
        cases j
        all_goals exact Inscription.total_append _ _
      refine (atMost_joined ho level (j.apply left right) more).map fun e rest he => ?_
      rw [hjoin] at he
      dsimp only
      omega
termination_by ts.length
decreasing_by exact Nat.lt_trans hmore hrest

/-- The inner readers read no more text than there is. -/
structure Frugal (keyBytes : String → Nat) (s : Scope) : Prop where
  keys : KeyMeasure keyBytes
  nested : ∀ goal ts, AtMost (Expr.textBytes keyBytes) (tokenBytes ts) (s.nested goal ts)
  hole : ∀ ts, AtMost (Expr.textBytes keyBytes) (tokenBytes ts) (s.inner s.room .expression ts)

/-- So does the reader of a whole text. -/
theorem textBytes_whole {read : (ts : List Spanned) → Parsed Expr ts}
    (hr : ∀ ts, AtMost (Expr.textBytes keyBytes) (tokenBytes ts) (read ts)) {source : String}
    {e : Expr} (h : whole read source = .ok e) :
    e.textBytes keyBytes ≤ source.utf8ByteSize := by
  unfold whole at h
  obtain ⟨ts, hts, h⟩ := bind_eq_ok_iff.1 h
  obtain ⟨⟨e', rest⟩, hread, h⟩ := bind_eq_ok_iff.1 h
  obtain ⟨_, -, h⟩ := bind_eq_ok_iff.1 h
  cases h
  have htokens := tokenBytes_tokenize hts
  have hle := hr ts e rest hread
  omega

namespace Frugal

variable {s : Scope} (h : Frugal keyBytes s)
include h

theorem items (close : Mark) (ts : List Spanned) :
    AtMost (fun es => Inscription.total keyBytes (Expr.itemTexts es)) (tokenBytes ts)
      (s.items close ts) := by
  rw [Scope.items]
  rcases hclose : mark? close ts with _ | rest
  · dsimp only
    rcases hn : s.nested .expression ts with fault | ⟨e, rest, hrest⟩
    · exact .error fault
    · have he : e.textBytes keyBytes + tokenBytes rest ≤ tokenBytes ts :=
        h.nested .expression ts e ⟨rest, hrest⟩ hn
      dsimp only
      rcases hcomma : mark? .comma rest with _ | ⟨more, hmore⟩
      · dsimp only
        rcases hm : mark close rest with fault | ⟨rest', hrest'⟩
        · exact .error fault
        · have hle : tokenBytes rest' ≤ tokenBytes rest := tokenBytes_mark hm
          refine .ok ?_
          rw [Expr.itemTexts, Expr.itemTexts, List.append_nil]
          dsimp only [Expr.textBytes] at he ⊢
          omega
      · have hle : tokenBytes more ≤ tokenBytes rest := tokenBytes_mark? hcomma
        dsimp only
        rcases hi : s.items close more with fault | ⟨es, rest', hrest'⟩
        · exact .error fault
        · have hes : Inscription.total keyBytes (Expr.itemTexts es) + tokenBytes rest' ≤
              tokenBytes more := items close more es ⟨rest', hrest'⟩ hi
          refine .ok ?_
          rw [Expr.itemTexts, Inscription.total_append]
          dsimp only [Expr.textBytes] at he ⊢
          omega
  · refine .ok ?_
    have hle := tokenBytes_mark? hclose
    dsimp only [Expr.itemTexts]
    rw [Inscription.total_nil]
    omega
termination_by ts.length
decreasing_by exact Nat.lt_trans hmore hrest

theorem enclosed (close : Mark) (ts : List Spanned) :
    AtMost (Expr.textBytes keyBytes) (tokenBytes ts) (s.enclosed close ts) := by
  unfold Scope.enclosed
  refine (h.nested .expression ts).bind fun e ⟨rest, hrest⟩ he => ?_
  dsimp only
  rcases hm : mark close rest with fault | ⟨rest', hrest'⟩
  · exact .error fault
  · have hle : tokenBytes rest' ≤ tokenBytes rest := tokenBytes_mark hm
    exact .ok (Nat.le_trans (Nat.add_le_add_left hle _) he)

theorem key (ts : List Spanned) : AtMost keyBytes (tokenBytes ts) (key ts) := by
  unfold Scope.key
  split
  · refine .ok ?_
    rw [tokenBytes_cons]
    exact Nat.add_le_add_right (h.keys.le_bytes _) _
  · refine .ok ?_
    rw [tokenBytes_cons]
    exact Nat.add_le_add_right (h.keys.le_bytes _) _
  -- the text of a number can be longer than its token
  · refine .ok ?_
    rw [h.keys.number, tokenBytes_cons]
    exact Nat.le_refl _
  · exact .error _

theorem entry (ts : List Spanned) :
    AtMost (fun e => keyBytes e.1 + e.2.textBytes keyBytes) (tokenBytes ts) (s.entry ts) := by
  unfold Scope.entry
  refine (h.key ts).bind fun key ⟨rest, hrest⟩ hkey => ?_
  dsimp only
  rcases hcolon : mark? .colon rest with _ | ⟨more, hmore⟩
  · exact .ok hkey
  · have hle : tokenBytes more ≤ tokenBytes rest := tokenBytes_mark? hcolon
    refine (h.nested .expression more).bind fun e ⟨rest', hrest'⟩ he => .ok ?_
    dsimp only at hkey he ⊢
    omega

theorem entries (ts : List Spanned) :
    AtMost (fun es => Inscription.total keyBytes (Expr.entryTexts es)) (tokenBytes ts)
      (s.entries ts) := by
  rw [Scope.entries]
  rcases hclose : mark? .rightBrace ts with _ | rest
  · dsimp only
    rcases hn : s.entry ts with fault | ⟨⟨k, e⟩, rest, hrest⟩
    · exact .error fault
    · have he : keyBytes k + e.textBytes keyBytes + tokenBytes rest ≤ tokenBytes ts :=
        h.entry ts (k, e) ⟨rest, hrest⟩ hn
      dsimp only
      rcases hcomma : mark? .comma rest with _ | ⟨more, hmore⟩
      · dsimp only
        rcases hm : mark .rightBrace rest with fault | ⟨rest', hrest'⟩
        · exact .error fault
        · have hle : tokenBytes rest' ≤ tokenBytes rest := tokenBytes_mark hm
          refine .ok ?_
          rw [Expr.entryTexts, Expr.entryTexts, List.append_nil, Inscription.total_cons]
          dsimp only [Expr.textBytes, Inscription.bytes] at he ⊢
          omega
      · have hle : tokenBytes more ≤ tokenBytes rest := tokenBytes_mark? hcomma
        dsimp only
        rcases hi : s.entries more with fault | ⟨es, rest', hrest'⟩
        · exact .error fault
        · have hes : Inscription.total keyBytes (Expr.entryTexts es) + tokenBytes rest' ≤
              tokenBytes more := entries more es ⟨rest', hrest'⟩ hi
          refine .ok ?_
          rw [Expr.entryTexts, Inscription.total_cons, Inscription.total_append]
          dsimp only [Expr.textBytes, Inscription.bytes] at he ⊢
          omega
  · refine .ok ?_
    have hle := tokenBytes_mark? hclose
    dsimp only [Expr.entryTexts]
    rw [Inscription.total_nil]
    omega
termination_by ts.length
decreasing_by exact Nat.lt_trans hmore hrest

/-- The text of a hole is read on its own. -/
theorem fragments {chunks : List Chunk} {fs : List Fragment} (hf : s.fragments chunks = .ok fs) :
    Inscription.total keyBytes (Expr.fragmentTexts fs) ≤ (chunks.map Chunk.sourceBytes).sum := by
  unfold Scope.fragments at hf
  induction chunks generalizing fs with
  | nil =>
    cases hf
    exact Nat.le_refl _
  | cons chunk chunks ih =>
    rw [List.mapM_cons] at hf
    obtain ⟨f, hchunk, hf⟩ := bind_eq_ok_iff.1 hf
    obtain ⟨rest, hrest, hf⟩ := bind_eq_ok_iff.1 hf
    cases hf
    have hle := ih hrest
    rw [List.map_cons, List.sum_cons]
    cases chunk with
    | text t =>
      cases hchunk
      rw [Chunk.sourceBytes, Nat.zero_add]
      exact hle
    | source t =>
      obtain ⟨e, he, rfl⟩ := map_eq_ok_iff.1 hchunk
      rw [Expr.fragmentTexts, Inscription.total_append, Chunk.sourceBytes]
      exact Nat.add_le_add (textBytes_whole h.hole he) hle

theorem primary (ts : List Spanned) :
    AtMost (Expr.textBytes keyBytes) (tokenBytes ts) (s.primary ts) := by
  unfold Scope.primary
  split
  · refine .ok ?_
    rw [tokenBytes_cons]
    exact Nat.le_refl _
  · refine .ok ?_
    rw [tokenBytes_cons]
    exact Nat.le_refl _
  · rename_i chunks offset rest
    rcases hf : s.fragments chunks with fault | fs
    · exact .error fault
    · refine .ok ?_
      rw [tokenBytes_cons]
      exact Nat.add_le_add_right (h.fragments hf) _
  · rename_i name offset rest
    have hname : (ofName name).textBytes keyBytes = 0 := by
      unfold ofName
      split
      all_goals rfl
    refine .ok ?_
    rw [hname, tokenBytes_cons, Nat.zero_add]
    exact Nat.le_add_left _ _
  · rename_i offset rest
    refine (h.enclosed .rightParen rest).map fun e rest' he => ?_
    rw [tokenBytes_cons]
    exact Nat.le_trans he (Nat.le_add_left _ _)
  · rename_i offset rest
    refine (h.items .rightBracket rest).map fun es rest' hes => ?_
    rw [tokenBytes_cons]
    exact Nat.le_trans hes (Nat.le_add_left _ _)
  · rename_i offset rest
    refine (h.entries rest).map fun es rest' hes => ?_
    rw [tokenBytes_cons]
    exact Nat.le_trans hes (Nat.le_add_left _ _)
  · exact .error _

theorem arguments (ts : List Spanned) :
    AtMost (fun es => Inscription.total keyBytes (Expr.itemTexts es)) (tokenBytes ts)
      (s.arguments? ts) := by
  unfold Scope.arguments?
  rcases hopen : mark? .leftParen ts with _ | ⟨rest, hrest⟩
  · exact .ok (Nat.le_of_eq (Nat.zero_add _))
  · have hle : tokenBytes rest ≤ tokenBytes ts := tokenBytes_mark? hopen
    exact (h.items .rightParen rest).map fun es rest' hes => Nat.le_trans hes hle

theorem head (ts : List Spanned) :
    AtMost (Expr.textBytes keyBytes) (tokenBytes ts) (s.head ts) := by
  unfold Scope.head
  cases ts with
  | nil => exact h.primary _
  | cons t rest =>
    dsimp only
    split
    · refine (h.primary rest).bind fun callee ⟨rest, hrest⟩ hcallee => ?_
      refine (h.arguments rest).bind fun args ⟨rest', hrest'⟩ hargs => .ok ?_
      rw [Expr.textBytes_construct, tokenBytes_cons]
      dsimp only at hcallee hargs ⊢
      omega
    · exact h.primary _

theorem link {e : Expr} {ts : List Spanned} {r : Parsed Expr ts} (hr : s.link? e ts = some r) :
    AtMost (Expr.textBytes keyBytes) (e.textBytes keyBytes + tokenBytes ts) r := by
  have hproperty (ts : List Spanned) : AtMost (fun _ => 0) (tokenBytes ts) (propertyName ts) := by
    unfold propertyName
    split
    · refine .ok ?_
      rw [tokenBytes_cons, Nat.zero_add]
      exact Nat.le_add_left _ _
    · exact .error _
  have hmember (name : String) (optional : Bool) :
      (Expr.member e name optional).textBytes keyBytes = e.textBytes keyBytes := rfl
  unfold Scope.link? at hr
  split at hr
  all_goals cases hr
  · refine (hproperty _).map fun name rest hname => ?_
    rw [hmember, tokenBytes_cons]
    dsimp only
    omega
  · refine (h.items .rightParen _).map fun args rest hargs => ?_
    rw [Expr.textBytes_call, tokenBytes_cons, tokenBytes_cons]
    dsimp only
    omega
  · refine (h.enclosed .rightBracket _).map fun key rest hkey => ?_
    rw [Expr.textBytes_index, tokenBytes_cons, tokenBytes_cons]
    dsimp only
    omega
  · refine (hproperty _).map fun name rest hname => ?_
    rw [hmember, tokenBytes_cons]
    dsimp only
    omega
  · refine (h.enclosed .rightBracket _).map fun key rest hkey => ?_
    rw [Expr.textBytes_index, tokenBytes_cons]
    dsimp only
    omega
  · refine (h.items .rightParen _).map fun args rest hargs => ?_
    rw [Expr.textBytes_call, tokenBytes_cons]
    dsimp only
    omega

theorem links (e : Expr) (ts : List Spanned) :
    AtMost (Expr.textBytes keyBytes) (e.textBytes keyBytes + tokenBytes ts) (s.links e ts) := by
  rw [Scope.links]
  rcases hl : s.link? e ts with _ | fault | ⟨e', rest, hrest⟩
  · exact .ok (Nat.le_refl _)
  · exact .error fault
  · have hle : e'.textBytes keyBytes + tokenBytes rest ≤ e.textBytes keyBytes + tokenBytes ts :=
      h.link hl e' ⟨rest, hrest⟩ rfl
    exact (links e' rest).map fun _ _ he => Nat.le_trans he hle
termination_by ts.length

theorem chain (ts : List Spanned) :
    AtMost (Expr.textBytes keyBytes) (tokenBytes ts) (s.chain ts) := by
  unfold Scope.chain
  refine (h.head ts).bind fun e ⟨rest, hrest⟩ he => ?_
  refine (h.links e rest).bind fun e' ⟨rest', hrest'⟩ he' => .ok ?_
  exact Nat.le_trans he' he

theorem unary (ts : List Spanned) :
    AtMost (Expr.textBytes keyBytes) (tokenBytes ts) (s.unary ts) := by
  unfold Scope.unary
  cases ts with
  | nil => exact h.chain _
  | cons t rest =>
    dsimp only
    split
    · refine (h.nested .unary rest).map fun e rest' he => ?_
      rw [tokenBytes_cons]
      exact Nat.le_trans he (Nat.le_add_left _ _)
    · exact h.chain _

theorem power (ts : List Spanned) :
    AtMost (Expr.textBytes keyBytes) (tokenBytes ts) (s.power ts) := by
  unfold Scope.power
  refine (h.unary ts).bind fun base ⟨rest, hrest⟩ hbase => ?_
  dsimp only
  rcases hstar : mark? .starStar rest with _ | ⟨more, hmore⟩
  · exact .ok hbase
  · have hle : tokenBytes more ≤ tokenBytes rest := tokenBytes_mark? hstar
    refine (h.nested .power more).bind fun exponent ⟨rest', hrest'⟩ hexponent => .ok ?_
    rw [Expr.textBytes_binary]
    dsimp only at hbase hexponent ⊢
    omega

theorem operators (count : Nat) (ts : List Spanned) :
    AtMost (Expr.textBytes keyBytes) (tokenBytes ts) (s.operators count ts) := by
  induction count generalizing ts with
  | zero => exact h.power ts
  | succ count ih =>
    unfold Scope.operators
    refine (ih ts).bind fun e ⟨rest, hrest⟩ he => ?_
    refine (atMost_joined ih _ e rest).bind fun e' ⟨rest', hrest'⟩ he' => .ok ?_
    exact Nat.le_trans he' he

theorem expression (ts : List Spanned) :
    AtMost (Expr.textBytes keyBytes) (tokenBytes ts) (s.expression ts) := by
  unfold Scope.expression
  rcases ha : arrowHead? ts with _ | ⟨params, rest, hrest⟩
  · refine (h.operators Joint.levelCount ts).bind fun test ⟨rest, hrest⟩ htest => ?_
    dsimp only
    rcases hq : mark? .question rest with _ | ⟨more, hmore⟩
    · exact .ok htest
    · have hle : tokenBytes more ≤ tokenBytes rest := tokenBytes_mark? hq
      refine (h.nested .expression more).bind fun consequent ⟨rest₁, hrest₁⟩ hconsequent => ?_
      dsimp only
      rcases hc : mark .colon rest₁ with fault | ⟨rest₂, hrest₂⟩
      · exact .error fault
      · have hle' : tokenBytes rest₂ ≤ tokenBytes rest₁ := tokenBytes_mark hc
        refine (h.nested .expression rest₂).bind fun alternate ⟨rest₃, hrest₃⟩ halternate => .ok ?_
        rw [Expr.textBytes_conditional]
        dsimp only at htest hconsequent halternate ⊢
        omega
  · have hle : tokenBytes rest ≤ tokenBytes ts := tokenBytes_arrowHead? ha
    exact (h.nested .expression rest).map fun body rest' hbody => Nat.le_trans hbody hle

theorem read (goal : Goal) (ts : List Spanned) :
    AtMost (Expr.textBytes keyBytes) (tokenBytes ts) (s.read goal ts) := by
  cases goal with
  | expression => exact h.expression ts
  | unary => exact h.unary ts
  | power => exact h.power ts

end Frugal

end Scope

/-- However many levels may be opened. -/
theorem atMost_nested {keyBytes : String → Nat} (hk : KeyMeasure keyBytes) (room limit : Nat)
    (goal : Goal) (ts : List Spanned) :
    AtMost (Expr.textBytes keyBytes) (tokenBytes ts) (nested room limit goal ts) := by
  induction room generalizing limit goal ts with
  | zero => exact .error _
  -- inner expressions and holes are read with one level less
  | succ room ih =>
    refine Scope.Frugal.read ⟨hk, fun goal ts => ?_, fun ts => ?_⟩ goal ts
    · exact ih limit goal ts
    · exact ih room .expression ts

/-- The texts in an expression are together no longer than the text it is read from. -/
theorem textBytes_parse {keyBytes : String → Nat} (hk : KeyMeasure keyBytes) {limit : Nat}
    {source : String} {e : Expr} (h : Expr.parse limit source = .ok e) :
    e.textBytes keyBytes ≤ source.utf8ByteSize :=
  Scope.textBytes_whole (fun ts => atMost_nested hk limit limit .expression ts) h

end Parser

end Workflow
