import Workflow.Proofs.Expr.Confined

/-! Parsing a text goes forward, ends at every limit to nesting, and refuses a text only at a place
where there is a token. -/
namespace Workflow.Parser

theorem unexpectedIn_finish {us ts : List Spanned} {fault : ParseFault} (h : On us ts)
    (hf : Scope.finish ts = .error fault) : UnexpectedIn us fault := by
  fun_induction Scope.finish ts with
  | case1 o rest ih => exact ih (h.tail (by simp)).toOn hf
  | case2 => contradiction
  | case3 ts =>
    obtain rfl := Except.error.inj hf
    exact h.unexpectedIn

/-- A text is read as its tokens are, and it is refused where it cannot be cut or at one of its
tokens, or for a reason that the reader of its tokens has from elsewhere. -/
theorem whole_of_stays {foreign : List Spanned → ParseFault → Prop}
    {read read' : (ts : List Spanned) → Parsed Expr ts} (source : String)
    (hread : ∀ ts, tokenize source = .ok ts → Ended ts →
      Stays (foreign ts) ts (read ts) (read' ts)) :
    Scope.whole read source = Scope.whole read' source ∧
      ∀ fault, Scope.whole read source = .error fault → tokenize source = .error fault ∨
        ∃ ts, tokenize source = .ok ts ∧ (UnexpectedIn ts fault ∨ foreign ts fault) := by
  unfold Scope.whole
  cases hts : tokenize source with
  | error fault =>
    refine ⟨rfl, fun fault' hf => ?_⟩
    obtain rfl := Except.error.inj hf
    exact Or.inl rfl
  | ok ts =>
    have hstays := hread ts hts (Lexer.cut_of_tokenize hts).ended
    show (read ts >>= _) = (read' ts >>= _) ∧ ∀ fault, (read ts >>= _) = _ → _
    rw [← hstays.same]
    refine ⟨rfl, fun fault hf => Or.inr ⟨ts, rfl, ?_⟩⟩
    rcases bind_eq_error_iff.1 hf with hf | ⟨⟨e, rest⟩, hok, hf⟩
    · exact hstays.error fault hf
    · rcases bind_eq_error_iff.1 hf with hf | ⟨_, -, hf⟩
      · exact Or.inl (unexpectedIn_finish (hstays.ok e rest hok) hf)
      · contradiction

/-- Why a text is refused: it cannot be cut, one of its tokens is not what it should be, a hole in
it is refused, or it is nested too deep. -/
inductive Refused : String → ParseFault → Prop
  | uncut {source : String} {fault : ParseFault} (cut : tokenize source = .error fault)
    (character : Lexer.RefusedAt source fault) : Refused source fault
  | token {source : String} {ts : List Spanned} {fault : ParseFault}
    (cut : tokenize source = .ok ts) (unexpected : UnexpectedIn ts fault) : Refused source fault
  | hole {source hole : String} {ts : List Spanned} {fault : ParseFault}
    (cut : tokenize source = .ok ts) (among : IsHole ts hole) (refused : Refused hole fault) :
    Refused source fault
  | tooDeep (source : String) (limit : Nat) : Refused source (.tooDeep limit)

/-- A fault that a reader of these tokens has from elsewhere: a hole is refused, or there is no
room. -/
def Foreign (us : List Spanned) (fault : ParseFault) : Prop :=
  (∃ hole, IsHole us hole ∧ Refused hole fault) ∨ ∃ limit, fault = .tooDeep limit

theorem IsHole.of_suffix {us ts : List Spanned} {hole : String} (h : IsHole ts hole)
    (hs : ts <:+ us) : IsHole us hole := by
  obtain ⟨chunks, o, hmem, hsource⟩ := h
  exact ⟨chunks, o, hs.subset hmem, hsource⟩

theorem Foreign.of_suffix {us ts : List Spanned} {fault : ParseFault} (h : Foreign ts fault)
    (hs : ts <:+ us) : Foreign us fault :=
  h.imp_left fun ⟨hole, hh, hr⟩ => ⟨hole, IsHole.of_suffix hh hs, hr⟩

theorem refused_whole {read : (ts : List Spanned) → Parsed Expr ts} {source : String}
    {fault : ParseFault} (hread : ∀ ts, Ended ts → Stays (Foreign ts) ts (read ts) (read ts))
    (h : Scope.whole read source = .error fault) : Refused source fault := by
  rcases (whole_of_stays source fun ts _ => hread ts).2 fault h with hcut | ⟨ts, hts, hu | hf⟩
  · exact .uncut hcut (Lexer.refusedAt_of_tokenize hcut)
  · exact .token hts hu
  · rcases hf with ⟨hole, hh, hr⟩ | ⟨limit, rfl⟩
    · exact .hole hts hh hr
    · exact .tooDeep source limit

/-- However many levels may be opened. -/
theorem stays_nested (room limit : Nat) (goal : Goal) {us : List Spanned} (hus : Ended us) :
    Stays (Foreign us) us (nested room limit goal us) (nested room limit goal us) := by
  induction room generalizing limit goal us with
  | zero =>
    refine ⟨rfl, by rintro _ _ ⟨⟩, ?_⟩
    rintro _ ⟨⟩
    exact Or.inr (Or.inr ⟨limit, rfl⟩)
  | succ room ih =>
    refine Confined.read ⟨fun goal ts hts => ?_, fun source hs => ⟨rfl, fun fault hf => ?_⟩⟩ goal hus
    · exact ((ih limit goal hts.ended).of_suffix hts.toOn).imp fun _ hf => hf.of_suffix hts.suffix
    · exact Or.inl ⟨source, hs, refused_whole (fun ts hts => ih room .expression hts) hf⟩

/-- A text that is refused where it cannot be cut or at one of its tokens is not too deep. -/
theorem ne_tooDeep_of_whole {source : String} {fault : ParseFault}
    (h : tokenize source = .error fault ∨ ∃ ts, tokenize source = .ok ts ∧
      (UnexpectedIn ts fault ∨ ∀ l, fault ≠ .tooDeep l)) (l : Nat) : fault ≠ .tooDeep l := by
  rcases h with hcut | ⟨ts, -, ⟨t, rest, -, rfl⟩ | hf⟩
  · obtain ⟨cause, o, rfl, -⟩ := Lexer.refusedAt_of_tokenize hcut
    simp
  · simp
  · exact hf l

/-- With room for all levels that tokens can open they are read the same, and never too deep. -/
theorem stays_nested_of_levels {room room' : Nat} (limit limit' : Nat) (goal : Goal)
    {us : List Spanned} (hus : Ended us) (hr : tokenLevels us ≤ room) (hr' : tokenLevels us ≤ room') :
    Stays (fun fault => ∀ l, fault ≠ .tooDeep l) us (nested room limit goal us)
      (nested room' limit' goal us) := by
  induction room generalizing room' limit limit' goal us with
  | zero =>
    have hone := hus.one_le_tokenLevels
    omega
  | succ room ih =>
    obtain ⟨k, rfl⟩ : ∃ k, room' = k + 1 := by
      have hone := hus.one_le_tokenLevels
      exact ⟨room' - 1, by omega⟩
    refine Confined.read ⟨fun goal ts hts => ?_, fun source hs => ?_⟩ goal hus
    · have hlt : tokenLevels ts < tokenLevels us := tokenLevels_lt hts.suffix hts.shorter
      exact (ih limit limit' goal hts.ended (by omega) (by omega)).of_suffix hts.toOn
    -- a hole has fewer characters than the tokens it stands among have levels
    · have hlt := hs.length_lt hus
      have hholes := whole_of_stays source fun ts hts hended => by
        have hle := (Lexer.cut_of_tokenize hts).tokenLevels_le
        rw [String.length_toList] at hle
        exact ih room k .expression hended (by omega) (show _ ≤ k by omega)
      refine ⟨hholes.1, fun fault hf => ?_⟩
      exact ne_tooDeep_of_whole (hholes.2 fault hf)

/-- With room for all its characters and its end, a text is never too deep. -/
theorem parse_of_length_lt {limit : Nat} {source : String} (h : source.length < limit) :
    Expr.parse limit source = Expr.parse (source.length + 1) source ∧
      ∀ l, Expr.parse limit source ≠ .error (.tooDeep l) := by
  have hwhole := whole_of_stays source fun ts hts hended => by
    have hle := (Lexer.cut_of_tokenize hts).tokenLevels_le
    rw [String.length_toList] at hle
    exact stays_nested_of_levels limit (source.length + 1) .expression hended
      (show _ ≤ limit by omega) hle
  exact ⟨hwhole.1, fun l hl => ne_tooDeep_of_whole (hwhole.2 _ hl) l rfl⟩

theorem refused_parse {limit : Nat} {source : String} {fault : ParseFault}
    (h : Expr.parse limit source = .error fault) : Refused source fault :=
  refused_whole (fun _ hts => stays_nested limit limit .expression hts) h

/-- Each element is a token or more, and something stands behind the last one. -/
theorem length_items {s : Scope} {close : Mark} {ts : List Spanned} {es : List Expr}
    {rest : { rest : List Spanned // rest.length < ts.length }}
    (h : s.items close ts = .ok (es, rest)) : es.length + rest.1.length < ts.length := by
  rw [Scope.items] at h
  split at h
  · cases h
    rw [List.length_nil, Nat.zero_add]
    exact rest.2
  · split at h
    · contradiction
    · rename_i e more hmore _
      split at h
      · rename_i behind hbehind _
        split at h
        · contradiction
        · rename_i es' last hlast hi
          cases h
          have hlength : es'.length + last.length < behind.length := length_items hi
          show es'.length + 1 + last.length < ts.length
          omega
      · split at h
        · contradiction
        · rename_i last hlast _
          cases h
          show 1 + last.length < ts.length
          omega
termination_by ts.length
decreasing_by omega

/-- So is each entry. -/
theorem length_entries {s : Scope} {ts : List Spanned} {es : List (String × Expr)}
    {rest : { rest : List Spanned // rest.length < ts.length }}
    (h : s.entries ts = .ok (es, rest)) : es.length + rest.1.length < ts.length := by
  rw [Scope.entries] at h
  split at h
  · cases h
    rw [List.length_nil, Nat.zero_add]
    exact rest.2
  · split at h
    · contradiction
    · rename_i e more hmore _
      split at h
      · rename_i behind hbehind _
        split at h
        · contradiction
        · rename_i es' last hlast hi
          cases h
          have hlength : es'.length + last.length < behind.length := length_entries hi
          show es'.length + 1 + last.length < ts.length
          omega
      · split at h
        · contradiction
        · rename_i last hlast _
          cases h
          show 1 + last.length < ts.length
          omega
termination_by ts.length
decreasing_by omega

/-- What an inner reader reads from a place. It goes on to a place behind it, or gives up at a token
or for a reason that it has from elsewhere. -/
structure Advances (us : List Spanned) (r : Parsed Expr us) : Prop where
  ok : ∀ e rest, r = .ok (e, rest) → Inside us rest.1
  error : ∀ fault, r = .error fault → UnexpectedIn us fault ∨ Foreign us fault

theorem Stays.advances {us : List Spanned} {r r' : Parsed Expr us}
    (h : Stays (Foreign us) us r r') : Advances us r where
  ok e rest hr := ⟨h.ok e rest hr, rest.2⟩
  error := h.error

/-- An inner reader is asked only for places behind the one where its reader began, and for the
tokens of holes: one that is the same there is as good, whatever it does anywhere else. -/
theorem read_eq_nested {room limit : Nat} {goal : Goal} {us : List Spanned} (hus : Ended us)
    {other : (limit : Nat) → Goal → (ts : List Spanned) → Parsed Expr ts}
    (hplace : ∀ goal ts, Inside us ts → other limit goal ts = nested room limit goal ts)
    (hhole : ∀ hole ts, IsHole us hole → tokenize hole = .ok ts →
      other room .expression ts = nested room room .expression ts) :
    Scope.read ⟨room, limit, other⟩ goal us = nested (room + 1) limit goal us := by
  have hconfined : Confined (Foreign us) ⟨room, limit, nested room⟩ ⟨room, limit, other⟩ us := by
    refine ⟨fun goal ts hts => ?_, fun hole hh => ?_⟩
    · have hstays := (stays_nested room limit goal hts.ended).of_suffix hts.toOn
      have hforeign := hstays.imp fun _ hf => hf.of_suffix hts.suffix
      show Stays (Foreign us) us (nested room limit goal ts) (other limit goal ts)
      rw [hplace goal ts hts]
      exact hforeign
    · have hwhole := @whole_of_stays Foreign (nested room room .expression)
        (other room .expression) hole fun ts hts hended => by
          rw [hhole hole ts hh hts]
          exact stays_nested room room .expression hended
      refine ⟨hwhole.1, fun fault hf => Or.inl ⟨hole, hh, ?_⟩⟩
      exact refused_whole (fun _ hts => stays_nested room room .expression hts) hf
  exact (hconfined.read goal hus).same.symm

/-- How the parser goes through a text. Its cursor is at one place after another among the tokens. -/
structure GoesThrough (limit : Nat) (source : String) : Prop where
  /-- Every text is read or refused, and no limit to nesting is needed for that: one that is greater
  than the length of the text makes no difference. -/
  ends : source.length < limit → Expr.parse limit source = Expr.parse (source.length + 1) source ∧
    ∀ l, Expr.parse limit source ≠ .error (.tooDeep l)
  /-- A text is refused at one of its characters or tokens, in a hole, or for want of room. -/
  refused : ∀ fault, Expr.parse limit source = .error fault → Refused source fault
  /-- A hole is a smaller text. -/
  hole : ∀ ts hole, tokenize source = .ok ts → IsHole ts hole →
    hole.toList <:+: source.toList ∧ hole.length < source.length
  /-- The parser begins at a place in front of the end. -/
  starts : ∀ ts, tokenize source = .ok ts → On ts ts
  /-- From every place, an expression takes a token or more and leaves the end of the text. -/
  advances : ∀ ts us, tokenize source = .ok ts → On ts us → ∀ room goal,
    Advances us (nested room limit goal us)
  /-- Nothing is read at any other place. -/
  inside : ∀ ts us, tokenize source = .ok ts → On ts us → ∀ room goal other,
    (∀ goal us', Inside us us' → other limit goal us' = nested room limit goal us') →
    (∀ hole hs, IsHole us hole → tokenize hole = .ok hs →
      other room .expression hs = nested room room .expression hs) →
    Scope.read ⟨room, limit, other⟩ goal us = nested (room + 1) limit goal us
  /-- There are fewer elements or arguments than tokens are taken for them. -/
  items : ∀ (s : Scope) close us es rest, s.items close us = .ok (es, rest) →
    es.length + rest.1.length < us.length
  entries : ∀ (s : Scope) us es rest, s.entries us = .ok (es, rest) →
    es.length + rest.1.length < us.length

/-- At every limit to nesting, the parser goes forward through every text and stays on its
tokens. -/
theorem parser_goes_through (limit : Nat) (source : String) : GoesThrough limit source where
  ends := parse_of_length_lt
  refused _ := refused_parse
  hole ts hole hts hh := by
    have hcut := Lexer.cut_of_tokenize hts
    refine ⟨hcut.infix_of_isHole hh, ?_⟩
    have hlt := hh.length_lt hcut.ended
    have hle := hcut.tokenLevels_le
    rw [String.length_toList] at hle
    omega
  starts _ hts := .refl (Lexer.cut_of_tokenize hts).ended
  advances _ _ _ hus room goal := (stays_nested room limit goal hus.ended).advances
  inside _ _ _ hus _ _ _ := read_eq_nested hus.ended
  items _ _ _ _ _ := length_items
  entries _ _ _ _ := length_entries

end Workflow.Parser
