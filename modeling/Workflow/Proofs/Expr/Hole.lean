import Mathlib.Data.List.Infix
import Workflow.Proofs.Attempt
import Workflow.Proofs.Expr.ReadBack

/-! Expressions in the holes of templates. A hole ends at the first brace that closes more than was
opened behind its start, whatever the braces are in the expression. -/
namespace Workflow

/-- Behind so many open braces, the text closes them and its own, and none before it is opened. -/
structure BracesMatch (opened : Nat) (s : List Char) : Prop where
  all_closed : s.count '\x7d' = s.count '\x7b' + opened
  none_early : ∀ p, p <+: s → p.count '\x7d' ≤ p.count '\x7b' + opened

namespace BracesMatch

variable {opened opened' : Nat} {c : Char} {s : List Char}

instance : Decidable (BracesMatch opened s) :=
  decidable_of_iff
    (s.count '\x7d' = s.count '\x7b' + opened ∧
      ∀ p ∈ s.inits, p.count '\x7d' ≤ p.count '\x7b' + opened)
    ⟨fun h => ⟨h.1, fun p hp => h.2 p ((List.mem_inits p s).2 hp)⟩,
      fun h => ⟨h.1, fun p hp => h.2 p ((List.mem_inits p s).1 hp)⟩⟩

theorem nil_iff : BracesMatch opened [] ↔ opened = 0 := by
  constructor
  · intro h
    have := h.all_closed
    rw [List.count_nil, List.count_nil] at this
    omega
  · rintro rfl
    refine ⟨rfl, fun p hp => ?_⟩
    rw [List.prefix_nil.1 hp]
    exact Nat.le_refl _

/-- The first character may change how many braces are open. -/
theorem cons_iff (h : opened + (if c == '\x7b' then 1 else 0) =
    opened' + (if c == '\x7d' then 1 else 0)) :
    BracesMatch opened (c :: s) ↔ BracesMatch opened' s := by
  have hcount (p : List Char) := And.intro (List.count_cons (a := '\x7b') (b := c) (l := p))
    (List.count_cons (a := '\x7d') (b := c) (l := p))
  revert h hcount
  generalize (if c == '\x7b' then 1 else 0) = opens
  generalize (if c == '\x7d' then 1 else 0) = closes
  intro h hcount
  constructor
  · intro hm
    refine ⟨?_, fun p hp => ?_⟩
    · have := hm.all_closed
      have := hcount s
      omega
    · have := hm.none_early (c :: p) ((List.prefix_cons_inj c).2 hp)
      have := hcount p
      omega
  · intro hm
    refine ⟨?_, fun p hp => ?_⟩
    · have := hm.all_closed
      have := hcount s
      omega
    · rcases List.prefix_cons_iff.1 hp with rfl | ⟨q, rfl, hq⟩
      · exact Nat.zero_le _
      · have := hm.none_early q hq
        have := hcount q
        omega

theorem open_iff : BracesMatch opened ('\x7b' :: s) ↔ BracesMatch (opened + 1) s :=
  cons_iff rfl

theorem close_iff : BracesMatch (opened + 1) ('\x7d' :: s) ↔ BracesMatch opened s :=
  cons_iff rfl

theorem not_close : ¬ BracesMatch 0 ('\x7d' :: s) := fun h =>
  absurd (h.none_early ['\x7d'] (List.prefix_append _ s)) (by decide)

theorem char_iff (ho : c ≠ '\x7b') (hc : c ≠ '\x7d') :
    BracesMatch opened (c :: s) ↔ BracesMatch opened s := by
  refine cons_iff ?_
  rw [if_neg (by simpa using ho), if_neg (by simpa using hc)]

end BracesMatch

namespace Lexer

open Text

/-- A hole is a text of which the braces match, up to a closing brace. -/
theorem hole?_eq_some_iff {opened : Nat} {done s t rest : List Char} :
    hole? opened done s = some (t, rest) ↔
      ∃ source, BracesMatch opened source ∧ t = done.reverse ++ source ∧
        s = source ++ '\x7d' :: rest := by
  induction s generalizing opened done with
  | nil => simp [hole?]
  | cons c s ih =>
    -- unless the hole ends, the first character is passed
    have hstep (opened' : Nat) (he : hole? opened done (c :: s) = hole? opened' (c :: done) s)
        (hm : ∀ source, BracesMatch opened (c :: source) ↔ BracesMatch opened' source)
        (hn : BracesMatch opened [] → c ≠ '\x7d') :
        hole? opened done (c :: s) = some (t, rest) ↔
          ∃ source, BracesMatch opened source ∧ t = done.reverse ++ source ∧
            c :: s = source ++ '\x7d' :: rest := by
      rw [he, ih]
      constructor
      · rintro ⟨source, hsource, rfl, rfl⟩
        exact ⟨c :: source, (hm source).2 hsource, by simp, rfl⟩
      · rintro ⟨source, hsource, rfl, hs⟩
        rcases source with _ | ⟨d, source⟩
        · exact absurd (List.cons.inj hs).1 (hn hsource)
        · obtain ⟨rfl, rfl⟩ := List.cons.inj hs
          exact ⟨source, (hm source).1 hsource, by simp, rfl⟩
    by_cases ho : c = '\x7b'
    · subst ho
      exact hstep (opened + 1) rfl (fun _ => BracesMatch.open_iff) fun _ => by decide
    · by_cases hc : c = '\x7d'
      · subst hc
        cases opened with
        | succ opened =>
          exact hstep opened rfl (fun _ => BracesMatch.close_iff) fun h =>
            absurd (BracesMatch.nil_iff.1 h) (Nat.succ_ne_zero _)
        | zero =>
          show some (done.reverse, s) = some (t, rest) ↔ _
          constructor
          · rintro ⟨⟩
            exact ⟨[], BracesMatch.nil_iff.2 rfl, (List.append_nil _).symm, rfl⟩
          · rintro ⟨source, hsource, rfl, hs⟩
            rcases source with _ | ⟨d, source⟩
            · rw [List.append_nil, (List.cons.inj hs).2]
            · obtain ⟨rfl, -⟩ := List.cons.inj hs
              exact absurd hsource BracesMatch.not_close
      · refine hstep opened ?_ (fun _ => BracesMatch.char_iff ho hc) fun _ => hc
        show (if c = '\x7b' then _ else if c = '\x7d' then _ else _) = _
        rw [if_neg ho, if_neg hc]

theorem template_hole (text s : List Char) (chunks : List Chunk) :
    template text chunks ('$' :: '\x7b' :: s) =
      match hole? 0 [] s with
      | some (source, rest) =>
        template [] (.source (String.ofList source) :: addText text chunks) rest
      | none => .error ⟨.unterminatedHole, []⟩ := by
  rw [template, if_neg (by decide), if_neg (by decide), dif_pos ⟨rfl, rfl⟩]
  split
  · rename_i source rest he
    rw [show hole? 0 [] s = some (source, rest) from he]
  · rename_i he
    rw [show hole? 0 [] s = none from he]

theorem template_end (text rest : List Char) (chunks : List Chunk) :
    template text chunks ('\x60' :: rest) = .ok (.template (addText text chunks).reverse, rest) := by
  rw [template, if_pos rfl]

theorem exists_of_addText (text : List Char) (chunks : List Chunk) :
    ∃ more, (addText text chunks).reverse = chunks.reverse ++ more ∧ (more = [] → text = []) := by
  unfold addText
  split
  · rename_i h
    exact ⟨[], (List.append_nil _).symm, fun _ => List.isEmpty_iff.1 h⟩
  · exact ⟨_, List.reverse_cons, fun h => absurd h (List.cons_ne_nil _ _)⟩

/-- A template keeps the chunks that were read. If it adds none, it ends at once. -/
theorem exists_of_template {text : List Char} {chunks : List Chunk} {s rest : List Char} {t : Token}
    (h : template text chunks s = .ok (t, rest)) :
    ∃ more, t = .template (chunks.reverse ++ more) ∧
      (more = [] → text = [] ∧ s = '\x60' :: rest) := by
  fun_induction template text chunks s with
  | case1 => cases h
  | case2 text chunks tail =>
    cases h
    obtain ⟨more, hm, hn⟩ := exists_of_addText text chunks
    exact ⟨more, congrArg Token.template hm, fun h => ⟨hn h, rfl⟩⟩
  | case3 text chunks tail e after he hq ih =>
    obtain ⟨more, ht, hn⟩ := ih h
    exact ⟨more, ht, fun h => absurd (hn h).1 (List.cons_ne_nil _ _)⟩
  | case4 => cases h
  | case5 text chunks c tail hq hs hd source after hh ih =>
    obtain ⟨more, ht, -⟩ := ih h
    obtain ⟨between, hb, -⟩ := exists_of_addText text chunks
    rw [List.reverse_cons, hb, List.append_assoc, List.append_assoc] at ht
    refine ⟨_, ht, fun h => ?_⟩
    simp at h
  | case6 => cases h
  | case7 text chunks c tail hq hs hd ih =>
    obtain ⟨more, ht, hn⟩ := ih h
    exact ⟨more, ht, fun h => absurd (hn h).1 (List.cons_ne_nil _ _)⟩

theorem exists_of_string {quote : Char} {done s rest : List Char} {t : Token}
    (h : string quote done s = .ok (t, rest)) : ∃ x, t = .string x := by
  fun_induction string quote done s with
  | case1 => cases h
  | case2 =>
    cases h
    exact ⟨_, rfl⟩
  | case3 done tail e after he hq ih => exact ih h
  | case4 => cases h
  | case5 done c tail hq hs ih => exact ih h

theorem exists_of_number {s rest : List Char} {t : Token} (h : number s = .ok (t, rest)) :
    ∃ x, t = .number x := by
  unfold number hexNumber decimalNumber at h
  dsimp only at h
  repeat' split at h
  all_goals first
    | contradiction
    | cases h
      exact ⟨_, rfl⟩

/-- Marks are read as they are spelled, and the end is not read at all. -/
theorem token_eq_mark {c : Char} {s rest : List Char} {t : Token} (h : token c s = .ok (t, rest))
    (ht : t = .stop ∨ ∃ m, t = .mark m) :
    ∃ m, t = .mark m ∧ mark? (c :: s) = some m ∧ rest = s.drop (m.spelling.length - 1) := by
  cases tokenStart c s with
  | number _ read =>
    obtain ⟨x, rfl⟩ := exists_of_number (read.symm.trans h)
    rcases ht with ht | ⟨m, ht⟩ <;> contradiction
  | string _ read =>
    obtain ⟨x, rfl⟩ := exists_of_string (read.symm.trans h)
    rcases ht with ht | ⟨m, ht⟩ <;> contradiction
  | template _ read =>
    obtain ⟨more, rfl, -⟩ := exists_of_template (read.symm.trans h)
    rcases ht with ht | ⟨m, ht⟩ <;> contradiction
  | name _ read =>
    cases read.symm.trans h
    rcases ht with ht | ⟨m, ht⟩ <;> contradiction
  | mark start _ read =>
    cases read.symm.trans h
    exact ⟨_, rfl, start, rfl⟩
  | none read => cases read.symm.trans h

theorem eq_of_token_semicolon {c : Char} {s rest : List Char}
    (h : token c s = .ok (.mark .semicolon, rest)) : c = ';' ∧ rest = s := by
  obtain ⟨m, hm, hs, hr⟩ := token_eq_mark h (Or.inr ⟨_, rfl⟩)
  obtain rfl := Token.mark.inj hm
  have hc := mark?_isPrefixOf hs
  obtain ⟨hc, -⟩ := List.cons_prefix_cons.1 (List.isPrefixOf_iff_prefix.1 hc)
  exact ⟨hc.symm, hr⟩

theorem exists_of_tokensFrom {size : Nat} {done us : List Spanned} {s : List Char}
    (h : tokensFrom size done s = .ok us) : ∃ ts, us = done.reverse ++ ts := by
  fun_induction tokensFrom size done s with
  | case1 done s hs =>
    cases h
    exact ⟨_, List.reverse_cons⟩
  | case2 done s c tail hs t after ht ih =>
    obtain ⟨ts, rfl⟩ := ih h
    refine ⟨⟨t, offset size (c :: tail)⟩ :: ts, ?_⟩
    rw [List.reverse_cons, List.append_assoc]
    rfl
  | case3 => cases h

theorem exists_of_tokensFrom_cons {size : Nat} {done us : List Spanned} {c : Char} {s : List Char}
    (hb : isBlank c = false) (h : tokensFrom size done (c :: s) = .ok us) :
    ∃ t o after more, token c s = .ok (t, after) ∧ us = done.reverse ++ ⟨t, o⟩ :: more ∧
      tokensFrom size (⟨t, o⟩ :: done) after = .ok us := by
  have hd : (c :: s).dropWhile isBlank = c :: s := List.dropWhile_cons_of_neg (by simp [hb])
  rw [tokensFrom] at h
  split at h
  · rename_i he
    rw [hd] at he
    contradiction
  · rename_i he
    obtain ⟨rfl, rfl⟩ := List.cons.inj (hd.symm.trans he)
    split at h
    · rename_i t after ht
      obtain ⟨more, rfl⟩ := exists_of_tokensFrom h
      refine ⟨t, _, after, more, ht, ?_, h⟩
      rw [List.reverse_cons, List.append_assoc]
      rfl
    · contradiction

/-- If an expression is over in front of a text, the text is blank but for semicolons. -/
theorem blank_or_semicolon_of_finish {size : Nat} {done ts : List Spanned} {s : List Char}
    (h : tokensFrom size done s = .ok (done.reverse ++ ts))
    (hf : Parser.Scope.finish ts = .ok ()) : ∀ c ∈ s, isBlank c = true ∨ c = ';' := by
  fun_induction tokensFrom size done s generalizing ts with
  | case1 done s hs => exact fun c hc => Or.inl (List.dropWhile_eq_nil_iff.1 hs c hc)
  | case2 done s c tail hs t after ht ih =>
    obtain ⟨more, hm⟩ := exists_of_tokensFrom h
    rw [hm] at h
    rw [List.reverse_cons, List.append_assoc] at hm
    obtain rfl := List.append_cancel_left hm
    have hsemi : t = .mark .semicolon ∧ Parser.Scope.finish more = .ok () := by
      rw [List.singleton_append] at hf
      unfold Parser.Scope.finish at hf
      split at hf
      · rename_i he
        obtain ⟨ht', rfl⟩ := List.cons.inj he
        exact ⟨(Spanned.mk.inj ht').1, hf⟩
      · rename_i he
        obtain ⟨ht', -⟩ := Spanned.mk.inj (List.cons.inj he).1
        obtain ⟨m, hm, -⟩ := token_eq_mark ht (Or.inl ht')
        rw [ht'] at hm
        contradiction
      · contradiction
    obtain ⟨rfl, hf⟩ := hsemi
    obtain ⟨rfl, rfl⟩ := eq_of_token_semicolon ht
    have htail := ih h hf
    intro d hd
    rw [← List.takeWhile_append_dropWhile (p := isBlank) (l := s), hs, List.mem_append,
      List.mem_cons] at hd
    rcases hd with hd | rfl | hd
    · exact Or.inl (List.mem_takeWhile_imp hd)
    · exact Or.inr rfl
    · exact htail d hd
  | case3 => cases h

end Lexer

namespace Parser.Scope

variable {s : Scope} {e : Expr} {ts rest : List Spanned} {fs : List Fragment}

/-- Behind a link, an expression is no template. -/
theorem link?_ne_template {r : { rest : List Spanned // rest.length < ts.length }} :
    s.link? e ts ≠ some (.ok (.template fs, r)) := by
  intro h
  unfold link? at h
  split at h
  all_goals first
    | contradiction
    | obtain ⟨_, -, he⟩ := map_eq_ok_iff.1 (Option.some.inj h)
      cases he

theorem eq_of_links {e : Expr} {ts : List Spanned}
    {r : { rest : List Spanned // rest.length ≤ ts.length }}
    (h : s.links e ts = .ok (.template fs, r)) : e = .template fs ∧ r.1 = ts := by
  rw [links] at h
  split at h
  · cases h
    exact ⟨rfl, rfl⟩
  · contradiction
  · rename_i e' more hmore hl
    obtain ⟨⟨e₁, r₁⟩, hr, he⟩ := map_eq_ok_iff.1 h
    cases he
    obtain ⟨rfl, -⟩ := eq_of_links hr
    exact absurd hl link?_ne_template
termination_by ts.length

theorem eq_of_joined {operand : (ts : List Spanned) → Parsed Expr ts} {level : Nat} {e : Expr}
    {ts : List Spanned} {r : { rest : List Spanned // rest.length ≤ ts.length }}
    (h : joined operand level e ts = .ok (.template fs, r)) : e = .template fs ∧ r.1 = ts := by
  rw [joined] at h
  split at h
  · cases h
    exact ⟨rfl, rfl⟩
  · rename_i j more hmore hj
    split at h
    · contradiction
    · rename_i right after hafter ho
      obtain ⟨⟨e₁, r₁⟩, hr, he⟩ := map_eq_ok_iff.1 h
      cases he
      obtain ⟨hj, -⟩ := eq_of_joined hr
      cases j <;> contradiction
termination_by ts.length
decreasing_by omega

section

variable {chunks : List Chunk} {o : Nat}

/-- What a template at the start is read as, unless the expression goes on behind it. -/
def ReadsTemplate {p : List Spanned → Prop} (r : Except ParseFault (Expr × Subtype p))
    (s : Scope) (chunks : List Chunk) (rest : List Spanned) : Prop :=
  ∀ fs after, r = .ok (.template fs, after) → s.fragments chunks = .ok fs ∧ after.1 = rest

theorem unary_template : ReadsTemplate (s.unary (⟨.template chunks, o⟩ :: rest)) s chunks rest := by
  intro fs after h
  obtain ⟨⟨e, more, hmore⟩, hp, h⟩ := bind_eq_ok_iff.1 (show s.chain _ = _ from h)
  obtain ⟨fs', hf, he⟩ := map_eq_ok_iff.1 (show (s.fragments chunks).map _ = _ from hp)
  cases he
  obtain ⟨⟨e', after', hafter⟩, hl, h⟩ := bind_eq_ok_iff.1 h
  cases h
  obtain ⟨he, hr⟩ := eq_of_links hl
  exact ⟨by rw [hf, Expr.template.inj he], hr⟩

theorem power_template : ReadsTemplate (s.power (⟨.template chunks, o⟩ :: rest)) s chunks rest := by
  intro fs after h
  obtain ⟨⟨e, more, hmore⟩, hu, h⟩ := bind_eq_ok_iff.1 h
  dsimp only at h
  split at h
  · obtain ⟨_, -, h⟩ := bind_eq_ok_iff.1 h
    cases h
  · cases h
    exact unary_template _ _ hu

theorem operators_template (count : Nat) :
    ReadsTemplate (s.operators count (⟨.template chunks, o⟩ :: rest)) s chunks rest := by
  induction count with
  | zero => exact power_template
  | succ count ih =>
    intro fs after h
    obtain ⟨⟨e, more, hmore⟩, ho, h⟩ := bind_eq_ok_iff.1 h
    obtain ⟨⟨e', after', hafter⟩, hj, h⟩ := bind_eq_ok_iff.1 h
    cases h
    obtain ⟨rfl, hr⟩ := eq_of_joined hj
    obtain ⟨hf, hm⟩ := ih _ _ ho
    exact ⟨hf, hr.trans hm⟩

theorem expression_template :
    ReadsTemplate (s.expression (⟨.template chunks, o⟩ :: rest)) s chunks rest := by
  intro fs after h
  obtain ⟨⟨e, more, hmore⟩, ho, h⟩ :=
    bind_eq_ok_iff.1 (show (s.operators Joint.levelCount _ >>= _) = _ from h)
  dsimp only at h
  split at h
  · cases h
    exact operators_template _ _ _ ho
  · obtain ⟨_, -, h⟩ := bind_eq_ok_iff.1 h
    obtain ⟨_, -, h⟩ := bind_eq_ok_iff.1 h
    obtain ⟨_, -, h⟩ := bind_eq_ok_iff.1 h
    cases h

end

theorem length_fragments {chunks : List Chunk} (h : s.fragments chunks = .ok fs) :
    fs.length = chunks.length := by
  unfold fragments at h
  induction chunks generalizing fs with
  | nil =>
    cases h
    rfl
  | cons chunk chunks ih =>
    rw [List.mapM_cons] at h
    obtain ⟨f, -, h⟩ := bind_eq_ok_iff.1 h
    obtain ⟨fs', hfs, h⟩ := bind_eq_ok_iff.1 h
    cases h
    rw [List.length_cons, List.length_cons, ih hfs]

end Parser.Scope

/-- The text of a template that is one hole with the source in it. -/
def templateAround (source : String) : String :=
  "\x60$\x7b" ++ source ++ "\x7d\x60"

theorem toList_templateAround (source : String) :
    (templateAround source).toList =
      '\x60' :: '$' :: '\x7b' :: (source.toList ++ ['\x7d', '\x60']) := by
  unfold templateAround
  rw [String.toList_append, String.toList_append]
  rfl

namespace Parser

open Scope Lexer

variable {limit : Nat} {source : String} {e : Expr}

/-- Braces that match leave the whole source in the hole. -/
theorem parse_templateAround (he : Expr.parse limit source = .ok e)
    (hm : BracesMatch 0 source.toList) :
    Expr.parse (limit + 1) (templateAround source) = .ok (.template [.hole e]) := by
  have hhole : hole? 0 [] (source.toList ++ ['\x7d', '\x60']) = some (source.toList, ['\x60']) :=
    hole?_eq_some_iff.2 ⟨_, hm, rfl, rfl⟩
  have htoken : token '\x60' ('$' :: '\x7b' :: (source.toList ++ ['\x7d', '\x60'])) =
      .ok (.template [.source source], []) := by
    show template [] [] _ = _
    rw [template_hole, hhole]
    dsimp only
    rw [template_end, String.ofList_toList]
    rfl
  have hreads : Reads (templateAround source).toList [.template [.source source], .stop] := by
    rw [toList_templateAround]
    exact reads_nil.token (by decide) htoken
  obtain ⟨spanned, hs, hts⟩ := hreads (templateAround source).utf8ByteSize []
  have hspells : Spells (.template [.hole e]) [.template [.source source]] (max limit 0) :=
    .template (.hole he .nil)
  exact parse_of_spells (.bare (Nat.zero_le _) hspells) (by omega) hs hts

/-- If all of the template is one hole, the braces in it match. -/
theorem bracesMatch_of_parse
    (h : Expr.parse (limit + 1) (templateAround source) = .ok (.template [.hole e])) :
    BracesMatch 0 source.toList := by
  obtain ⟨ts, hts, h⟩ := bind_eq_ok_iff.1 h
  obtain ⟨⟨e', rest, hrest⟩, hread, h⟩ := bind_eq_ok_iff.1 h
  obtain ⟨⟨⟩, hfinish, h⟩ := bind_eq_ok_iff.1 h
  cases h
  -- the first token is a template with one hole
  unfold tokenize at hts
  rw [toList_templateAround] at hts
  obtain ⟨t, o, after, more, htoken, rfl, hts⟩ := exists_of_tokensFrom_cons (by decide) hts
  obtain ⟨chunks, rfl⟩ : ∃ chunks, t = .template chunks := by
    obtain ⟨chunks, ht, -⟩ := exists_of_template (show template [] [] _ = _ from htoken)
    exact ⟨_, ht⟩
  obtain ⟨hfragments, hmore⟩ := expression_template _ _ hread
  have hone : chunks.length = 1 := (length_fragments hfragments).symm
  -- behind the hole the template ends, and then the text
  change template [] [] _ = _ at htoken
  rw [template_hole] at htoken
  split at htoken
  · rename_i hole behind hhole
    obtain ⟨_, hmatch, rfl, hsource⟩ := hole?_eq_some_iff.1 hhole
    obtain ⟨others, hchunks, hends⟩ := exists_of_template htoken
    have hothers : others = [] := by
      rw [Token.template.inj hchunks] at hone
      simpa [addText] using hone
    obtain ⟨-, rfl⟩ := hends hothers
    have hblank := blank_or_semicolon_of_finish hts (hmore ▸ hfinish)
    have hafter : after = [] := by
      rcases List.eq_nil_or_concat after with rfl | ⟨init, c, rfl⟩
      · rfl
      · have hlast : (source.toList ++ ['\x7d']) ++ ['\x60'] =
            (hole ++ '\x7d' :: '\x60' :: init) ++ [c] := by simpa using hsource
        obtain rfl := List.singleton_inj.1 (List.append_inj_right' hlast rfl)
        rcases hblank '\x60' (by simp) with hb | hb
        · exact absurd hb (by decide)
        · exact absurd hb (by decide)
    subst hafter
    rw [List.append_cancel_right hsource]
    exact hmatch
  · contradiction

/-- An expression is read in the hole of a template, with one level more to open, exactly if the
braces in its text match. -/
theorem read_in_hole_iff (he : Expr.parse limit source = .ok e) :
    Expr.parse (limit + 1) (templateAround source) = .ok (.template [.hole e]) ↔
      BracesMatch 0 source.toList :=
  ⟨bracesMatch_of_parse, parse_templateAround he⟩

/-- Nested objects stay whole in the hole. -/
theorem objects_read_in_hole :
    Expr.parse 3 (templateAround "\x7ba: \x7b\x7d\x7d") =
      .ok (.template [.hole (.object [("a", .object [])])]) := by
  have hread : Expr.parse 2 "\x7ba: \x7b\x7d\x7d" = .ok (.object [("a", .object [])]) := by
    with_unfolding_all rfl
  exact (read_in_hole_iff hread).2 (by decide)

/-- A closing brace in a text ends the hole too. -/
theorem text_cut_in_hole :
    ¬ ∀ (limit : Nat) (source : String) (e : Expr), Expr.parse limit source = .ok e →
      Expr.parse (limit + 1) (templateAround source) = .ok (.template [.hole e]) := by
  intro h
  have hread : Expr.parse 1 "'\x7d'" = .ok (.literal (.string "\x7d")) := by
    with_unfolding_all rfl
  exact absurd (bracesMatch_of_parse (h 1 _ _ hread)) (by decide)

end Parser

end Workflow
