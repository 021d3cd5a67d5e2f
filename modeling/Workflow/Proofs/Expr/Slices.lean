import Mathlib.Data.String.Basic
import Workflow.Proofs.Expr.Takes

/-! Cutting a text into tokens loses nothing: each token is the one that its own stretch of the text
is cut into, up to the next token, and what no token begins in is blank. -/
namespace Workflow.Lexer

open Text String

theorem byteSize_eq (s : List Char) : byteSize s = utf8Len s := by
  have hfoldl (n : Nat) : s.foldl (fun n c => n + c.utf8Size) n = n + utf8Len s := by
    induction s generalizing n with
    | nil => rfl
    | cons c s ih =>
      rw [List.foldl_cons, ih, utf8Len_cons]
      omega
  rw [byteSize, hfoldl, Nat.zero_add]

theorem offset_append (before s : List Char) : offset (utf8Len (before ++ s)) s = utf8Len before := by
  rw [offset, byteSize_eq, utf8Len_append, Nat.add_sub_cancel]

/-- The end `s` of a text is cut into these tokens behind what stands before it: blank text is
skipped, and each token is read from the first character behind it. -/
inductive Cut : (before s : List Char) → List Spanned → Prop
  | stop {before gap : List Char} (blank : IsGap gap) :
    Cut before gap [⟨.stop, utf8Len (before ++ gap)⟩]
  | token {before gap taken after : List Char} {c : Char} {t : Token} {ts : List Spanned}
    (blank : IsGap gap) (start : isBlank c = false)
    (read : Lexer.token c (taken ++ after) = .ok (t, after))
    (behind : Cut (before ++ gap ++ c :: taken) after ts) :
    Cut before (gap ++ c :: (taken ++ after)) (⟨t, utf8Len (before ++ gap)⟩ :: ts)

theorem isGap_takeWhile (s : List Char) : IsGap (s.takeWhile isBlank) :=
  fun _ hc => List.mem_takeWhile_imp hc

theorem cut_of_tokensFrom {before s : List Char} {done all : List Spanned}
    (h : tokensFrom (utf8Len (before ++ s)) done s = .ok all) :
    ∃ ts, all = done.reverse ++ ts ∧ Cut before s ts := by
  generalize hsize : utf8Len (before ++ s) = size at h
  fun_induction tokensFrom size done s generalizing before with
  | case1 done s hs =>
    obtain rfl := Except.ok.inj h
    subst hsize
    refine ⟨_, List.reverse_cons, Cut.stop ?_⟩
    exact fun c hc => List.dropWhile_eq_nil_iff.1 hs c hc
  | case2 done s c rest hs t after ht ih =>
    obtain ⟨taken, rfl, -⟩ := takes_token ht
    -- the gap is generalized, since the text that is left is a part of `s` itself
    have hsplit : s = s.takeWhile isBlank ++ c :: (taken ++ after) := by
      rw [← hs, List.takeWhile_append_dropWhile]
    have hgap := isGap_takeWhile s
    revert hsplit hgap
    generalize s.takeWhile isBlank = gap
    rintro rfl hgap
    have hstart : isBlank c = false := head_dropWhile c (by rw [hs]; rfl)
    have hbehind : utf8Len ((before ++ gap ++ c :: taken) ++ after) = size := by
      rw [← hsize]
      simp only [List.append_assoc, List.cons_append]
    obtain ⟨ts, rfl, hcut⟩ := ih hbehind h
    have hoffset : offset size (c :: (taken ++ after)) = utf8Len (before ++ gap) := by
      rw [← hsize, ← List.append_assoc, offset_append]
    refine ⟨_, ?_, Cut.token hgap hstart ht hcut⟩
    rw [hoffset, List.reverse_cons, List.append_assoc]
    rfl
  | case3 => contradiction

theorem cut_of_tokenize {source : String} {ts : List Spanned} (h : tokenize source = .ok ts) :
    Cut [] source.toList ts := by
  unfold tokenize at h
  rw [← utf8Len_toList, ← List.nil_append source.toList] at h
  obtain ⟨ts', rfl, hcut⟩ := cut_of_tokensFrom h
  exact hcut

theorem tokensFrom_gap {size : Nat} {done : List Spanned} {gap : List Char} (hg : IsGap gap) :
    tokensFrom size done gap = .ok (⟨.stop, size⟩ :: done).reverse := by
  have hd : gap.dropWhile isBlank = [] := List.dropWhile_eq_nil_iff.2 hg
  rw [tokensFrom]
  split
  · rfl
  · rename_i he
    rw [hd] at he
    contradiction

/-- A token and the gap behind it are cut into that token. -/
theorem tokenize_token {c : Char} {taken after gap : List Char} {t : Token}
    (hb : isBlank c = false) (h : token c (taken ++ after) = .ok (t, after)) (hg : IsGap gap) :
    tokenize (ofList (c :: (taken ++ gap))) =
      .ok [⟨t, 0⟩, ⟨.stop, utf8Len (c :: (taken ++ gap))⟩] := by
  obtain ⟨taken', he, hread⟩ := takes_token h
  obtain rfl := List.append_cancel_right he
  unfold tokenize
  rw [toList_ofList, utf8ByteSize_ofList, tokensFrom_of_token hb (hread gap hg), tokensFrom_gap hg]
  have hzero := offset_append [] (c :: (taken ++ gap))
  rw [List.nil_append] at hzero
  rw [hzero]
  rfl

/-- The stretch of a text from one byte up to another. -/
def stretch (source : String) (start stop : Nat) : String :=
  Pos.Raw.extract source ⟨start⟩ ⟨stop⟩

/-- The text from a token up to the next one is cut into that token alone. -/
def IsOwnStretch (source : String) (t next : Spanned) : Prop :=
  tokenize (stretch source t.offset next.offset) =
    .ok [⟨t.token, 0⟩, ⟨.stop, next.offset - t.offset⟩]

/-- The tokens cover the text. -/
structure Covers (source : String) (ts : List Spanned) : Prop where
  increasing : ts.Pairwise fun t next => t.offset < next.offset
  boundary : ∀ t ∈ ts, Pos.Raw.Valid source ⟨t.offset⟩
  stop_last : ts.getLast? = some ⟨.stop, source.utf8ByteSize⟩
  blank_front : ∀ first ∈ ts.head?, IsGap (stretch source 0 first.offset).toList
  own_stretch : ts.IsChain (IsOwnStretch source)

theorem stretch_append {before s after : List Char} :
    stretch (ofList (before ++ s ++ after)) (utf8Len before) (utf8Len before + utf8Len s) =
      ofList s :=
  extract_of_valid before s after

namespace Cut

variable {before s : List Char} {ts : List Spanned} (h : Cut before s ts)
include h

/-- The first token stands behind a gap. -/
theorem head : ∃ gap rest t ts', s = gap ++ rest ∧ IsGap gap ∧
    ts = ⟨t, utf8Len (before ++ gap)⟩ :: ts' := by
  cases h with
  | stop blank => exact ⟨_, [], _, _, (List.append_nil _).symm, blank, rfl⟩
  | token blank => exact ⟨_, _, _, _, rfl, blank, rfl⟩

theorem boundary : ∀ t ∈ ts, Pos.Raw.Valid (ofList (before ++ s)) ⟨t.offset⟩ := by
  induction h with
  | @stop before gap =>
    intro t ht
    obtain rfl := List.mem_singleton.1 ht
    exact .intro ⟨before ++ gap, [], by simp, rfl⟩
  | @token before gap taken after c _ _ _ _ _ _ ih =>
    intro t ht
    rcases List.mem_cons.1 ht with rfl | ht
    · exact .intro ⟨before ++ gap, c :: (taken ++ after), by simp, rfl⟩
    · have hvalid := ih t ht
      simp only [List.append_assoc, List.cons_append] at hvalid ⊢
      exact hvalid

/-- No token stands before the text that is cut. -/
theorem le_offset : ∀ t ∈ ts, utf8Len before ≤ t.offset := by
  induction h with
  | stop =>
    intro t ht
    obtain rfl := List.mem_singleton.1 ht
    simp
  | token _ _ _ _ ih =>
    intro t ht
    rcases List.mem_cons.1 ht with rfl | ht
    · simp
    · have hle := ih t ht
      simp only [utf8Len_append] at hle
      omega

theorem increasing : ts.Pairwise fun t next => t.offset < next.offset := by
  induction h with
  | stop => exact List.pairwise_singleton _ _
  | @token _ _ _ _ c _ _ _ _ _ behind ih =>
    refine List.pairwise_cons.2 ⟨fun next hnext => ?_, ih⟩
    have hle := behind.le_offset next hnext
    have hc := c.utf8Size_pos
    simp only [utf8Len_append, utf8Len_cons] at hle ⊢
    omega

theorem stop_last : ts.getLast? = some ⟨.stop, utf8Len (before ++ s)⟩ := by
  induction h with
  | stop => rfl
  | token _ _ _ behind ih =>
    obtain ⟨_, _, _, _, -, -, rfl⟩ := behind.head
    rw [List.getLast?_cons_cons, ih]
    simp only [List.append_assoc, List.cons_append]

theorem own_stretch : ts.IsChain (IsOwnStretch (ofList (before ++ s))) := by
  induction h with
  | stop => exact List.IsChain.singleton _
  | @token before gap taken after c t ts blank start read behind ih =>
    have htext : before ++ (gap ++ c :: (taken ++ after)) = before ++ gap ++ c :: taken ++ after := by
      simp only [List.append_assoc, List.cons_append]
    rw [htext]
    obtain ⟨gap', rest, t', ts', rfl, hgap', rfl⟩ := behind.head
    refine List.isChain_cons_cons.2 ⟨?_, ih⟩
    -- up to the next token there is what was taken and the gap behind it
    have hsource : before ++ gap ++ c :: taken ++ (gap' ++ rest) =
        before ++ gap ++ c :: (taken ++ gap') ++ rest := by
      simp only [List.append_assoc, List.cons_append]
    have hlen : utf8Len (before ++ gap ++ c :: taken ++ gap') =
        utf8Len (before ++ gap) + utf8Len (c :: (taken ++ gap')) := by
      rw [← utf8Len_append, List.append_assoc, List.cons_append]
    show tokenize (stretch _ _ _) = .ok [⟨t, 0⟩, ⟨.stop, _ - _⟩]
    dsimp only
    rw [hsource, hlen, stretch_append, Nat.add_sub_cancel_left]
    exact tokenize_token start read hgap'

end Cut

theorem covers_of_tokenize {source : String} {ts : List Spanned} (h : tokenize source = .ok ts) :
    Covers source ts := by
  have hcut := cut_of_tokenize h
  have hsource : ofList ([] ++ source.toList) = source := by
    rw [List.nil_append, ofList_toList]
  exact
    { increasing := hcut.increasing
      boundary := hsource ▸ hcut.boundary
      stop_last := by rw [hcut.stop_last, List.nil_append, utf8Len_toList]
      blank_front := by
        obtain ⟨gap, rest, t, ts', hs, hgap, rfl⟩ := hcut.head
        rintro _ ⟨⟩
        have hstretch := @stretch_append [] gap rest
        rw [List.nil_append, ← hs, ofList_toList, utf8Len_nil, Nat.zero_add] at hstretch
        rw [List.nil_append, hstretch, toList_ofList]
        exact hgap
      own_stretch := hsource ▸ hcut.own_stretch }

/-- A reader of `s` stops in it, for a reason of its own. -/
structure HaltsIn (s : List Char) (halt : Halt) : Prop where
  suffix : halt.rest <:+ s
  cause : ∀ t, halt.cause ≠ .unexpectedToken t

theorem HaltsIn.of_suffix {s s' : List Char} {halt : Halt} (h : HaltsIn s halt) (hs : s <:+ s') :
    HaltsIn s' halt :=
  ⟨h.suffix.trans hs, h.cause⟩

theorem HaltsIn.cons {s : List Char} {halt : Halt} (h : HaltsIn s halt) (c : Char) :
    HaltsIn (c :: s) halt :=
  h.of_suffix (List.suffix_cons c s)

theorem haltsIn_hexNumber {s : List Char} {halt : Halt} (h : hexNumber s = .error halt) :
    HaltsIn s halt := by
  dsimp only [hexNumber] at h
  split at h
  · contradiction
  · obtain rfl := Except.error.inj h
    exact ⟨List.dropWhile_suffix _, by simp⟩

theorem haltsIn_decimalNumber {s : List Char} {halt : Halt} (h : decimalNumber s = .error halt) :
    HaltsIn s halt := by
  obtain ⟨places, tail, hf⟩ : ∃ places tail, fraction (s.dropWhile Number.isDigit) = (places, tail) :=
    ⟨_, _, rfl⟩
  obtain ⟨exponent, left, he⟩ : ∃ exponent left, Number.scanExponent tail = (exponent, left) :=
    ⟨_, _, rfl⟩
  rw [decimalNumber_eq hf he] at h
  split at h
  · contradiction
  · obtain rfl := Except.error.inj h
    obtain ⟨point, hpoint, -⟩ := fraction_append hf
    obtain ⟨letter, hletter, -⟩ := scanExponent_append he
    have hleft : left <:+ tail := ⟨letter, hletter.symm⟩
    have htail : tail <:+ s.dropWhile Number.isDigit := ⟨point, hpoint.symm⟩
    exact ⟨(hleft.trans htail).trans (List.dropWhile_suffix _), by simp⟩

theorem haltsIn_number {s : List Char} {halt : Halt} (h : number s = .error halt) :
    HaltsIn s halt := by
  unfold number at h
  split at h
  · exact ((haltsIn_hexNumber h).cons _).cons _
  · exact ((haltsIn_hexNumber h).cons _).cons _
  · exact haltsIn_decimalNumber h

theorem haltsIn_unicodeEscape {code s : List Char} {halt : Halt}
    (h : unicodeEscape code s = .error halt) : HaltsIn s halt := by
  unfold unicodeEscape at h
  split at h
  · contradiction
  · obtain rfl := Except.error.inj h
    exact ⟨List.suffix_rfl, by simp⟩

theorem haltsIn_escape {s : List Char} {halt : Halt} (h : escape s = .error halt) :
    HaltsIn s halt := by
  unfold escape at h
  split at h
  case h_9 code =>
    have hcode : (code.dropWhile (· != '\x7d')).drop 1 <:+ code :=
      (List.drop_suffix _ _).trans (List.dropWhile_suffix _)
    exact (((haltsIn_unicodeEscape h).of_suffix hcode).cons _).cons _
  case h_10 a b c d rest _ =>
    exact (haltsIn_unicodeEscape h).of_suffix (List.suffix_append ['u', a, b, c, d] rest)
  all_goals first
    | contradiction
    | obtain rfl := Except.error.inj h
      exact ⟨List.nil_suffix, by simp⟩

theorem suffix_of_escape {s after : List Char} {c : Char} (h : escape s = .ok (c, after)) :
    after <:+ s := by
  cases after with
  | nil => exact List.nil_suffix
  | cons d after =>
    obtain ⟨taken, rfl, -⟩ := takes_escape h (List.cons_ne_nil _ _)
    exact List.suffix_append _ _

theorem haltsIn_string {quote : Char} {done s : List Char} {halt : Halt}
    (h : string quote done s = .error halt) : HaltsIn s halt := by
  fun_induction string quote done s with
  | case1 =>
    obtain rfl := Except.error.inj h
    exact ⟨List.nil_suffix, by simp⟩
  | case2 => contradiction
  | case3 done rest e tail he hq ih =>
    exact ((ih h).of_suffix (suffix_of_escape he)).cons _
  | case4 done rest halt' he =>
    obtain rfl := Except.error.inj h
    exact (haltsIn_escape he).cons _
  | case5 done c rest hq hs ih => exact (ih h).cons c

theorem haltsIn_template {text s : List Char} {chunks : List Chunk} {halt : Halt}
    (h : template text chunks s = .error halt) : HaltsIn s halt := by
  fun_induction template text chunks s with
  | case1 =>
    obtain rfl := Except.error.inj h
    exact ⟨List.nil_suffix, by simp⟩
  | case2 => contradiction
  | case3 text chunks rest e tail he hq ih =>
    exact ((ih h).of_suffix (suffix_of_escape he)).cons _
  | case4 text chunks rest halt' he =>
    obtain rfl := Except.error.inj h
    exact (haltsIn_escape he).cons _
  | case5 text chunks c rest hq hs hd source tail ht ih =>
    obtain ⟨inner, -, -, hbody⟩ := hole?_eq_some_iff.1 ht
    have htail : tail <:+ rest.drop 1 := by
      rw [hbody]
      exact (List.suffix_cons _ _).trans (List.suffix_append _ _)
    exact ((ih h).of_suffix (htail.trans (List.drop_suffix _ _))).cons c
  | case6 =>
    obtain rfl := Except.error.inj h
    exact ⟨List.nil_suffix, by simp⟩
  | case7 text chunks c rest hq hs hd ih => exact (ih h).cons c

theorem haltsIn_token {c : Char} {s : List Char} {halt : Halt} (h : token c s = .error halt) :
    HaltsIn (c :: s) halt := by
  cases tokenStart c s with
  | number _ read => exact haltsIn_number (read.symm.trans h)
  | string _ read => exact (haltsIn_string (read.symm.trans h)).cons c
  | template _ read => exact (haltsIn_template (read.symm.trans h)).cons c
  | name _ read => cases read.symm.trans h
  | mark _ _ read => cases read.symm.trans h
  | none read =>
    obtain rfl := Except.error.inj (read.symm.trans h)
    refine ⟨List.suffix_cons c s, fun t => ?_⟩
    dsimp only
    split
    · simp
    · simp

/-- The text is refused at a character of its own or at its end, and not for one of its tokens. -/
def RefusedAt (source : String) (fault : ParseFault) : Prop :=
  ∃ cause o, fault = .malformed cause o ∧ Pos.Raw.Valid source ⟨o⟩ ∧
    ∀ t, cause ≠ .unexpectedToken t

theorem refusedAt_of_tokensFrom {before s : List Char} {done : List Spanned} {fault : ParseFault}
    (h : tokensFrom (utf8Len (before ++ s)) done s = .error fault) :
    RefusedAt (ofList (before ++ s)) fault := by
  generalize hsize : utf8Len (before ++ s) = size at h
  fun_induction tokensFrom size done s generalizing before with
  | case1 => contradiction
  | case2 done s c rest hs t after ht ih =>
    obtain ⟨taken, rfl, -⟩ := takes_token ht
    have hsplit : before ++ s = before ++ s.takeWhile isBlank ++ c :: taken ++ after := by
      rw [List.append_assoc, List.cons_append, List.append_assoc, ← hs,
        List.takeWhile_append_dropWhile]
    rw [hsplit] at hsize ⊢
    exact ih hsize h
  | case3 done s c rest hs halt ht =>
    obtain rfl := Except.error.inj h
    -- places are counted from the end: what is left there is an end of the text
    have hhalt := haltsIn_token ht
    rw [← hs] at hhalt
    obtain ⟨front, hfront⟩ := hhalt.suffix.trans (List.dropWhile_suffix _)
    have htext : before ++ s = before ++ front ++ halt.rest := by
      rw [List.append_assoc, hfront]
    refine ⟨_, _, rfl, .intro ⟨before ++ front, halt.rest, ?_, ?_⟩, hhalt.cause⟩
    · rw [toList_ofList, htext]
    · rw [← hsize, htext, offset_append]

theorem refusedAt_of_tokenize {source : String} {fault : ParseFault}
    (h : tokenize source = .error fault) : RefusedAt source fault := by
  unfold tokenize at h
  rw [← utf8Len_toList, ← List.nil_append source.toList] at h
  have hrefused := refusedAt_of_tokensFrom h
  rwa [List.nil_append, ofList_toList] at hrefused

end Workflow.Lexer

namespace Workflow

/-- Every text is either cut into tokens that cover it or refused at one of its characters. -/
theorem tokenize_loses_nothing (source : String) :
    (∃ ts, tokenize source = .ok ts ∧ Lexer.Covers source ts) ∨
      ∃ fault, tokenize source = .error fault ∧ Lexer.RefusedAt source fault := by
  cases h : tokenize source with
  | ok ts => exact Or.inl ⟨ts, rfl, Lexer.covers_of_tokenize h⟩
  | error fault => exact Or.inr ⟨fault, rfl, Lexer.refusedAt_of_tokenize h⟩

end Workflow
