import Workflow.Proofs.Expr.Hole
import Workflow.Proofs.Number.Literal
import Workflow.Proofs.Text.Pieces

/-! A reader takes the same start of a text whatever blank text follows it: no character that it
looks at without taking it decides what it takes. -/
namespace Workflow.Lexer

open Text

/-- The reader takes a start of `s` for `a`, and it takes the same start in front of any of the
texts `follows`. -/
def Takes {α : Type} (follows : List Char → Prop) (read : List Char → Step α) (s : List Char) (a : α)
    (after : List Char) : Prop :=
  ∃ taken, s = taken ++ after ∧ ∀ rest, follows rest → read (taken ++ rest) = .ok (a, rest)

/-- Any text at all. -/
def Anything (_ : List Char) : Prop :=
  True

/-- A text in which no token begins. -/
def IsGap (s : List Char) : Prop :=
  ∀ c ∈ s, isBlank c = true

theorem isNamePart_eq_false_of_isBlank {c : Char} (h : isBlank c = true) : isNamePart c = false := by
  have hstart : isNameStart c = false := by
    by_contra hs
    rw [not_isBlank_of_isNameStart (Bool.of_not_eq_false hs)] at h
    contradiction
  rw [isNamePart, hstart, not_isNumeric_of_isBlank h]
  rfl

theorem IsGap.endsNumber {s : List Char} (h : IsGap s) : EndsNumber s := by
  intro c hc
  have hb : isBlank c = true := h c (List.mem_of_mem_head? hc)
  refine ⟨isNamePart_eq_false_of_isBlank hb, ?_⟩
  rintro rfl
  exact absurd hb (by decide)

theorem isNamePart_of_isHex {c : Char} (h : (digit? 16 c).isSome = true) : isNamePart c = true := by
  have hascii : c.toNat < 0x80 := by
    by_contra hc
    have hz : ¬ c ≤ '9' ∧ ¬ c ≤ 'z' ∧ ¬ c ≤ 'Z' := by
      simp only [Char.le_def, UInt32.le_iff_toNat_le, ← Char.toNat_val] at hc ⊢
      have h9 : '9'.val.toNat = 57 := rfl
      have hz : 'z'.val.toNat = 122 := rfl
      have hZ : 'Z'.val.toNat = 90 := rfl
      omega
    simp [digit?, hz] at h
  have hall : ∀ n < 0x80, (digit? 16 (Char.ofNat n)).isSome = true → isNamePart (Char.ofNat n) := by
    decide +kernel
  have hc := hall c.toNat hascii
  rw [Char.ofNat_toNat] at hc
  exact hc h

theorem takes_hexNumber {s after : List Char} {t : Token} (h : hexNumber s = .ok (t, after)) :
    Takes EndsNumber hexNumber s t after := by
  dsimp only [hexNumber] at h
  split at h
  · rename_i n hn
    cases h
    refine ⟨s.takeWhile _, List.takeWhile_append_dropWhile.symm, fun rest hr => ?_⟩
    have hhead : ∀ c ∈ rest.head?, (digit? 16 c).isSome = false := by
      intro c hc
      by_contra hx
      have hpart := isNamePart_of_isHex (Bool.of_not_eq_false hx)
      rw [(hr c hc).1] at hpart
      contradiction
    have hall : ∀ c ∈ s.takeWhile fun c => (digit? 16 c).isSome, (digit? 16 c).isSome = true :=
      fun c hc => List.mem_takeWhile_imp (p := fun c => (digit? 16 c).isSome) hc
    dsimp only [hexNumber]
    rw [takeWhile_append_of_all hhead hall, dropWhile_append_of_all hhead hall, hn]
  · contradiction

/-- What `tail` shows to a reader of numbers in front of it: the same first character, which is no
point, or no part of a number. -/
def LooksLike (tail rest : List Char) : Prop :=
  EndsNumber rest ∨ rest.head? = tail.head? ∧ tail.head? ≠ some '.'

/-- A point that no name, digit or point follows. -/
theorem fraction_point {rest : List Char}
    (h : ∀ c ∈ rest.head?, Number.isDigit c = false ∧ ¬ (isNameStart c = true ∨ c = '.')) :
    fraction ('.' :: rest) = ([], rest) := by
  cases rest with
  | nil => rfl
  | cons c rest =>
    obtain ⟨hd, hn⟩ := h c rfl
    simp only [fraction, hd, Bool.false_eq_true, if_false, hn]

theorem fraction_places {places rest : List Char} (hp : places ≠ [])
    (hd : ∀ c ∈ places, Number.isDigit c = true)
    (hr : ∀ c ∈ rest.head?, Number.isDigit c = false) :
    fraction ('.' :: (places ++ rest)) = (places, rest) := by
  cases places with
  | nil => exact absurd rfl hp
  | cons d places =>
    have hfirst : Number.isDigit d = true := hd d List.mem_cons_self
    have htake := takeWhile_append_of_all hr hd
    have hdrop := dropWhile_append_of_all hr hd
    rw [List.cons_append] at htake hdrop ⊢
    simp only [fraction, hfirst, if_true, htake, hdrop]

/-- The digits behind a point, or the point alone, and then what looks like the tail. -/
theorem fraction_append {s places tail : List Char} (h : fraction s = (places, tail)) :
    ∃ taken, s = taken ++ tail ∧
      ∀ rest, LooksLike tail rest → fraction (taken ++ rest) = (places, rest) := by
  have hnone (hs : ([], s) = (places, tail)) : ∃ taken, s = taken ++ tail ∧
      ∀ rest, LooksLike tail rest → fraction (taken ++ rest) = (places, rest) := by
    obtain ⟨rfl, rfl⟩ := Prod.mk.inj hs
    refine ⟨[], rfl, fun rest hr => ?_⟩
    show fraction rest = _
    rcases hr with hr | ⟨he, hne⟩
    · exact hr.fraction_eq
    · unfold fraction
      split
      · exact absurd he.symm hne
      · rfl
  -- a point alone is taken in front of what neither looks like a name nor like a number
  have halone (hs : s = '.' :: tail) (hp : places = [])
      (ht : ∀ c ∈ tail.head?, Number.isDigit c = false ∧ ¬ (isNameStart c = true ∨ c = '.')) :
      ∃ taken, s = taken ++ tail ∧
        ∀ rest, LooksLike tail rest → fraction (taken ++ rest) = (places, rest) := by
    refine ⟨['.'], hs, fun rest hr => ?_⟩
    rw [hp]
    apply fraction_point
    intro c hc
    rcases hr with hr | ⟨he, -⟩
    · refine ⟨hr.not_isDigit c hc, ?_⟩
      rintro (hn | rfl)
      · have hpart := isNamePart_of_isNameStart hn
        rw [(hr c hc).1] at hpart
        contradiction
      · exact (hr _ hc).2 rfl
    · exact ht c (he ▸ hc)
  unfold fraction at h
  split at h
  · rename_i digits
    split at h
    · obtain ⟨rfl, rfl⟩ := Prod.mk.inj h
      exact halone rfl rfl (by simp)
    · rename_i d more
      split at h
      · rename_i hd
        obtain ⟨rfl, rfl⟩ := Prod.mk.inj h
        have hne : (d :: more).takeWhile Number.isDigit ≠ [] := by
          rw [List.takeWhile_cons_of_pos hd]
          exact List.cons_ne_nil _ _
        refine ⟨'.' :: (d :: more).takeWhile Number.isDigit, ?_, fun rest hr => ?_⟩
        · rw [List.cons_append, List.takeWhile_append_dropWhile]
        · apply fraction_places hne fun c hc => List.mem_takeWhile_imp hc
          intro c hc
          rcases hr with hr | ⟨he, -⟩
          · exact hr.not_isDigit c hc
          · exact head_dropWhile c (he ▸ hc)
      · rename_i hd
        split at h
        · exact hnone h
        · rename_i hn
          obtain ⟨rfl, rfl⟩ := Prod.mk.inj h
          refine halone rfl rfl fun c hc => ?_
          obtain rfl := Option.some.inj hc
          exact ⟨Bool.eq_false_iff.2 hd, hn⟩
  · exact hnone h

/-- The letter, sign and digits of an exponent, or nothing. -/
theorem scanExponent_append {s after : List Char} {exponent : Option Int}
    (h : Number.scanExponent s = (exponent, after)) :
    ∃ taken, s = taken ++ after ∧ ∀ rest, EndsNumber rest →
      LooksLike s (taken ++ rest) ∧ Number.scanExponent (taken ++ rest) = (exponent, rest) := by
  cases exponent with
  | none =>
    have hs := Number.scanExponent_of_none (congrArg Prod.fst h)
    rw [h] at hs
    exact ⟨[], hs.symm, fun rest hr => ⟨Or.inl hr, hr.scanExponent_eq⟩⟩
  | some e =>
    obtain ⟨c, negative, sign, body, n, rfl, hc, hsign, hn, rfl, rfl⟩ :=
      Number.scanExponent_eq_some_iff.1 h
    refine ⟨c :: (sign ++ body.takeWhile Number.isDigit), ?_, fun rest hr => ⟨Or.inr ⟨rfl, ?_⟩, ?_⟩⟩
    · rw [List.cons_append, List.append_assoc, List.takeWhile_append_dropWhile]
    · intro hp
      obtain rfl := Option.some.inj hp
      exact absurd hc (by decide)
    · have hd : ∀ d ∈ body.takeWhile Number.isDigit, Number.isDigit d = true :=
        fun d hd => List.mem_takeWhile_imp hd
      rw [List.cons_append, List.append_assoc]
      refine Number.scanExponent_eq_some_iff.2 ⟨c, negative, sign, _, n, rfl, hc, hsign, ?_, rfl, ?_⟩
      · rw [takeWhile_append_of_all hr.not_isDigit hd]
        exact hn
      · rw [dropWhile_append_of_all hr.not_isDigit hd]

theorem decimalNumber_eq {s places tail rest : List Char} {exponent : Option Int}
    (hf : fraction (s.dropWhile Number.isDigit) = (places, tail))
    (he : Number.scanExponent tail = (exponent, rest)) :
    decimalNumber s =
      match (Number.Scanned.mk (s.takeWhile Number.isDigit) places exponent []).value? with
      | some x => .ok (.number x, rest)
      | none =>
        .error ⟨.invalidNumber (String.ofList (s.take (s.length - rest.length))), rest⟩ := by
  unfold decimalNumber
  rw [hf]
  dsimp only
  rw [he]
  rfl

theorem takes_decimalNumber {s after : List Char} {t : Token} (h : decimalNumber s = .ok (t, after)) :
    Takes EndsNumber decimalNumber s t after := by
  obtain ⟨places, tail, hf⟩ : ∃ places tail, fraction (s.dropWhile Number.isDigit) = (places, tail) :=
    ⟨_, _, rfl⟩
  obtain ⟨exponent, left, he⟩ : ∃ exponent left, Number.scanExponent tail = (exponent, left) :=
    ⟨_, _, rfl⟩
  rw [decimalNumber_eq hf he] at h
  split at h
  · rename_i x hx
    obtain ⟨rfl, rfl⟩ := Prod.mk.inj (Except.ok.inj h)
    obtain ⟨point, hpoint, hfraction⟩ := fraction_append hf
    obtain ⟨letter, hletter, hexponent⟩ := scanExponent_append he
    rw [hletter, ← List.append_assoc] at hpoint
    refine ⟨s.takeWhile Number.isDigit ++ (point ++ letter), ?_, fun rest hr => ?_⟩
    · rw [List.append_assoc, ← hpoint, List.takeWhile_append_dropWhile]
    -- no digit follows those before the point
    have hhead : ∀ c ∈ (point ++ letter ++ rest).head?, Number.isDigit c = false := by
      intro c hc
      rcases hp : point ++ letter with _ | ⟨d, more⟩
      · rw [hp] at hc
        exact hr.not_isDigit c hc
      · rw [hp] at hc hpoint
        have hd := head_dropWhile (p := Number.isDigit) (l := s) c
        rw [hpoint] at hd
        exact hd hc
    have hall : ∀ c ∈ s.takeWhile Number.isDigit, Number.isDigit c = true :=
      fun c hc => List.mem_takeWhile_imp hc
    obtain ⟨hlooks, hscan⟩ := hexponent rest hr
    have hread := hfraction _ hlooks
    rw [← List.append_assoc] at hread
    rw [List.append_assoc, decimalNumber_eq (by rw [dropWhile_append_of_all hhead hall, hread]) hscan,
      takeWhile_append_of_all hhead hall, hx]
  · contradiction

theorem number_eq_decimalNumber {s : List Char}
    (h : ∀ rest, s ≠ '0' :: 'x' :: rest ∧ s ≠ '0' :: 'X' :: rest) : number s = decimalNumber s := by
  unfold number
  split
  · exact absurd rfl (h _).1
  · exact absurd rfl (h _).2
  · rfl

theorem takes_number {s after : List Char} {t : Token} (h : number s = .ok (t, after)) :
    Takes EndsNumber number s t after := by
  unfold number at h
  split at h
  · obtain ⟨taken, rfl, hread⟩ := takes_hexNumber h
    exact ⟨'0' :: 'x' :: taken, rfl, hread⟩
  · obtain ⟨taken, rfl, hread⟩ := takes_hexNumber h
    exact ⟨'0' :: 'X' :: taken, rfl, hread⟩
  · rename_i hx hX
    obtain ⟨taken, rfl, hread⟩ := takes_decimalNumber h
    refine ⟨taken, rfl, fun rest hr => ?_⟩
    -- the mark of hexadecimal digits is not made of what is taken and what follows
    have hmark {d : Char} {more : List Char} (hd : isNamePart d = true)
        (hn : ∀ more, taken ++ after ≠ '0' :: d :: more) : taken ++ rest ≠ '0' :: d :: more := by
      intro he
      have hpart : ∀ c ∈ rest.head?, isNamePart c = false := fun c hc => (hr c hc).1
      rcases taken with _ | ⟨a, _ | ⟨b, taken⟩⟩
      · have hrest : rest = '0' :: d :: more := he
        have hzero := hpart '0' (by rw [hrest]; rfl)
        exact absurd hzero (by decide)
      · have hrest : rest = d :: more := (List.cons.inj he).2
        have hsecond := hpart d (by rw [hrest]; rfl)
        rw [hd] at hsecond
        contradiction
      · obtain ⟨ha, he⟩ := List.cons.inj he
        obtain ⟨hb, -⟩ := List.cons.inj he
        exact hn (taken ++ after) (by rw [ha, hb]; rfl)
    rw [number_eq_decimalNumber fun more => ⟨hmark (by decide) hx, hmark (by decide) hX⟩]
    exact hread rest hr

theorem unicodeEscape_any {code s after : List Char} {c : Char}
    (h : unicodeEscape code s = .ok (c, after)) (rest : List Char) :
    unicodeEscape code rest = .ok (c, rest) := by
  unfold unicodeEscape at h ⊢
  split at h
  · obtain ⟨rfl, -⟩ := Prod.mk.inj (Except.ok.inj h)
    rfl
  · contradiction

/-- An escape that is not cut off by the end of the text. -/
theorem takes_escape {s after : List Char} {c : Char} (h : escape s = .ok (c, after))
    (ha : after ≠ []) : Takes Anything escape s c after := by
  unfold escape at h
  split at h
  case h_1 => cases h
  case h_9 code =>
    -- what is behind the code is its closing brace
    have hafter := length_unicodeEscape h
    obtain ⟨d, more, hd⟩ : ∃ d more, code.dropWhile (· != '\x7d') = d :: more := by
      refine List.exists_cons_of_ne_nil fun he => ha ?_
      rw [hafter, he]
      rfl
    obtain rfl : d = '\x7d' := by
      simpa using head_dropWhile (p := (· != '\x7d')) d (by rw [hd]; rfl)
    rw [hd] at hafter
    obtain rfl : after = more := hafter
    refine ⟨'u' :: '\x7b' :: (code.takeWhile (· != '\x7d') ++ ['\x7d']), ?_, fun rest _ => ?_⟩
    · rw [List.cons_append, List.cons_append, List.append_assoc, List.singleton_append, ← hd,
        List.takeWhile_append_dropWhile]
    · have hcode : ∀ c ∈ code.takeWhile (· != '\x7d'), (c != '\x7d') = true :=
        fun c hc => List.mem_takeWhile_imp (p := (· != '\x7d')) hc
      have hbrace : ∀ c ∈ ('\x7d' :: rest).head?, (c != '\x7d') = false := by
        intro c hc
        obtain rfl := Option.some.inj hc
        rfl
      show escape ('u' :: '\x7b' :: (code.takeWhile (· != '\x7d') ++ ['\x7d'] ++ rest)) = _
      rw [List.append_assoc, List.singleton_append, escape, takeWhile_append_of_all hbrace hcode,
        dropWhile_append_of_all hbrace hcode]
      exact unicodeEscape_any h rest
  case h_10 a b c d more hbrace =>
    obtain rfl := length_unicodeEscape h
    refine ⟨['u', a, b, c, d], rfl, fun rest _ => ?_⟩
    show escape ('u' :: a :: b :: c :: d :: rest) = _
    rw [escape]
    · exact unicodeEscape_any h rest
    · exact hbrace
  case h_11 => cases h
  case h_12 =>
    cases h
    refine ⟨[c], rfl, fun rest _ => ?_⟩
    show escape (c :: rest) = _
    rw [escape]
    all_goals simp_all
  all_goals
    cases h
    exact ⟨[_], rfl, fun _ _ => rfl⟩

theorem takes_string {quote : Char} {done s after : List Char} {t : Token}
    (h : string quote done s = .ok (t, after)) : Takes Anything (string quote done) s t after := by
  fun_induction string quote done s with
  | case1 => cases h
  | case2 done rest =>
    cases h
    refine ⟨[quote], rfl, fun rest' _ => ?_⟩
    show string quote done (quote :: rest') = _
    rw [string, if_pos rfl]
  | case3 done rest e tail he hq ih =>
    have hne : tail ≠ [] := by
      rintro rfl
      rw [string] at h
      contradiction
    obtain ⟨escaped, rfl, hescape⟩ := takes_escape he hne
    obtain ⟨taken, rfl, hread⟩ := ih h
    refine ⟨'\\' :: (escaped ++ taken), by simp, fun rest' _ => ?_⟩
    show string quote done ('\\' :: (escaped ++ taken ++ rest')) = _
    rw [List.append_assoc, string_escape hq (hescape _ trivial)]
    exact hread rest' trivial
  | case4 => cases h
  | case5 done c rest hq hs ih =>
    obtain ⟨taken, rfl, hread⟩ := ih h
    refine ⟨c :: taken, rfl, fun rest' _ => ?_⟩
    show string quote done (c :: (taken ++ rest')) = _
    rw [string, if_neg hq, if_neg hs]
    exact hread rest' trivial

theorem template_escape {e : Char} {text rest after : List Char} {chunks : List Chunk}
    (h : escape rest = .ok (e, after)) :
    template text chunks ('\\' :: rest) = template (e :: text) chunks after := by
  rw [template, if_neg (by decide), if_pos rfl]
  split
  · rename_i he
    obtain ⟨rfl, rfl⟩ := Prod.mk.inj (Except.ok.inj (h.symm.trans he))
    rfl
  · rename_i he
    rw [h] at he
    contradiction

theorem takes_template {text s after : List Char} {chunks : List Chunk} {t : Token}
    (h : template text chunks s = .ok (t, after)) :
    Takes Anything (template text chunks) s t after := by
  fun_induction template text chunks s with
  | case1 => cases h
  | case2 text chunks rest =>
    cases h
    exact ⟨['\x60'], rfl, fun rest' _ => template_end text rest' chunks⟩
  | case3 text chunks rest e tail he hq ih =>
    have hne : tail ≠ [] := by
      rintro rfl
      rw [template] at h
      contradiction
    obtain ⟨escaped, rfl, hescape⟩ := takes_escape he hne
    obtain ⟨taken, rfl, hread⟩ := ih h
    refine ⟨'\\' :: (escaped ++ taken), by simp, fun rest' _ => ?_⟩
    show template text chunks ('\\' :: (escaped ++ taken ++ rest')) = _
    rw [List.append_assoc, template_escape (hescape _ trivial)]
    exact hread rest' trivial
  | case4 => cases h
  | case5 text chunks c rest hq hs hd source tail ht ih =>
    obtain ⟨rfl, hbrace⟩ := hd
    obtain ⟨body, rfl⟩ : ∃ body, rest = '\x7b' :: body := List.head?_eq_some_iff.1 hbrace
    obtain ⟨inner, hinner, hsource, hbody⟩ := hole?_eq_some_iff.1 ht
    obtain rfl : source = inner := hsource
    obtain rfl : body = source ++ '\x7d' :: tail := hbody
    obtain ⟨taken, rfl, hread⟩ := ih h
    refine ⟨'$' :: '\x7b' :: (source ++ '\x7d' :: taken), by simp, fun rest' _ => ?_⟩
    have hhole : hole? 0 [] (source ++ '\x7d' :: (taken ++ rest')) =
        some (source, taken ++ rest') := hole?_eq_some_iff.2 ⟨source, hinner, rfl, rfl⟩
    show template text chunks ('$' :: '\x7b' :: (source ++ '\x7d' :: taken ++ rest')) = _
    rw [List.append_assoc, List.cons_append, template_hole, hhole]
    exact hread rest' trivial
  | case6 => cases h
  | case7 text chunks c rest hq hs hd ih =>
    have hlength := length_template_lt h
    obtain ⟨taken, rfl, hread⟩ := ih h
    refine ⟨c :: taken, rfl, fun rest' _ => ?_⟩
    -- what is taken goes on behind the character, so that the next one is the same
    obtain ⟨d, more, rfl⟩ : ∃ d more, taken = d :: more := by
      refine List.exists_cons_of_ne_nil ?_
      rintro rfl
      exact Nat.lt_irrefl _ hlength
    show template text chunks (c :: (d :: more ++ rest')) = _
    have hhead : ¬ (c = '$' ∧ (d :: more ++ rest').head? = some '\x7b') := hd
    rw [template, if_neg hq, if_neg hs, dif_neg hhead]
    exact hread rest' trivial

/-- No mark begins with one that is looked for before it. -/
theorem pairwise_longestFirst :
    Mark.longestFirst.Pairwise fun m m' => ¬ m.spelling.toList <+: m'.spelling.toList := by
  decide +kernel

/-- The spelling of a mark has no white space. -/
theorem not_isBlank_of_mem_spelling (m : Mark) : ∀ c ∈ m.spelling.toList, isBlank c = false := by
  have hall : m.spelling.toList.all (fun c => !isBlank c) = true := by
    cases m
    all_goals decide
  intro c hc
  have hblank := List.all_eq_true.1 hall c hc
  rwa [Bool.not_eq_true'] at hblank

/-- In front of white space nothing longer is spelled. -/
theorem spelling_prefix_of_gap {m m' : Mark} {gap : List Char} (hg : IsGap gap)
    (h : m'.spelling.toList <+: m.spelling.toList ++ gap) :
    m'.spelling.toList <+: m.spelling.toList := by
  rcases List.prefix_or_prefix_of_prefix h (List.prefix_append _ _) with hm | ⟨more, hmore⟩
  · exact hm
  · rw [← hmore] at h
    have hblank : more <+: gap := (List.prefix_append_right_inj _).1 h
    cases more with
    | nil =>
      rw [← hmore, List.append_nil]
    | cons c more =>
      have hc : isBlank c = true := hg c (hblank.subset List.mem_cons_self)
      have hn : isBlank c = false := not_isBlank_of_mem_spelling m' c (by rw [← hmore]; simp)
      rw [hc] at hn
      contradiction

/-- In front of white space, a mark is the one that is spelled. -/
theorem mark?_spelling {s gap : List Char} {m : Mark} (h : mark? s = some m) (hg : IsGap gap) :
    mark? (m.spelling.toList ++ gap) = some m := by
  obtain ⟨-, before, behind, hlist, -⟩ := List.find?_eq_some_iff_append.1 h
  refine List.find?_eq_some_iff_append.2 ⟨?_, before, behind, hlist, fun m' hm' => ?_⟩
  · have hdigit : ∀ c ∈ gap.head?, Number.isDigit c = false := hg.endsNumber.not_isDigit
    have hspelled : m.spelling.toList.isPrefixOf (m.spelling.toList ++ gap) = true :=
      List.isPrefixOf_iff_prefix.2 (List.prefix_append _ _)
    rw [hspelled, Bool.true_and, Bool.not_eq_true', Bool.and_eq_false_iff]
    by_cases hm : m = .questionDot
    · subst hm
      right
      show gap.head?.any Number.isDigit = false
      cases gap with
      | nil => rfl
      | cons c gap => exact hdigit c rfl
    · left
      simpa using hm
  · have hbefore := pairwise_longestFirst
    rw [hlist, List.pairwise_append] at hbefore
    have hnot : ¬ m'.spelling.toList <+: m.spelling.toList :=
      hbefore.2.2 m' hm' m List.mem_cons_self
    have hbegins : m'.spelling.toList.isPrefixOf (m.spelling.toList ++ gap) = false := by
      rw [Bool.eq_false_iff, ne_eq, List.isPrefixOf_iff_prefix]
      exact fun h => hnot (spelling_prefix_of_gap hg h)
    rw [hbegins, Bool.false_and]
    rfl

theorem eq_dot_of_spelling {m : Mark} {more : List Char} (h : m.spelling.toList = '.' :: more) :
    more = [] := by
  have hall : m.spelling.toList.head? = some '.' → m.spelling.toList.tail = [] := by
    cases m
    all_goals decide
  rw [h] at hall
  exact hall rfl

theorem spelling_ne_nil (m : Mark) : m.spelling.toList ≠ [] := by
  cases m
  all_goals decide

theorem takes_token_of_number {c : Char} {s after : List Char} {t : Token}
    (hc : Number.isDigit c = true ∨ c = '.' ∧ s.head?.any Number.isDigit)
    (h : number (c :: s) = .ok (t, after)) : Takes IsGap (token c) s t after := by
  have hlength := length_number_lt hc h
  obtain ⟨taken, hs, hread⟩ := takes_number h
  rcases taken with _ | ⟨d, taken⟩
  · obtain rfl : c :: s = after := hs
    exact absurd hlength (by simp)
  obtain ⟨rfl, rfl⟩ := List.cons.inj hs
  refine ⟨taken, rfl, fun rest hr => ?_⟩
  -- a point is taken together with the digit behind it
  have hstart : Number.isDigit c = true ∨ c = '.' ∧ (taken ++ rest).head?.any Number.isDigit := by
    rcases hc with hc | ⟨hp, hd⟩
    · exact Or.inl hc
    · refine Or.inr ⟨hp, ?_⟩
      rcases taken with _ | ⟨d, taken⟩
      · subst hp
        cases hread [] (by simp [EndsNumber])
      · exact hd
  rw [token_of_number hstart]
  exact hread rest hr.endsNumber

/-- A mark is taken as long as it is spelled. -/
theorem takes_token_of_mark {c : Char} {s : List Char} {m : Mark} (hm : mark? (c :: s) = some m)
    (hd : Number.isDigit c = false)
    (hc : ¬ (c = '\x22' ∨ c = '\'') ∧ c ≠ '\x60' ∧ ¬ isNameStart c) :
    Takes IsGap (token c) s (.mark m) (s.drop (m.spelling.length - 1)) := by
  obtain ⟨more, hmore⟩ := List.isPrefixOf_iff_prefix.1 (mark?_isPrefixOf hm)
  obtain ⟨d, taken, hspelled⟩ := List.exists_cons_of_ne_nil (spelling_ne_nil m)
  rw [hspelled] at hmore
  obtain ⟨rfl, rfl⟩ := List.cons.inj hmore
  have hlength : m.spelling.length - 1 = taken.length := by
    rw [← String.length_toList, hspelled, List.length_cons, Nat.add_sub_cancel]
  refine ⟨taken, by rw [List.append_eq, hlength, List.drop_left], fun rest hr => ?_⟩
  -- a point is a mark of its own, and no digit follows it here
  have hnumber : ¬ (Number.isDigit d = true ∨ d = '.' ∧ (taken ++ rest).head?.any Number.isDigit) := by
    rintro (hdigit | ⟨rfl, hdigit⟩)
    · rw [hd] at hdigit
      contradiction
    · obtain rfl := eq_dot_of_spelling hspelled
      obtain ⟨e, he, hdig⟩ := (Option.any_eq_true _ _).1 hdigit
      rw [hr.endsNumber.not_isDigit e he] at hdig
      contradiction
  have hmark := mark?_spelling hm hr
  rw [hspelled, List.cons_append] at hmark
  rw [token_of_mark hnumber hc hmark, hlength, List.drop_left]

/-- A token is taken in front of white space or the end. -/
theorem takes_token {c : Char} {s after : List Char} {t : Token} (h : token c s = .ok (t, after)) :
    Takes IsGap (token c) s t after := by
  cases tokenStart c s with
  | number start read => exact takes_token_of_number start (read.symm.trans h)
  | string start read =>
    obtain ⟨taken, rfl, hread⟩ := takes_string (read.symm.trans h)
    refine ⟨taken, rfl, fun rest _ => ?_⟩
    rw [token_of_string start]
    exact hread rest trivial
  | template start read =>
    obtain ⟨taken, rfl, hread⟩ := takes_template (read.symm.trans h)
    refine ⟨taken, rfl, fun rest _ => ?_⟩
    rw [start, token_of_template]
    exact hread rest trivial
  | name start read =>
    obtain ⟨rfl, rfl⟩ := Prod.mk.inj (Except.ok.inj (read.symm.trans h))
    refine ⟨s.takeWhile isNamePart, List.takeWhile_append_dropWhile.symm, fun rest hr => ?_⟩
    exact token_name start (fun d hd => List.mem_takeWhile_imp hd) fun d hd =>
      (hr.endsNumber d hd).1
  | mark start none_other read =>
    obtain ⟨rfl, rfl⟩ := Prod.mk.inj (Except.ok.inj (read.symm.trans h))
    exact takes_token_of_mark start none_other.1 none_other.2
  | none read => cases read.symm.trans h

end Workflow.Lexer
