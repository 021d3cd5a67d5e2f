import Workflow.Eval.Run
import Workflow.Proofs.Eval.Affords
import Workflow.Proofs.Text.Percent

/-! The functions that escape texts for addresses, and those that undo it. -/
namespace Workflow.Eval

open Text

/-- A function that escapes, the one that unescapes, and the characters whose escapes that one
leaves alone. -/
inductive UriFunctions : Native → Native → List Char → Prop
  | component : UriFunctions .encodeURIComponent .decodeURIComponent []
  | whole : UriFunctions .encodeURI .decodeURI reserved

/-- A percent sign without two hexadecimal digits, or escapes of bytes that are no text. -/
def IsMalformed (keep : List Char) (s : String) : Prop :=
  HasBrokenEscape (utf8 s) ∨ ∃ t, Unescaped keep (utf8 s) t ∧ ¬ t.toByteArray.IsValidUTF8

section

variable {encode decode : Native} {keep : List Char}

theorem UriFunctions.decode_apply (h : UriFunctions encode decode keep) (call : Caller)
    (args : List Value) :
    decode.apply call args = decodeUri keep (Value.arg args 0).display := by
  cases h <;> rfl

/-- The text that is escaped is at most three times as long, and unescaping gives the text back. -/
theorem UriFunctions.exists_encoded (h : UriFunctions encode decode keep) (call : Caller)
    (s : String) : ∃ e : String, encode.apply call [.string s] = newString e ∧
      e.utf8ByteSize ≤ 3 * s.utf8ByteSize ∧ percentDecode keep e = some s := by
  have hencoded (kept : List Char) (hkept : '%' ∉ kept) (hsubset : keep ⊆ kept) :
      (String.ofList (percentEncode kept s.toList)).utf8ByteSize ≤ 3 * s.utf8ByteSize ∧
        percentDecode keep (String.ofList (percentEncode kept s.toList)) = some s := by
    have hdecode := percentDecode_percentEncode hkept hsubset s
    have hlength := (percentDecode_eq_some_iff.1 hdecode).length_le
    rw [length_utf8, length_utf8] at hlength
    exact ⟨hlength, hdecode⟩
  have hdisplay : (Value.arg [.string s] 0).display = s := display_string s
  cases h with
  | component =>
    refine ⟨_, ?_, hencoded unreserved (by decide) (List.nil_subset _)⟩
    show newString (String.ofList (percentEncode unreserved
      (Value.arg [.string s] 0).display.toList)) = _
    rw [hdisplay]
  | whole =>
    refine ⟨_, ?_, hencoded (unreserved ++ reserved) (by decide) (List.subset_append_right _ _)⟩
    show newString (String.ofList (percentEncode (unreserved ++ reserved)
      (Value.arg [.string s] 0).display.toList)) = _
    rw [hdisplay]

end

/-- What is unescaped is a text unless the argument is malformed. -/
theorem decodeUri_spec (keep : List Char) (s : String) :
    (decodeUri keep s = fail .malformedUri ↔ IsMalformed keep s) ∧
      (¬ IsMalformed keep s →
        ∃ t, Unescaped keep (utf8 s) (utf8 t) ∧ decodeUri keep s = pure (.string t)) := by
  unfold IsMalformed
  rw [← percentDecode_eq_none_iff]
  unfold decodeUri
  cases h : percentDecode keep s with
  | none => exact ⟨⟨fun _ => rfl, fun _ => rfl⟩, fun hne => absurd rfl hne⟩
  | some t =>
    refine ⟨⟨fun hfail => absurd hfail pure_ne_fail, nofun⟩, fun _ => ?_⟩
    exact ⟨t, percentDecode_eq_some_iff.1 h, rfl⟩

/-- Escaping a text makes one that is at most three times as long, and unescaping that gives the
text back, whatever is in it. Unescaping fails for malformed arguments alone, and gives the text of
the bytes that are escaped for all others. -/
theorem uri_decode_undoes_encode {encode decode : Native} {keep : List Char}
    (h : UriFunctions encode decode keep) (call : Caller) :
    (∀ s : String, ∃ e : String, encode.apply call [.string s] = newString e ∧
      e.utf8ByteSize ≤ 3 * s.utf8ByteSize ∧ decode.apply call [.string e] = pure (.string s)) ∧
    (∀ s : String, Delivers 0 (3 * s.utf8ByteSize) (3 * s.utf8ByteSize)
      (do decode.apply call [← encode.apply call [.string s]]) (· = .string s)) ∧
    (∀ args : List Value,
      (decode.apply call args = fail .malformedUri ↔ IsMalformed keep (Value.arg args 0).display) ∧
      (¬ IsMalformed keep (Value.arg args 0).display → ∃ t : String,
        Unescaped keep (utf8 (Value.arg args 0).display) (utf8 t) ∧
          decode.apply call args = pure (.string t))) := by
  have hround (s : String) : ∃ e : String, encode.apply call [.string s] = newString e ∧
      e.utf8ByteSize ≤ 3 * s.utf8ByteSize ∧ decode.apply call [.string e] = pure (.string s) := by
    obtain ⟨e, hencode, hsize, hdecode⟩ := h.exists_encoded call s
    have hdisplay : (Value.arg [.string e] 0).display = e := display_string e
    refine ⟨e, hencode, hsize, ?_⟩
    rw [h.decode_apply, hdisplay, decodeUri, hdecode]
  refine ⟨hround, fun s => ?_, fun args => ?_⟩
  · obtain ⟨e, hencode, hsize, hdecode⟩ := hround s
    have hafter (v : Value) (hv : v = .string e) : Delivers 0 (3 * s.utf8ByteSize) 0
        (decode.apply call [v]) (· = .string s) := by
      rw [hv, hdecode]
      exact .pure rfl
    rw [hencode]
    exact ((Delivers.new_string hsize).bind hafter).mono (Nat.le_refl _) (Nat.le_refl _) hsize
  · rw [h.decode_apply]
    exact decodeUri_spec keep _

/-- A text that looks escaped, in both pairs of functions. -/
theorem uri_decode_undoes_encode_percent :
    (∃ e : String, Native.encodeURI.apply (callValue 1) [.string "%3B é"] = newString e ∧
      e.utf8ByteSize ≤ 3 * "%3B é".utf8ByteSize ∧
      Native.decodeURI.apply (callValue 1) [.string e] = pure (.string "%3B é")) ∧
    ∃ e : String, Native.encodeURIComponent.apply (callValue 1) [.string "%3B é"] = newString e ∧
      e.utf8ByteSize ≤ 3 * "%3B é".utf8ByteSize ∧
      Native.decodeURIComponent.apply (callValue 1) [.string e] = pure (.string "%3B é") :=
  ⟨(uri_decode_undoes_encode .whole (callValue 1)).1 "%3B é",
    (uri_decode_undoes_encode .component (callValue 1)).1 "%3B é"⟩

end Workflow.Eval
