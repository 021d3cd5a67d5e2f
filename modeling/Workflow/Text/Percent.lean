import Workflow.Text.Digits

/-! Percent escapes: bytes written as a percent sign and two hexadecimal digits. -/
namespace Workflow.Text

/-- The punctuation that never needs an escape. -/
def unreserved : List Char :=
  "-_.!~*'()".toList

/-- The punctuation that has a meaning of its own inside an address. -/
def reserved : List Char :=
  ";,/?:@&=+$#".toList

def escapeByte (b : UInt8) : List Char :=
  let digit (n : Nat) := (digitChar n).toUpper
  ['%', digit (b.toNat / 16), digit (b.toNat % 16)]

/-- Escapes every character but ASCII letters, ASCII digits and those in `keep`. -/
def percentEncode (keep s : List Char) : List Char :=
  s.flatMap fun c =>
    if c.isAlphanum || keep.contains c then [c]
    else (String.utf8EncodeChar c).flatMap escapeByte

/-- The value of a hexadecimal digit given as a byte. -/
def hexByte? (b : UInt8) : Option Nat :=
  digit? 16 (Char.ofNat b.toNat)

/-- The bytes written by `bytes`, behind `out`. Escapes of ASCII characters in `keep` stay as they
are; a percent sign without two digits behind it has no meaning. -/
def percentBytes (keep : List Char) (out : ByteArray) : List UInt8 → Option ByteArray
  | [] => some out
  | b :: rest =>
    if b != 0x25 then percentBytes keep (out.push b) rest
    else
      match rest with
      | h :: l :: rest => do
        let byte := UInt8.ofNat ((← hexByte? h) * 16 + (← hexByte? l))
        if byte.toNat < 0x80 && keep.contains (Char.ofNat byte.toNat) then
          percentBytes keep (((out.push b).push h).push l) rest
        else
          percentBytes keep (out.push byte) rest
      | _ => none

/-- Undoes `percentEncode`, except that escapes of characters in `keep` stay; `none` for a malformed
escape and for bytes that are not UTF-8. -/
def percentDecode (keep : List Char) (s : String) : Option String := do
  String.fromUTF8? (← percentBytes keep .empty s.toUTF8.data.toList)

end Workflow.Text
