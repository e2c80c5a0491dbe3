/-!
Reading bytes as UTF-8, and the place of the first fault when they are not. A
fault covers the longest run of bytes that could still have begun a character.
-/

namespace Rebuild.Text.Utf8

inductive Reason
  | invalidStart
  | invalidContinuation
  | unexpectedEnd
  deriving DecidableEq, Repr

/-- The first fault of a byte sequence: where it starts, how many bytes it
covers, and the first of them. -/
structure Fault where
  start : Nat
  extent : Nat
  byte : UInt8
  reason : Reason
  deriving DecidableEq, Repr

/-- A character whose last bytes are still to come: where it started, its first
byte, how many bytes were read, how many are missing, and the range of the next. -/
structure Pending where
  start : Nat
  lead : UInt8
  seen : Nat
  missing : Nat
  low : UInt8
  high : UInt8

/-- What a first byte announces. Overlong forms, surrogates and values past the
last code point are excluded by the range of the second byte. -/
def Pending.ofLead (start : Nat) (b : UInt8) : Option Pending :=
  if b < 0xC2 then none
  else if b < 0xE0 then some ⟨start, b, 1, 1, 0x80, 0xBF⟩
  else if b = 0xE0 then some ⟨start, b, 1, 2, 0xA0, 0xBF⟩
  else if b = 0xED then some ⟨start, b, 1, 2, 0x80, 0x9F⟩
  else if b < 0xF0 then some ⟨start, b, 1, 2, 0x80, 0xBF⟩
  else if b = 0xF0 then some ⟨start, b, 1, 3, 0x90, 0xBF⟩
  else if b < 0xF4 then some ⟨start, b, 1, 3, 0x80, 0xBF⟩
  else if b = 0xF4 then some ⟨start, b, 1, 3, 0x80, 0x8F⟩
  else none

/-- The pending character after one more of its bytes. -/
def Pending.next (p : Pending) : Option Pending :=
  if p.missing ≤ 1 then none
  else some { p with seen := p.seen + 1, missing := p.missing - 1, low := 0x80, high := 0xBF }

/-- The first fault from a position on, inside a pending character or between two. -/
def faultFrom : Nat → Option Pending → List UInt8 → Option Fault
  | _, none, [] => none
  | _, some p, [] => some ⟨p.start, p.seen, p.lead, .unexpectedEnd⟩
  | position, none, b :: bytes =>
    if b < 0x80 then faultFrom (position + 1) none bytes
    else
      match Pending.ofLead position b with
      | none => some ⟨position, 1, b, .invalidStart⟩
      | some p => faultFrom (position + 1) (some p) bytes
  | position, some p, b :: bytes =>
    if p.low ≤ b ∧ b ≤ p.high then faultFrom (position + 1) p.next bytes
    else some ⟨p.start, p.seen, p.lead, .invalidContinuation⟩

def decode (bytes : ByteArray) : Except Fault String :=
  match String.fromUTF8? bytes with
  | some s => .ok s
  | none => .error ((faultFrom 0 none bytes.data.toList).getD ⟨0, 0, 0, .invalidStart⟩)

@[simp] theorem decode_toUTF8 (s : String) : decode s.toUTF8 = .ok s := by
  simp [decode, String.fromUTF8?, String.toUTF8, s.isValidUTF8]
  rfl

theorem toUTF8_of_decode {bytes : ByteArray} {s : String} (h : decode bytes = .ok s) :
    s.toUTF8 = bytes := by
  simp only [decode, String.fromUTF8?] at h
  split at h
  · rename_i t ht
    split at ht
    · cases h
      cases ht
      rfl
    · cases ht
  · cases h

end Rebuild.Text.Utf8
