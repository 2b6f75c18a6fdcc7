import Stepwise.Fault

/-!
# UTF-8

`decodeUtf8` reads a sequence of bytes as text. A fault names the bytes that cannot be read: a byte
that starts no character, a character broken off by a byte that does not continue it, or a
character broken off by the end. Surrogates, overlong forms and code points beyond U+10FFFF are
broken off at their second byte.

Result: `decodeUtf8_ascii`, bytes below 128 are the characters with these numbers.
-/

namespace Stepwise.Text

/-- Does the byte continue a character? -/
def continues (b : UInt8) : Bool := 0x80 ≤ b && b < 0xC0

/-- May `second` follow the lead byte `first`? -/
def continuesLead (first second : UInt8) : Bool :=
  continues second &&
    !(first == 0xE0 && second < 0xA0) && !(first == 0xED && 0xA0 ≤ second) &&
    !(first == 0xF0 && second < 0x90) && !(first == 0xF4 && 0x90 ≤ second)

/-- How many bytes a character with this lead byte has; 0 if no character starts so. -/
def lengthOfLead (b : UInt8) : Nat :=
  if b < 0x80 then 1
  else if b < 0xC2 then 0
  else if b < 0xE0 then 2
  else if b < 0xF0 then 3
  else if b < 0xF5 then 4
  else 0

/-- The bits that a continuing byte adds. -/
def extend (n : Nat) (b : UInt8) : Nat := 64 * n + b.toNat % 64

/-- The bits of a lead byte of a character of `size` bytes. -/
def leadBits (b : UInt8) (size : Nat) : Nat := b.toNat % 2 ^ (if size = 1 then 7 else 7 - size)

/-- The character that starts with the byte `b`, or what is wrong with it and in how many bytes. -/
def decodeFirst (b : UInt8) (rest : List UInt8) : Except (ByteFault × Nat) (Nat × Nat) :=
  let size := lengthOfLead b
  if size = 0 then .error (.invalidStart, 1)
  else
    let tail := rest.take (size - 1)
    let good :=
      match tail with
      | [] => 0
      | c :: cs => if continuesLead b c then 1 + (cs.takeWhile continues).length else 0
    if good = size - 1 then .ok (tail.foldl extend (leadBits b size), size)
    else if good = tail.length then .error (.unexpectedEnd, 1 + tail.length)
    else .error (.invalidContinuation, 1 + good)

/-- The text of the bytes from `position` on. -/
def decodeFrom : (fuel : Nat) → (position : Nat) → List UInt8 → Except Fault Text
  | _, _, [] => .ok []
  | 0, _, _ :: _ => .ok []
  | fuel + 1, position, b :: rest =>
    match decodeFirst b rest with
    | .error (fault, size) =>
      .error (.badBytes fault b.toNat position (position + size - 1))
    | .ok (n, size) => do
      let t ← decodeFrom fuel (position + size) (rest.drop (size - 1))
      return Char.ofNat n :: t

/-- The text of a sequence of bytes. -/
def decodeUtf8 (bytes : List UInt8) : Except Fault Text := decodeFrom bytes.length 0 bytes

theorem decodeFrom_ascii (position : Nat) (bytes : List UInt8) (h : ∀ b ∈ bytes, b < 0x80) :
    decodeFrom bytes.length position bytes = .ok (bytes.map fun b => Char.ofNat b.toNat) := by
  induction bytes generalizing position with
  | nil => rfl
  | cons b bs ih =>
    have hb : b < 0x80 := h b (by simp)
    have small : b.toNat < 128 := by simpa using UInt8.lt_iff_toNat_lt.1 hb
    have first : decodeFirst b bs = .ok (b.toNat, 1) := by
      simp [decodeFirst, lengthOfLead, hb, leadBits, Nat.mod_eq_of_lt small]
    simp only [List.length_cons, decodeFrom, first]
    simp only [List.drop_zero, Nat.sub_self]
    rw [ih (position + 1) fun c hc => h c (by simp [hc])]
    rfl

/-- Plain ASCII bytes stand for themselves. -/
theorem decodeUtf8_ascii (bytes : List UInt8) (h : ∀ b ∈ bytes, b < 0x80) :
    decodeUtf8 bytes = .ok (bytes.map fun b => Char.ofNat b.toNat) :=
  decodeFrom_ascii 0 bytes h

end Stepwise.Text
