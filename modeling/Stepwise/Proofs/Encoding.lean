import Mathlib.Data.List.TakeWhile
import Mathlib.Logic.Basic
import Mathlib.Tactic.SplitIfs
import Stepwise.Proofs.Outcome
import Stepwise.Text.Utf8

/-!
# UTF-8 reads what it has written

`utf8` writes a text as bytes. A character takes a lead byte, which says how many bytes there are,
and continuing bytes, of which the first one must fit the lead byte: this rules out surrogates,
overlong forms and code points beyond U+10FFFF. What is left, the well-formed bytes, is exactly what
characters are written as (`Wellformed.encodes`, `exists_wellformed`).

Results: `decodeUtf8_eq_ok_iff`, bytes are read as a text if and only if they are what the text is
written as; and `decodeUtf8_eq_error`, all other bytes are undecodable.
-/

namespace Stepwise.Text

open String (utf8EncodeChar)

/-- The bytes of a text. -/
def utf8 (t : Text) : List UInt8 := t.flatMap utf8EncodeChar

/-! ## Bytes as numbers -/

section Bytes

variable {b c d e : UInt8}

theorem continues_iff : continues b = true ↔ 0x80 ≤ b.toNat ∧ b.toNat < 0xC0 := by
  simp [continues, UInt8.le_iff_toNat_le, UInt8.lt_iff_toNat_lt]

theorem continuesLead_iff : continuesLead b c = true ↔
    (0x80 ≤ c.toNat ∧ c.toNat < 0xC0) ∧
      (b.toNat = 0xE0 → 0xA0 ≤ c.toNat) ∧ (b.toNat = 0xED → c.toNat < 0xA0) ∧
      (b.toNat = 0xF0 → 0x90 ≤ c.toNat) ∧ (b.toNat = 0xF4 → c.toNat < 0x90) := by
  rw [← continues_iff]
  simp [continuesLead, UInt8.le_iff_toNat_le, UInt8.lt_iff_toNat_lt, ← UInt8.toNat_inj, and_assoc,
    imp_iff_not_or]

theorem lengthOfLead_eq (b : UInt8) : lengthOfLead b =
    if b.toNat < 0x80 then 1 else if b.toNat < 0xC2 then 0 else if b.toNat < 0xE0 then 2
    else if b.toNat < 0xF0 then 3 else if b.toNat < 0xF5 then 4 else 0 := by
  simp only [lengthOfLead, UInt8.lt_iff_toNat_lt]
  rfl

theorem lengthOfLead_eq_one_iff : lengthOfLead b = 1 ↔ b.toNat < 0x80 := by
  have h := lengthOfLead_eq b
  split_ifs at h <;> omega

theorem lengthOfLead_eq_two_iff : lengthOfLead b = 2 ↔ 0xC2 ≤ b.toNat ∧ b.toNat < 0xE0 := by
  have h := lengthOfLead_eq b
  split_ifs at h <;> omega

theorem lengthOfLead_eq_three_iff : lengthOfLead b = 3 ↔ 0xE0 ≤ b.toNat ∧ b.toNat < 0xF0 := by
  have h := lengthOfLead_eq b
  split_ifs at h <;> omega

theorem lengthOfLead_eq_four_iff : lengthOfLead b = 4 ↔ 0xF0 ≤ b.toNat ∧ b.toNat < 0xF5 := by
  have h := lengthOfLead_eq b
  split_ifs at h <;> omega

theorem lengthOfLead_le : lengthOfLead b ≤ 4 := by
  have h := lengthOfLead_eq b
  split_ifs at h <;> omega

end Bytes

/-! ## One character -/

/-- The bytes may follow the lead byte `b`. -/
def Follow (b : UInt8) : List UInt8 → Prop
  | [] => True
  | c :: cs => continuesLead b c = true ∧ ∀ d ∈ cs, continues d = true

/-- The lead byte announces as many bytes as there are, and they may follow it. -/
def Wellformed (b : UInt8) (tail : List UInt8) : Prop :=
  lengthOfLead b = tail.length + 1 ∧ Follow b tail

/-- The number that a lead byte and the bytes behind it stand for. -/
def codePoint (b : UInt8) (tail : List UInt8) : Nat :=
  tail.foldl extend (leadBits b (tail.length + 1))

theorem codePoint_nil (b : UInt8) : codePoint b [] = b.toNat % 128 := rfl

theorem codePoint_one (b c : UInt8) : codePoint b [c] = 64 * (b.toNat % 32) + c.toNat % 64 := rfl

theorem codePoint_two (b c d : UInt8) :
    codePoint b [c, d] = 64 * (64 * (b.toNat % 16) + c.toNat % 64) + d.toNat % 64 := rfl

theorem codePoint_three (b c d e : UInt8) : codePoint b [c, d, e] =
    64 * (64 * (64 * (b.toNat % 8) + c.toNat % 64) + d.toNat % 64) + e.toNat % 64 := rfl

theorem ofNat_eq_of_toNat {n : Nat} {b : UInt8} (h : n = b.toNat) : UInt8.ofNat n = b := by
  rw [h, UInt8.ofNat_toNat]

theorem exists_char {n : Nat} (h : n < 0xD800 ∨ 0xDFFF < n ∧ n < 0x110000) :
    ∃ c : Char, c.toNat = n := ⟨Char.ofNatAux n h, rfl⟩

/-- Well-formed bytes stand for a character, and are what it is written as. -/
theorem Wellformed.encodes {b : UInt8} {tail : List UInt8} (h : Wellformed b tail) :
    ∃ c : Char, c.toNat = codePoint b tail ∧ utf8EncodeChar c = b :: tail := by
  obtain ⟨length, follow⟩ := h
  match tail, length, follow with
  | [], length, _ =>
    have lead := lengthOfLead_eq_one_iff.mp length
    obtain ⟨c, hc⟩ := exists_char (n := codePoint b []) (by rw [codePoint_nil]; omega)
    refine ⟨c, hc, ?_⟩
    rw [codePoint_nil] at hc
    rw [utf8EncodeChar, Char.toNat_val]
    rw [if_pos (by omega), ofNat_eq_of_toNat (b := b) (by omega)]
  | [x], length, ⟨hx, _⟩ =>
    have lead := lengthOfLead_eq_two_iff.mp length
    rw [continuesLead_iff] at hx
    obtain ⟨c, hc⟩ := exists_char (n := codePoint b [x]) (by rw [codePoint_one]; omega)
    refine ⟨c, hc, ?_⟩
    rw [codePoint_one] at hc
    rw [utf8EncodeChar, Char.toNat_val]
    rw [if_neg (by omega), if_pos (by omega), ofNat_eq_of_toNat (b := b) (by omega),
      ofNat_eq_of_toNat (b := x) (by omega)]
  | [x, y], length, ⟨hx, hy⟩ =>
    have lead := lengthOfLead_eq_three_iff.mp length
    rw [continuesLead_iff] at hx
    rw [List.forall_mem_singleton, continues_iff] at hy
    obtain ⟨c, hc⟩ := exists_char (n := codePoint b [x, y]) (by rw [codePoint_two]; omega)
    refine ⟨c, hc, ?_⟩
    rw [codePoint_two] at hc
    rw [utf8EncodeChar, Char.toNat_val]
    rw [if_neg (by omega), if_neg (by omega), if_pos (by omega),
      ofNat_eq_of_toNat (b := b) (by omega), ofNat_eq_of_toNat (b := x) (by omega),
      ofNat_eq_of_toNat (b := y) (by omega)]
  | [x, y, z], length, ⟨hx, hyz⟩ =>
    have lead := lengthOfLead_eq_four_iff.mp length
    rw [continuesLead_iff] at hx
    rw [List.forall_mem_cons, List.forall_mem_singleton, continues_iff, continues_iff] at hyz
    obtain ⟨c, hc⟩ := exists_char (n := codePoint b [x, y, z]) (by rw [codePoint_three]; omega)
    refine ⟨c, hc, ?_⟩
    rw [codePoint_three] at hc
    rw [utf8EncodeChar, Char.toNat_val]
    rw [if_neg (by omega), if_neg (by omega), if_neg (by omega),
      ofNat_eq_of_toNat (b := b) (by omega), ofNat_eq_of_toNat (b := x) (by omega),
      ofNat_eq_of_toNat (b := y) (by omega), ofNat_eq_of_toNat (b := z) (by omega)]
  | x :: y :: z :: w :: tail, length, _ =>
    have small := lengthOfLead_le (b := b)
    simp only [List.length_cons] at length
    omega

/-- A character is written as well-formed bytes. -/
theorem exists_wellformed (c : Char) :
    ∃ b tail, utf8EncodeChar c = b :: tail ∧ Wellformed b tail ∧ codePoint b tail = c.toNat := by
  have valid := c.valid
  have hn : c.val.toNat = c.toNat := rfl
  simp only [UInt32.isValidChar, Nat.isValidChar, hn] at valid
  unfold utf8EncodeChar
  dsimp only
  rw [hn]
  generalize c.toNat = n at valid
  split_ifs with one two three
  · refine ⟨_, [], rfl, ⟨?_, trivial⟩, ?_⟩
    · rw [List.length_nil, lengthOfLead_eq_one_iff]
      simp; omega
    · rw [codePoint_nil]
      simp; omega
  · refine ⟨_, [_], rfl, ⟨?_, ?_, nofun⟩, ?_⟩
    · rw [List.length_singleton, lengthOfLead_eq_two_iff]
      simp; omega
    · rw [continuesLead_iff]
      simp; omega
    · rw [codePoint_one]
      simp; omega
  · refine ⟨_, [_, _], rfl, ⟨?_, ?_, ?_⟩, ?_⟩
    · rw [List.length_cons, List.length_singleton, lengthOfLead_eq_three_iff]
      simp; omega
    · rw [continuesLead_iff]
      simp; omega
    · rw [List.forall_mem_singleton, continues_iff]
      simp; omega
    · rw [codePoint_two]
      simp; omega
  · refine ⟨_, [_, _, _], rfl, ⟨?_, ?_, ?_⟩, ?_⟩
    · rw [List.length_cons, List.length_cons, List.length_singleton, lengthOfLead_eq_four_iff]
      simp; omega
    · rw [continuesLead_iff]
      simp; omega
    · rw [List.forall_mem_cons, List.forall_mem_singleton, continues_iff, continues_iff]
      simp; omega
    · rw [codePoint_three]
      simp; omega

/-- How many of the bytes behind a lead byte are accepted. -/
def accepted (b : UInt8) : List UInt8 → Nat
  | [] => 0
  | c :: cs => if continuesLead b c then 1 + (cs.takeWhile continues).length else 0

theorem accepted_le (b : UInt8) (tail : List UInt8) : accepted b tail ≤ tail.length := by
  cases tail with
  | nil => exact Nat.le_refl 0
  | cons c cs =>
    have short := (List.takeWhile_prefix (l := cs) continues).length_le
    rw [accepted, List.length_cons]
    split <;> omega

theorem accepted_eq_length_iff {b : UInt8} {tail : List UInt8} :
    accepted b tail = tail.length ↔ Follow b tail := by
  cases tail with
  | nil => exact iff_of_true rfl trivial
  | cons c cs =>
    have all : (cs.takeWhile continues).length = cs.length ↔ ∀ d ∈ cs, continues d = true := by
      rw [← List.takeWhile_eq_self_iff]
      exact ⟨(List.takeWhile_prefix continues).eq_of_length, congrArg List.length⟩
    rw [accepted, Follow, List.length_cons, ← all]
    split
    next fits =>
      rw [and_iff_right fits]
      omega
    next unfit => exact iff_of_false (by omega) fun h => unfit h.1

/-- The character in front of some bytes, by how many of the announced bytes are accepted. -/
theorem decodeFirst_eq (b : UInt8) (rest : List UInt8) :
    decodeFirst b rest =
      if lengthOfLead b = 0 then .error (.invalidStart, 1)
      else
        let tail := rest.take (lengthOfLead b - 1)
        if accepted b tail = lengthOfLead b - 1 then
          .ok (tail.foldl extend (leadBits b (lengthOfLead b)), lengthOfLead b)
        else if accepted b tail = tail.length then .error (.unexpectedEnd, 1 + tail.length)
        else .error (.invalidContinuation, 1 + accepted b tail) := rfl

/-- A character is read in front of some bytes if and only if they start with well-formed bytes. -/
theorem decodeFirst_eq_ok_iff {b : UInt8} {rest : List UInt8} {n size : Nat} :
    decodeFirst b rest = .ok (n, size) ↔
      ∃ tail more, rest = tail ++ more ∧ Wellformed b tail ∧ size = tail.length + 1 ∧
        n = codePoint b tail := by
  rw [decodeFirst_eq]
  dsimp only
  constructor
  · intro h
    split at h
    next => exact absurd h (by simp)
    next positive =>
      split at h
      next enough =>
        obtain ⟨rfl, rfl⟩ := Prod.mk.inj (Except.ok.inj h)
        have taken := List.length_take_le (lengthOfLead b - 1) rest
        have few := accepted_le b (rest.take (lengthOfLead b - 1))
        have length : lengthOfLead b = (rest.take (lengthOfLead b - 1)).length + 1 := by omega
        refine ⟨_, _, (List.take_append_drop (lengthOfLead b - 1) rest).symm, ⟨length, ?_⟩,
          length, ?_⟩
        · exact accepted_eq_length_iff.mp (by omega)
        · rw [codePoint, ← length]
      next => exact absurd h (by split <;> simp)
  · rintro ⟨tail, more, rfl, ⟨length, follow⟩, rfl, rfl⟩
    have taken : (tail ++ more).take (lengthOfLead b - 1) = tail := by
      rw [length, Nat.add_sub_cancel, List.take_left]
    rw [if_neg (by omega), taken, if_pos, length, codePoint]
    rw [accepted_eq_length_iff.mpr follow, length, Nat.add_sub_cancel]

/-! ## Texts -/

theorem utf8_cons (c : Char) (t : Text) : utf8 (c :: t) = utf8EncodeChar c ++ utf8 t := rfl

theorem utf8EncodeChar_ne_nil (c : Char) : utf8EncodeChar c ≠ [] := by
  obtain ⟨b, tail, hc, -⟩ := exists_wellformed c
  rw [hc]
  exact List.cons_ne_nil b tail

theorem utf8_eq_nil_iff {t : Text} : utf8 t = [] ↔ t = [] := by
  cases t with
  | nil => exact iff_of_true rfl rfl
  | cons c t =>
    rw [utf8_cons, List.append_eq_nil_iff]
    exact iff_of_false (fun h => utf8EncodeChar_ne_nil c h.1) (List.cons_ne_nil c t)

/-- Reading starts with the character that the bytes start with. -/
theorem decodeFrom_cons_eq_ok_iff {fuel position : Nat} {b : UInt8} {rest : List UInt8} {t : Text} :
    decodeFrom (fuel + 1) position (b :: rest) = .ok t ↔
      ∃ c u more, b :: rest = utf8EncodeChar c ++ more ∧
        decodeFrom fuel (position + (utf8EncodeChar c).length) more = .ok u ∧ t = c :: u := by
  rw [decodeFrom]
  constructor
  · intro h
    split at h
    next => exact absurd h (by simp)
    next n size first =>
      obtain ⟨tail, more, rfl, wellformed, rfl, rfl⟩ := decodeFirst_eq_ok_iff.mp first
      obtain ⟨c, hn, hc⟩ := wellformed.encodes
      obtain ⟨u, hu, h⟩ := bind_eq_ok.mp h
      rw [Nat.add_sub_cancel, List.drop_left] at hu
      refine ⟨c, u, more, by rw [hc, List.cons_append], by rw [hc]; exact hu, ?_⟩
      rw [← pure_eq_ok.mp h, ← hn, Char.ofNat_toNat]
  · rintro ⟨c, u, more, hb, hu, rfl⟩
    obtain ⟨b', tail, hc, wellformed, hn⟩ := exists_wellformed c
    rw [hc, List.cons_append] at hb
    obtain ⟨rfl, rfl⟩ := List.cons.inj hb
    rw [decodeFirst_eq_ok_iff.mpr ⟨tail, more, rfl, wellformed, rfl, rfl⟩]
    dsimp only
    rw [hc, List.length_cons] at hu
    rw [Nat.add_sub_cancel, List.drop_left, hu, hn, Char.ofNat_toNat]
    rfl

theorem decodeFrom_eq_ok_iff {fuel : Nat} : ∀ {position : Nat} {bytes : List UInt8} {t : Text},
    bytes.length ≤ fuel → (decodeFrom fuel position bytes = .ok t ↔ bytes = utf8 t) := by
  have nil (fuel position : Nat) (t : Text) :
      decodeFrom fuel position [] = .ok t ↔ [] = utf8 t := by
    rw [decodeFrom, Except.ok.injEq, eq_comm, eq_comm (a := []), utf8_eq_nil_iff]
  induction fuel with
  | zero =>
    intro position bytes t enough
    obtain rfl := List.length_eq_zero_iff.mp (Nat.le_zero.mp enough)
    exact nil 0 position t
  | succ fuel ih =>
    intro position bytes t enough
    cases bytes with
    | nil => exact nil (fuel + 1) position t
    | cons b rest =>
      rw [decodeFrom_cons_eq_ok_iff]
      have shorter {c : Char} {more : List UInt8} (h : b :: rest = utf8EncodeChar c ++ more) :
          more.length ≤ fuel := by
        have lengths := congrArg List.length h
        have positive := List.length_pos_iff.mpr (utf8EncodeChar_ne_nil c)
        rw [List.length_append] at lengths
        omega
      constructor
      · rintro ⟨c, u, more, hb, hu, rfl⟩
        rw [hb, utf8_cons, (ih (shorter hb)).mp hu]
      · intro hb
        cases t with
        | nil => exact absurd hb (List.cons_ne_nil b rest)
        | cons c u => exact ⟨c, u, utf8 u, hb, (ih (shorter hb)).mpr rfl, rfl⟩

/-- **Bytes are read as a text if and only if the text is written as these bytes.** -/
theorem decodeUtf8_eq_ok_iff {bytes : List UInt8} {t : Text} :
    decodeUtf8 bytes = .ok t ↔ bytes = utf8 t :=
  decodeFrom_eq_ok_iff (Nat.le_refl bytes.length)

theorem decodeUtf8_utf8 (t : Text) : decodeUtf8 (utf8 t) = .ok t := decodeUtf8_eq_ok_iff.mpr rfl

theorem kind_of_decodeFrom : ∀ {fuel position : Nat} {bytes : List UInt8} {fault : Fault},
    decodeFrom fuel position bytes = .error fault → fault.kind = .undecodable
  | _, _, [], _, h => absurd h (by simp [decodeFrom])
  | 0, _, _ :: _, _, h => absurd h (by simp [decodeFrom])
  | fuel + 1, position, b :: rest, fault, h => by
    rw [decodeFrom] at h
    split at h
    next => exact Except.error.inj h ▸ rfl
    next =>
      rcases bind_eq_error.mp h with h | ⟨u, -, h⟩
      · exact kind_of_decodeFrom h
      · exact absurd h (by simp [pure, Except.pure])

/-- Bytes that no text is written as are not read. -/
theorem decodeUtf8_eq_error {bytes : List UInt8} (h : ∀ t, bytes ≠ utf8 t) :
    ∃ fault, decodeUtf8 bytes = .error fault ∧ fault.kind = .undecodable := by
  cases read : decodeUtf8 bytes with
  | ok t => exact absurd (decodeUtf8_eq_ok_iff.mp read) (h t)
  | error fault => exact ⟨fault, rfl, kind_of_decodeFrom read⟩

end Stepwise.Text
