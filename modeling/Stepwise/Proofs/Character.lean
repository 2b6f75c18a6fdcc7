import Stepwise.Text.Blank
import Stepwise.Text.Numeral

/-!
# Classes of characters

Blanks, digits and letters have nothing in common. There are few blanks, so what holds of them is
checked one by one (`isBlank_induction`).
-/

namespace Stepwise.Text

/-- What a check of all characters of a text says of each. -/
theorem forall_mem_of_all {p : Char → Prop} [DecidablePred p] {t : Text}
    (h : t.all (fun c => decide (p c)) = true) : ∀ c ∈ t, p c :=
  fun c hc => of_decide_eq_true (List.all_eq_true.mp h c hc)

theorem head_of_dropWhile {p : Char → Bool} (t : Text) :
    ∀ c, (t.dropWhile p).head? = some c → p c = false := by
  intro c hc
  have := List.head?_dropWhile_not p t
  rw [hc] at this
  simpa using this

/-- The code points of the blanks. -/
def blankCodes : List Nat :=
  [9, 10, 11, 12, 13, 28, 29, 30, 31, 32, 0x85, 0xA0, 0x1680, 0x2000, 0x2001, 0x2002, 0x2003,
   0x2004, 0x2005, 0x2006, 0x2007, 0x2008, 0x2009, 0x200A, 0x2028, 0x2029, 0x202F, 0x205F, 0x3000]

theorem toNat_mem_blankCodes {c : Char} (h : isBlank c = true) : c.toNat ∈ blankCodes := by
  simp only [isBlank, Bool.or_eq_true, Bool.and_eq_true, decide_eq_true_eq, beq_iff_eq] at h
  simp only [blankCodes, List.mem_cons, List.not_mem_nil, or_false]
  omega

/-- What holds of the blanks one by one holds of every blank. -/
theorem isBlank_induction {p : Char → Prop} (h : ∀ n ∈ blankCodes, p (Char.ofNat n)) {c : Char}
    (hc : isBlank c = true) : p c := by
  have := h _ (toNat_mem_blankCodes hc)
  rwa [Char.ofNat_toNat] at this

theorem isDigit_of_isBlank {c : Char} (h : isBlank c = true) : isDigit c = false :=
  isBlank_induction (p := fun c => isDigit c = false) (by decide) h

theorem isAlpha_of_isBlank {c : Char} (h : isBlank c = true) : c.isAlpha = false :=
  isBlank_induction (p := fun c => c.isAlpha = false) (by decide) h

theorem toNat_of_isAlpha {c : Char} (h : c.isAlpha = true) :
    65 ≤ c.toNat ∧ c.toNat ≤ 90 ∨ 97 ≤ c.toNat ∧ c.toNat ≤ 122 := by
  have h : (c.isUpper || c.isLower) = true := h
  rcases (Bool.or_eq_true _ _).mp h with h | h
  · have h : 'A'.val ≤ c.val ∧ c.val ≤ 'Z'.val := of_decide_eq_true h
    exact .inl h
  · have h : (decide ('a'.val ≤ c.val) && decide (c.val ≤ 'z'.val)) = true := h
    rw [Bool.and_eq_true, decide_eq_true_eq, decide_eq_true_eq] at h
    exact .inr h

theorem isDigit_of_isAlpha {c : Char} (h : c.isAlpha = true) : isDigit c = false := by
  have hn := toNat_of_isAlpha h
  have hd : ¬('0' ≤ c ∧ c ≤ '9') := fun ⟨_, h9⟩ => by
    have : c.toNat ≤ 57 := h9
    omega
  have ha : c.toNat < 0x80 := by omega
  rw [isDigit, digit?, if_neg hd, if_pos ha]
  rfl

/-- The lower case is the character itself, except for the 26 capitals. -/
theorem toLower_induction {p : Char → Prop} {c : Char} (self : p c)
    (capitals : ∀ n ∈ List.range 26, p (Char.ofNat (65 + n)).toLower) : p c.toLower := by
  by_cases hc : c.val ≥ 'A'.val ∧ c.val ≤ 'Z'.val
  · have hl : 65 ≤ c.toNat := hc.1
    have hu : c.toNat ≤ 90 := hc.2
    have := capitals (c.toNat - 65) (List.mem_range.mpr (by omega))
    rwa [Nat.add_sub_cancel' hl, Char.ofNat_toNat] at this
  · have he : c.toLower = c := dif_neg hc
    rwa [he]

end Stepwise.Text
