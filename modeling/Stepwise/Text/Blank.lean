import Stepwise.Text.Basic

/-!
# Blanks

A blank is a white-space character of any script or one of the information separators U+001C to
U+001F. `trim` cuts blanks off both ends, `squeeze` turns each run of blanks into one space, and
`removeBlanks` deletes them all.

Results: `removeBlanks_squeeze` and `removeBlanks_trim` (only blanks are touched), and
`not_isBlank_of_mem_removeBlanks`.
-/

namespace Stepwise.Text

/-- Is this a white-space character? -/
def isBlank (c : Char) : Bool :=
  let n := c.toNat
  (9 ≤ n && n ≤ 13) || (28 ≤ n && n ≤ 32) || n == 0x85 || n == 0xA0 || n == 0x1680 ||
    (0x2000 ≤ n && n ≤ 0x200A) || n == 0x2028 || n == 0x2029 || n == 0x202F || n == 0x205F ||
    n == 0x3000

/-- The text without the longest suffix whose characters all satisfy `p`. -/
def dropEndWhile (p : Char → Bool) : Text → Text
  | [] => []
  | c :: cs =>
    match dropEndWhile p cs with
    | [] => if p c then [] else [c]
    | d :: ds => c :: d :: ds

/-- The text without the blanks at its ends. -/
def trim (t : Text) : Text := dropEndWhile isBlank (t.dropWhile isBlank)

/-- Each run of blanks becomes a single space. -/
def squeeze : Text → Text
  | [] => []
  | c :: cs =>
    if isBlank c then
      match cs with
      | [] => [' ']
      | d :: _ => if isBlank d then squeeze cs else ' ' :: squeeze cs
    else c :: squeeze cs

/-- The text without its blanks. -/
def removeBlanks (t : Text) : Text := t.filter fun c => !isBlank c

/-- Is there nothing but blanks? -/
def allBlank (t : Text) : Bool := t.all isBlank

theorem not_isBlank_of_mem_removeBlanks {t : Text} {c : Char} (h : c ∈ removeBlanks t) :
    isBlank c = false := by
  simpa [removeBlanks] using (List.mem_filter.1 h).2

theorem removeBlanks_append (s t : Text) :
    removeBlanks (s ++ t) = removeBlanks s ++ removeBlanks t := by
  simp [removeBlanks]

theorem removeBlanks_dropEndWhile (t : Text) :
    removeBlanks (dropEndWhile isBlank t) = removeBlanks t := by
  induction t with
  | nil => rfl
  | cons c cs ih =>
    unfold dropEndWhile
    cases e : dropEndWhile isBlank cs with
    | nil =>
      rw [e] at ih
      by_cases hc : isBlank c
      · simp_all [removeBlanks]
      · simp_all [removeBlanks]
    | cons d ds =>
      rw [e] at ih
      by_cases hc : isBlank c
      · simp_all [removeBlanks]
      · simp_all [removeBlanks]

theorem removeBlanks_dropWhile (t : Text) :
    removeBlanks (t.dropWhile isBlank) = removeBlanks t := by
  induction t with
  | nil => rfl
  | cons c cs ih =>
    by_cases hc : isBlank c
    · simpa [List.dropWhile, hc, removeBlanks] using ih
    · simp [List.dropWhile, hc]

/-- Trimming deletes blanks only. -/
theorem removeBlanks_trim (t : Text) : removeBlanks (trim t) = removeBlanks t := by
  rw [trim, removeBlanks_dropEndWhile, removeBlanks_dropWhile]

/-- Squeezing changes blanks only. -/
theorem removeBlanks_squeeze (t : Text) : removeBlanks (squeeze t) = removeBlanks t := by
  have space : isBlank ' ' = true := by decide
  fun_induction squeeze t with
  | case1 => rfl
  | case2 c h => simp [removeBlanks, h, space]
  | case3 c h d ds hd ih => rw [ih]; simp [removeBlanks, h]
  | case4 c h d ds hd ih =>
    have : removeBlanks (' ' :: squeeze (d :: ds)) = removeBlanks (squeeze (d :: ds)) := by
      simp [removeBlanks, space]
    rw [this, ih]; simp [removeBlanks, h]
  | case5 c cs h ih =>
    have : removeBlanks (c :: squeeze cs) = c :: removeBlanks (squeeze cs) := by
      simp [removeBlanks, h]
    rw [this, ih]; simp [removeBlanks, h]

end Stepwise.Text
