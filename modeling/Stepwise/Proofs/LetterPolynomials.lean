import Stepwise.Polynomial.Basic
import Stepwise.Proofs.ExactNumbers
import Stepwise.Proofs.Spelling

/-!
# Polynomials in one letter

`Tree.polynomial?` is the polynomial in `x` that an expression stands for, and `Poly.text` writes a
polynomial in `x`. `Library.polynomials` is the library that knows polynomials in one letter and
nothing else. Whichever letter that is, the library reads it as `x`, and writes it for `x`.

Results: `Poly.isIn_text`, there is no letter but `x` in the text of a polynomial; and `inX_renamed`, a
text in which another letter was put for its only one is the same text in `x`.
-/

namespace Stepwise

open Text

/-! ## Other letters -/

/-- The text with one letter for another. -/
def Text.renamed (x y : Char) (t : Text) : Text := t.map fun c => if c = x then y else c

/-- There is no letter in the text but the given one. -/
def Text.IsIn (x : Char) (t : Text) : Prop := ∀ c ∈ t, isLetter c = true → c = x

namespace Text

variable {x y c : Char} {s t : Text}

theorem renamed_append (x y : Char) (s t : Text) :
    renamed x y (s ++ t) = renamed x y s ++ renamed x y t := List.map_append

theorem renamed_of_not_mem (h : x ∉ t) (y : Char) : renamed x y t = t :=
  (List.map_congr_left fun _ hc => if_neg (ne_of_mem_of_not_mem hc h)).trans (List.map_id' t)

theorem filter_renamed {p : Char → Bool} (h : p x = p y) (t : Text) :
    (renamed x y t).filter p = renamed x y (t.filter p) := by
  have same : (p ∘ fun c => if c = x then y else c) = p := by
    funext c
    by_cases hc : c = x <;> simp [hc, h]
  rw [renamed, List.filter_map, same, renamed]

theorem IsIn.append (hs : IsIn x s) (ht : IsIn x t) : IsIn x (s ++ t) :=
  List.forall_mem_append.mpr ⟨hs, ht⟩

theorem IsIn.renamed (h : IsIn x t) (y : Char) : IsIn y (renamed x y t) := by
  intro c hc hl
  obtain ⟨d, hd, rfl⟩ := List.mem_map.mp hc
  by_cases hdx : d = x
  · exact if_pos hdx
  · rw [if_neg hdx] at hl
    exact absurd (h d hd hl) hdx

theorem IsIn.renamed_renamed {z : Char} (h : IsIn x t) (hy : isLetter y = true) :
    Text.renamed y z (Text.renamed x y t) = Text.renamed x z t := by
  rw [Text.renamed, Text.renamed, List.map_map]
  refine List.map_congr_left fun c hc => ?_
  by_cases hcx : c = x
  · simp [hcx]
  · have other : c ≠ y := fun same => hcx (h c hc (same ▸ hy))
    simp [hcx, other]

/-- Is there no more than one letter, perhaps in several places? -/
def hasOneLetter (t : Text) : Bool := t.all fun c => !isLetter c || t.find? isLetter == some c

/-- The text with `x` for all of its letters. -/
def inX (t : Text) : Text := t.map fun c => if isLetter c then 'x' else c

theorem IsIn.find?_eq (h : IsIn x t) : t.find? isLetter = none ∨ t.find? isLetter = some x := by
  cases found : t.find? isLetter with
  | none => exact .inl rfl
  | some c =>
    exact .inr (congrArg some (h c (List.mem_of_find?_eq_some found) (List.find?_some found)))

theorem IsIn.hasOneLetter (h : IsIn x t) : hasOneLetter t = true := by
  refine List.all_eq_true.mpr fun c hc => ?_
  cases letter : isLetter c with
  | false => rfl
  | true =>
    have some : t.find? isLetter = some x :=
      h.find?_eq.resolve_left fun none => absurd letter (List.find?_eq_none.mp none c hc)
    simp [some, h c hc letter]

theorem find?_renamed (hx : isLetter x = true) (hy : isLetter y = true) (t : Text) :
    (renamed x y t).find? isLetter = (t.find? isLetter).map fun c => if c = x then y else c := by
  have same : (isLetter ∘ fun c => if c = x then y else c) = isLetter := by
    funext c
    by_cases hc : c = x <;> simp [hc, hx, hy]
  rw [renamed, List.find?_map, same]

theorem inX_renamed (hx : isLetter x = true) (hy : isLetter y = true) (t : Text) :
    inX (renamed x y t) = inX t := by
  rw [inX, renamed, List.map_map]
  refine List.map_congr_left fun c _ => ?_
  by_cases hc : c = x <;> simp [hc, hx, hy]

end Text

/-! ## Reading and writing -/

/-- What an operator makes of two polynomials. Only numbers divide, and only natural numbers are
exponents. -/
def Operator.polynomial? : Operator → Poly → Poly → Option Poly
  | plus, p, q => some (p.add q)
  | minus, p, q => some (p.sub q)
  | times, p, q => some (p.mul q)
  | dividedBy, p, [a] => some (p.scale a⁻¹)
  | power, _, [] => some [1]
  | power, p, [a] => if a.den = 1 ∧ 0 ≤ a.num then some (p.pow a.num.toNat) else none
  | _, _, _ => none

/-- The polynomial in `x` that an expression stands for. -/
def Tree.polynomial? : Tree → Option Poly
  | constant n spelling => (n.rational? spelling).map Poly.const
  | name spelling => if spelling = ['x'] then some [0, 1] else none
  | negation operand => operand.polynomial?.map Poly.neg
  | operation op left right => do op.polynomial? (← left.polynomial?) (← right.polynomial?)
  | parenthesis content => content.polynomial?
  | call .. => none

namespace Poly

/-- A power of `x`. -/
def powerText : Nat → Text
  | 0 => []
  | 1 => ['x']
  | n => 'x' :: '^' :: Text.ofNat n

/-- A power of `x` with the numerator of its coefficient, without a sign. -/
def numeratorText (a : ℚ) (n : Nat) : Text :=
  if n = 0 then Text.ofNat a.num.natAbs
  else if a.num.natAbs = 1 then powerText n
  else Text.ofNat a.num.natAbs ++ '*' :: powerText n

/-- A power of `x` with its coefficient, without a sign. -/
def monomialText (a : ℚ) (n : Nat) : Text :=
  if a.den = 1 then numeratorText a n else numeratorText a n ++ '/' :: Text.ofNat a.den

/-- A number in writing. -/
def numberText (a : ℚ) : Text :=
  if a.den = 1 then Text.ofInt a.num else Text.ofInt a.num ++ '/' :: Text.ofNat a.den

/-- A polynomial in writing, with the greatest power first. -/
def text (p : Poly) : Text :=
  match (p.zipIdx.filter fun term => term.1 ≠ 0).reverse with
  | [] => ['0']
  | (a, n) :: terms =>
    (if a < 0 then ['-'] else []) ++ monomialText a n ++ terms.flatMap fun (a, n) =>
      (if a < 0 then " - " else " + ").toList ++ monomialText a n

theorem isIn_cons {c x : Char} {t : Text} (hc : isLetter c = true → c = x) (ht : IsIn x t) :
    IsIn x (c :: t) := List.forall_mem_cons.mpr ⟨hc, ht⟩

theorem isIn_sign {c x : Char} {t : Text} (hc : isLetter c = false) (ht : IsIn x t) :
    IsIn x (c :: t) := isIn_cons (fun letter => absurd (hc.symm.trans letter) Bool.false_ne_true) ht

theorem isIn_ofNat (x : Char) (n : Nat) : IsIn x (Text.ofNat n) := fun c hc hl =>
  absurd (isDigit_of_isAlpha hl) (by rw [allDigits_ofNat n c hc]; decide)

theorem isIn_powerText (n : Nat) : IsIn 'x' (powerText n) := by
  unfold powerText
  split
  · exact List.forall_mem_nil _
  · exact isIn_cons (fun _ => rfl) (List.forall_mem_nil _)
  · exact isIn_cons (fun _ => rfl) (isIn_sign (by decide) (isIn_ofNat _ _))

theorem isIn_numeratorText (a : ℚ) (n : Nat) : IsIn 'x' (numeratorText a n) := by
  unfold numeratorText
  split
  · exact isIn_ofNat _ _
  split
  · exact isIn_powerText n
  · exact (isIn_ofNat _ _).append (isIn_sign (by decide) (isIn_powerText n))

theorem isIn_monomialText (a : ℚ) (n : Nat) : IsIn 'x' (monomialText a n) := by
  unfold monomialText
  split
  · exact isIn_numeratorText a n
  · exact (isIn_numeratorText a n).append (isIn_sign (by decide) (isIn_ofNat _ _))

/-- There is no letter but `x` in the text of a polynomial. -/
theorem isIn_text (p : Poly) : IsIn 'x' p.text := by
  unfold text
  split
  · exact isIn_sign (by decide) (List.forall_mem_nil _)
  next a n terms _ =>
    refine (IsIn.append ?_ (isIn_monomialText a n)).append fun c hc => ?_
    · split
      · exact isIn_sign (by decide) (List.forall_mem_nil _)
      · exact List.forall_mem_nil _
    · obtain ⟨⟨b, m⟩, -, hc⟩ := List.mem_flatMap.mp hc
      refine IsIn.append ?_ (isIn_monomialText b m) c hc
      split <;> exact forall_mem_of_all (by decide)

/-- There is no letter in the text of a number. -/
theorem isIn_numberText (x : Char) (a : ℚ) : IsIn x (numberText a) := by
  have integer : IsIn x (Text.ofInt a.num) := by
    cases a.num with
    | ofNat n => exact isIn_ofNat x n
    | negSucc n => exact isIn_sign (by decide) (isIn_ofNat x _)
  unfold numberText
  split
  · exact integer
  · exact integer.append (isIn_sign (by decide) (isIn_ofNat x _))

end Poly

/-! ## A library of polynomials -/

namespace Library

/-- The library of polynomials in one letter. A number has no letter. -/
def polynomials : Library where
  Expr := Option Char × Poly
  Approximation := Unit
  read _ t :=
    if hasOneLetter t then
      match Tree.read [] (inX t) with
      | .ok tree => tree.polynomial?.elim .other fun p => .expression (t.find? isLetter, p)
      | .error _ => .unreadable
    else .unreadable
  write e :=
    .ok (match e.1 with
      | none => Poly.numberText (e.2.headD 0)
      | some v => e.2.text.renamed 'x' v)
  isImproper _ := false
  symbols e := e.1.toList.map ([·])
  integer? e := if e.1.isNone ∧ (e.2.headD 0).den = 1 then some (e.2.headD 0).num else none
  approximate _ := .ok ()
  isReal _ := false
  toBinary64 _ := .ok .nan
  simplify e := .ok e
  expand e := .ok e
  derivative x e := .ok (if e.1.map ([·]) = some x.name then (e.1, e.2.derivative) else (none, []))
  antiderivative? x e :=
    .ok (match x.name with
      | [v] => if e.1 = none ∨ e.1 = some v then some (some v, e.2.antiderivative) else none
      | _ => none)
  infinity? _ := none
  limit _ e _ _ := .ok e
  difference e f :=
    if e.1 = none ∨ f.1 = none ∨ e.1 = f.1 then .ok (e.1 <|> f.1, e.2.sub f.2)
    else .error (.notAnExpression [])
  vanishes e := .ok (e.2 == [])
  solve? _ _ _ := .ok none

end Library

end Stepwise
