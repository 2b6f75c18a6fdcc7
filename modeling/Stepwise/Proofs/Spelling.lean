import Mathlib.Data.Nat.Digits.Defs
import Stepwise.Proofs.Doubles
import Stepwise.Proofs.Lexing
import Stepwise.Proofs.Reading

/-!
# How numbers are spelled

A natural number is spelled with digits, and a finite double from zero on as a number with a point
or an exponent (`IsDecimal`), whatever its digits are: so each of them is found again as one token
that has a value.

Results: `isDecimal_render`, the layout of numbers in answers; and `ofSpelling_bound`, a number that
is read is not below zero and has at most 4300 digits if it is whole.
-/

namespace Stepwise

open Text Token

/-! ## Digits -/

theorem Text.isDigit_of_isDigit {c : Char} (h : c.isDigit = true) : isDigit c = true := by
  have h : '0'.val ≤ c.val ∧ c.val ≤ '9'.val := by simpa [Char.isDigit] using h
  have h : '0' ≤ c ∧ c ≤ '9' := h
  rw [isDigit, digit?, if_pos h]
  rfl

theorem allDigits_ofNat (n : Nat) : AllDigits (ofNat n) := fun _ hc =>
  isDigit_of_isDigit (Nat.isDigit_of_mem_toDigits (by decide) (by decide) hc)

theorem ofNat_ne_nil (n : Nat) : ofNat n ≠ [] := Nat.toDigits_ne_nil

theorem Token.AllDigits.append {v w : Text} (hv : AllDigits v) (hw : AllDigits w) :
    AllDigits (v ++ w) :=
  List.forall_mem_append.mpr ⟨hv, hw⟩

theorem allDigits_zeros (k : Nat) : AllDigits (List.replicate k '0') := fun _ hc =>
  (List.eq_of_mem_replicate hc) ▸ rfl

theorem allDigits_dropEndWhile {p : Char → Bool} : ∀ {w : Text}, AllDigits w →
    AllDigits (dropEndWhile p w)
  | [], h => h
  | c :: cs, h => by
    obtain ⟨hc, hcs⟩ := List.forall_mem_cons.mp h
    have ih := allDigits_dropEndWhile (p := p) hcs
    unfold dropEndWhile
    split
    · split
      · exact fun _ h => absurd h List.not_mem_nil
      · exact List.forall_mem_singleton.mpr hc
    next heq =>
      rw [heq] at ih
      exact List.forall_mem_cons.mpr ⟨hc, ih⟩

/-! ## Numbers -/

theorem wellSpelled_digits {w : Text} (hw : AllDigits w) (hne : w ≠ []) :
    WellSpelled (.number w) := by
  have hm : mantissa w = w := by
    simpa using mantissa_digits (x := []) hw (by simp)
  refine ⟨hne, ?_⟩
  simp [numberPart, hm, exponentPart]

/-- A number with a point or an exponent, which is read as a double. -/
def IsDecimal (s : Text) : Prop :=
  WellSpelled (.number s) ∧ s.any (".eE".toList.contains ·) = true

theorem isDecimal_point {w f : Text} (hw : AllDigits w) (hf : AllDigits f) (hne : w ≠ []) :
    IsDecimal (w ++ '.' :: f) := by
  have hm : mantissa (w ++ '.' :: f) = w ++ '.' :: f := by
    simpa using mantissa_point (x := []) hw hf (by simp [hne]) (by simp)
  refine ⟨⟨by simp, ?_⟩, by simp⟩
  unfold numberPart
  dsimp only
  rw [hm, List.drop_length]
  simp [exponentPart]

theorem isDecimal_exponent {m ds : Text} {sgn : Char} (hm : m ≠ [])
    (found : ∀ x : Text, (∀ c, x.head? = some c → isDigit c = false ∧ c ≠ '.') →
      mantissa (m ++ x) = m)
    (hs : sgn = '+' ∨ sgn = '-') (hd : AllDigits ds) (hne : ds ≠ []) :
    IsDecimal (m ++ 'e' :: sgn :: ds) := by
  have hm' : mantissa (m ++ 'e' :: sgn :: ds) = m := found _ fun c hc => by
    obtain rfl := Option.some.inj hc
    decide
  have he : exponentPart ('e' :: sgn :: ds) = 'e' :: sgn :: ds := by
    simpa using exponentPart_signed (x := []) (.inl rfl) hs hne hd (by simp)
  refine ⟨⟨by simp, ?_⟩, by simp⟩
  unfold numberPart
  dsimp only
  rw [hm', List.drop_left, he, if_neg (by simpa using hm)]

theorem exists_ofSpelling {s : Text} (h : IsDecimal s) : ∃ n, Numeral.ofSpelling s = .ok n :=
  Tree.ofSpelling_isOk fun h' => absurd (h.2.symm.trans h') (by simp)

theorem exists_ofSpelling_ofNat {n : Nat} (h : n < 10 ^ Fault.digitLimit) :
    ∃ m, Numeral.ofSpelling (ofNat n) = .ok m :=
  Tree.ofSpelling_isOk fun _ => Nat.toDigits_length 10 n Fault.digitLimit (by decide) h

/-- **A decimal is laid out as a number**, with a point or an exponent. -/
theorem isDecimal_render (x : Decimal) : IsDecimal (Layout.plain.render x) := by
  unfold Layout.render
  generalize ht : dropEndWhile (· == '0') (ofNat x.digits) = t
  have hds : AllDigits (if t.isEmpty then ['0'] else t) ∧
      (if t.isEmpty then ['0'] else t) ≠ [] := by
    split
    · exact ⟨allDigits_zeros 1, List.cons_ne_nil _ _⟩
    next h => exact ⟨ht ▸ allDigits_dropEndWhile (allDigits_ofNat _), by simpa using h⟩
  dsimp only
  -- What the digits are and where the first one stands does not matter.
  generalize (if t.isEmpty then ['0'] else t) = ds at hds
  obtain ⟨hd, hne⟩ := hds
  generalize (if x.digits = 0 then (0 : Int) else
    ((ofNat x.digits).length : Int) - 1 + x.exponent) = leading
  split
  · generalize hz : List.replicate (2 - (ofNat leading.natAbs).length) '0' = zeros
    have hz : AllDigits zeros := hz ▸ allDigits_zeros _
    have hs : (if leading < 0 then '-' else '+') = '+' ∨
        (if leading < 0 then '-' else '+') = '-' := by
      split <;> simp
    have size := hz.append (allDigits_ofNat leading.natAbs)
    have more := List.append_ne_nil_of_right_ne_nil zeros (ofNat_ne_nil leading.natAbs)
    match ds, hd with
    | [], _ => exact absurd rfl hne
    | [d], hd =>
      have found := fun x => mantissa_digits (x := x) hd
      simpa using isDecimal_exponent hne found hs size more
    | d :: e :: es, hd =>
      obtain ⟨hd, hes⟩ := List.forall_mem_cons.mp hd
      have found (x : Text) (hx : ∀ c, x.head? = some c → isDigit c = false ∧ c ≠ '.') :
          mantissa (d :: '.' :: e :: es ++ x) = d :: '.' :: e :: es :=
        mantissa_point (List.forall_mem_singleton.mpr hd) hes rfl fun c hc => (hx c hc).1
      simpa using isDecimal_exponent (List.cons_ne_nil _ _) found hs size more
  · split
    · exact isDecimal_point (allDigits_zeros 1) ((allDigits_zeros _).append hd)
        (List.cons_ne_nil _ _)
    · split
      · have := isDecimal_point (hd.append (allDigits_zeros (leading.toNat + 1 - ds.length)))
          (allDigits_zeros 1) (List.append_ne_nil_of_left_ne_nil hne _)
        simpa [Layout.plain] using this
      · refine isDecimal_point (fun c hc => hd c (List.mem_of_mem_take hc))
          (fun c hc => hd c (List.mem_of_mem_drop hc)) ?_
        simpa using hne

/-! ## Numerals that are read -/

theorem valueOfDigits_lt {ds : List Nat} (h : ∀ d ∈ ds, d < 10) :
    valueOfDigits ds < 10 ^ ds.length := by
  have key : ∀ (ds : List Nat) (n : Nat), (∀ d ∈ ds, d < 10) →
      ds.foldl (fun n d => 10 * n + d) n < (n + 1) * 10 ^ ds.length := by
    intro ds
    induction ds with
    | nil => intro n _; simp
    | cons d ds ih =>
      intro n h
      obtain ⟨hd, hds⟩ := List.forall_mem_cons.mp h
      calc (d :: ds).foldl (fun n d => 10 * n + d) n
          < (10 * n + d + 1) * 10 ^ ds.length := ih _ hds
        _ ≤ ((n + 1) * 10) * 10 ^ ds.length := Nat.mul_le_mul_right _ (by omega)
        _ = (n + 1) * 10 ^ (d :: ds).length := by
          rw [List.length_cons, Nat.pow_succ', Nat.mul_assoc]
  simpa [valueOfDigits] using key ds 0 h

theorem valueOf_lt (t : Text) : valueOf t < 10 ^ t.length := by
  have digits : ∀ d ∈ t.map fun c => (digit? c).getD 0, d < 10 := by
    intro d hd
    obtain ⟨c, _, rfl⟩ := List.mem_map.mp hd
    cases hc : digit? c with
    | none => decide
    | some n => exact digit?_lt hc
  simpa [valueOf] using valueOfDigits_lt digits

/-- What is read as a number is no number below zero, and has at most 4300 digits. -/
theorem ofSpelling_bound {s : Text} {n : Numeral} (h : Numeral.ofSpelling s = .ok n) :
    (∃ k, n = .whole k ∧ k < 10 ^ Fault.digitLimit) ∨
      ∃ x, n = .decimal x ∧ x.isNegative = false := by
  unfold Numeral.ofSpelling at h
  split at h
  · obtain rfl := Except.ok.inj h
    refine .inr ⟨_, rfl, ?_⟩
    cases Decimal.read s with
    | none => rfl
    | some d => exact Binary64.isNegative_toBinary64 d
  · split at h
    · exact absurd h (by simp)
    next hs =>
      obtain rfl := Except.ok.inj h
      refine .inl ⟨_, rfl, (valueOf_lt s).trans_le ?_⟩
      exact Nat.pow_le_pow_right (by decide) (Nat.le_of_not_lt hs)

end Stepwise
