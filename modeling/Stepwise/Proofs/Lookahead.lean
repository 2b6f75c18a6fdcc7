import Stepwise.Proofs.Splice

/-!
# How far a token looks ahead

A name and the digits of a number end before the first character that does not go on with them, so
that a change further on does not matter. Only an exponent needs more: behind `2` the scanner looks
at `e`, at a sign and at a digit before it knows. `numberPart_ahead` keeps the two apart: when the
next character stays the same, a number stays the same, except for an exponent that comes into
being.

Results: `numberPart_ahead`; and `exponentPart_eq_nil`, the texts behind an `e` that make no
exponent.
-/

namespace Stepwise.Token

open Text

/-- Does the spelling of a number have an exponent? -/
def hasExponent (n : Text) : Bool := n.any fun c => c == 'e' || c == 'E'

variable {n m r x : Text}

theorem hasExponent_append (s t : Text) : hasExponent (s ++ t) = (hasExponent s || hasExponent t) :=
  List.any_append

/-! ## Runs of characters -/

/-- A run that ends where it does is not gone on with. -/
theorem head_of_takeWhile_append {p : Char → Bool} {w : Text} (hw : ∀ c ∈ w, p c = true)
    (h : (w ++ r).takeWhile p = w) {c : Char} (hc : r.head? = some c) : p c = false := by
  obtain ⟨cs, rfl⟩ := List.head?_eq_some_iff.mp hc
  rw [List.takeWhile_append_of_pos hw] at h
  have hnil := List.append_right_eq_self.mp h
  rw [List.takeWhile_cons] at hnil
  cases hp : p c with
  | false => rfl
  | true =>
    rw [hp, if_pos rfl] at hnil
    exact absurd hnil (List.cons_ne_nil _ _)

/-- **A name ends at the first character behind it.** -/
theorem endsName_of_namePart (hn : n ≠ []) (h : namePart (n ++ r) = n) : endsName r = true := by
  cases n with
  | nil => exact absurd rfl hn
  | cons c cs =>
    rw [List.cons_append] at h
    have hc : c.isAlpha = true := isAlpha_head_of_namePart (h ▸ List.cons_ne_nil c cs)
    rw [namePart, if_pos hc] at h
    have h := (List.cons.inj h).2
    have hw : ∀ d ∈ cs, d.isAlphanum = true := fun d hd => of_mem_takeWhile (h.symm ▸ hd)
    cases r with
    | nil => rfl
    | cons d ds =>
      have := head_of_takeWhile_append hw h rfl
      simp [endsName, this]

/-! ## The mantissa -/

theorem isDigit_exponentMark : isDigit 'e' = false ∧ isDigit 'E' = false := by decide

/-- There is no exponent in a mantissa. -/
theorem hasExponent_mantissa (t : Text) : hasExponent (mantissa t) = false := by
  have digits : ∀ w, AllDigits w → hasExponent w = false := by
    intro w hw
    refine List.any_eq_false.mpr fun c hc => ?_
    have hd := hw c hc
    have := isDigit_exponentMark
    rw [Bool.or_eq_true, beq_iff_eq, beq_iff_eq]
    rintro (rfl | rfl)
    · rw [this.1] at hd
      exact absurd hd Bool.false_ne_true
    · rw [this.2] at hd
      exact absurd hd Bool.false_ne_true
  rcases mantissa_cases t with h | ⟨w, f, hw, hf, _, h⟩
  · exact digits _ h
  · rw [h, hasExponent_append, digits w hw]
    have hp : hasExponent ('.' :: f) = hasExponent f := rfl
    rw [hp, digits f hf]
    rfl

theorem takeWhile_prefix_mantissa (t : Text) : t.takeWhile isDigit <+: mantissa t := by
  unfold mantissa
  dsimp only
  split
  · split
    next hempty =>
      rw [Bool.and_eq_true, List.isEmpty_iff] at hempty
      exact hempty.1 ▸ List.nil_prefix
    next => exact List.prefix_append _ _
  · exact List.prefix_refl _

/-- The digits behind a point go on as long as they can. -/
theorem mantissa_point_append {w f : Text} (hw : AllDigits w) (hf : AllDigits f)
    (hne : (w.isEmpty && f.isEmpty) = false) (r : Text) :
    mantissa (w ++ '.' :: (f ++ r)) = w ++ '.' :: (f ++ r).takeWhile isDigit := by
  have hmore : (w.isEmpty && ((f ++ r).takeWhile isDigit).isEmpty) = false := by
    rw [List.takeWhile_append_of_pos hf]
    cases w <;> cases f <;> simp_all
  have hp := mantissa_point hw (allDigits_takeWhile (f ++ r)) hmore (head_of_dropWhile (f ++ r))
  rwa [List.takeWhile_append_dropWhile] at hp

/-- What stops a mantissa stops it again. -/
theorem mantissa_ahead (hm : m ≠ []) (h : mantissa (m ++ r) = m) (hx : x.head? = r.head?) :
    mantissa (m ++ x) = m := by
  have hcases := mantissa_cases (m ++ r)
  rw [h] at hcases
  rcases hcases with hd | ⟨w, f, hw, hf, hne, rfl⟩
  · have htake : (m ++ r).takeWhile isDigit = m := by
      have hpre := h ▸ takeWhile_prefix_mantissa (m ++ r)
      rw [List.takeWhile_append_of_pos hd] at hpre ⊢
      exact hpre.eq_of_length_le (by simp)
    refine mantissa_digits hd fun c hc => ⟨head_of_takeWhile_append hd htake (hx ▸ hc), ?_⟩
    -- A point would belong to the mantissa.
    rintro rfl
    obtain ⟨cs, rfl⟩ := List.head?_eq_some_iff.mp (hx ▸ hc)
    have hp := mantissa_point (f := cs.takeWhile isDigit) hd (allDigits_takeWhile cs) (by simp [hm])
      (head_of_dropWhile cs)
    rw [List.takeWhile_append_dropWhile, h] at hp
    simpa using congrArg List.length hp
  · rw [List.append_assoc, List.cons_append] at h ⊢
    have hp := mantissa_point_append hw hf hne r
    rw [h] at hp
    have hp := (List.cons.inj (List.append_cancel_left hp)).2
    exact mantissa_point hw hf hne fun c hc => head_of_takeWhile_append hf hp.symm (hx ▸ hc)

/-! ## The exponent -/

/-- The digits of an exponent go on as long as they can. -/
theorem exponentPart_digits {e : Char} {sgn ds : Text} (he : e = 'e' ∨ e = 'E')
    (hs : sgn = [] ∨ sgn = ['+'] ∨ sgn = ['-']) (hne : ds ≠ []) (hd : AllDigits ds) (r : Text) :
    exponentPart (e :: sgn ++ (ds ++ r)) = e :: sgn ++ (ds ++ r).takeWhile isDigit := by
  have hmore : (ds ++ r).takeWhile isDigit ≠ [] := by
    rw [List.takeWhile_append_of_pos hd]
    exact List.append_ne_nil_of_left_ne_nil hne _
  have hall := allDigits_takeWhile (ds ++ r)
  have hend := head_of_dropWhile (p := isDigit) (ds ++ r)
  rcases hs with rfl | rfl | rfl
  · have hp := exponentPart_bare he hmore hall hend
    rwa [List.takeWhile_append_dropWhile] at hp
  · have hp := exponentPart_signed he (.inl rfl) hmore hall hend
    rwa [List.takeWhile_append_dropWhile] at hp
  · have hp := exponentPart_signed he (.inr rfl) hmore hall hend
    rwa [List.takeWhile_append_dropWhile] at hp

/-- What stops an exponent stops it again. -/
theorem exponentPart_ahead (hm : m ≠ []) (h : exponentPart (m ++ r) = m)
    (hx : x.head? = r.head?) : exponentPart (m ++ x) = m := by
  have hcases := exponentPart_cases (m ++ r)
  rw [h] at hcases
  obtain ⟨e, sgn, ds, he, hs, hne, hd, rfl⟩ := hcases.resolve_left hm
  have stop : ∀ c, r.head? = some c → isDigit c = false := by
    have hp := exponentPart_digits he hs hne hd r
    rw [← List.append_assoc, h] at hp
    exact fun c hc => head_of_takeWhile_append hd (List.append_cancel_left hp).symm hc
  have stop' : ∀ c, x.head? = some c → isDigit c = false := fun c hc => stop c (hx ▸ hc)
  rcases hs with rfl | rfl | rfl
  · exact exponentPart_bare he hne hd stop'
  · exact exponentPart_signed he (.inl rfl) hne hd stop'
  · exact exponentPart_signed he (.inr rfl) hne hd stop'

/-- Behind an `e` there is no exponent unless digits follow, perhaps after one sign. -/
theorem exponentPart_eq_nil {e : Char} (he : e = 'e' ∨ e = 'E') :
    exponentPart (e :: x) = [] ↔ (∀ c, x.head? = some c → isDigit c = false) ∧
      ∀ s y, x = s :: y → s = '+' ∨ s = '-' → ∀ d, y.head? = some d → isDigit d = false := by
  have take : ∀ y : Text, (y.takeWhile isDigit).isEmpty = true ↔
      ∀ d, y.head? = some d → isDigit d = false := by
    intro y
    cases y with
    | nil => simp
    | cons d ds => by_cases hd : isDigit d = true <;> simp [hd]
  have sign : isDigit '+' = false ∧ isDigit '-' = false := by decide
  unfold exponentPart
  dsimp only
  rw [if_pos he]
  cases x with
  | nil => simp
  | cons s y =>
    dsimp only
    by_cases hs : s = '+' ∨ s = '-'
    · have hsd : isDigit s = false := by
        rcases hs with rfl | rfl
        · exact sign.1
        · exact sign.2
      rw [if_pos hs]
      constructor
      · intro h
        split at h
        next hempty =>
          refine ⟨fun c hc => Option.some.inj hc ▸ hsd, fun s' y' hsy _ => ?_⟩
          obtain ⟨rfl, rfl⟩ := List.cons.inj hsy
          exact (take _).mp hempty
        next => exact absurd h (List.cons_ne_nil _ _)
      · intro h
        rw [if_pos ((take y).mpr (h.2 s y rfl hs))]
    · rw [if_neg hs]
      constructor
      · intro h
        split at h
        next hempty =>
          refine ⟨(take _).mp hempty, fun s' y' hsy hs' => ?_⟩
          obtain ⟨rfl, rfl⟩ := List.cons.inj hsy
          exact absurd hs' hs
        next => exact absurd h (List.cons_ne_nil _ _)
      · intro h
        rw [if_pos ((take _).mpr h.1)]

/-! ## The number -/

theorem numberPart_of_mantissa {t : Text} (h : mantissa t = m) (hm : m ≠ []) :
    numberPart t = m ++ exponentPart (t.drop m.length) := by
  unfold numberPart
  dsimp only
  rw [h, if_neg (by simpa using hm)]

/-- The mantissa and the exponent of a number that is followed by `r`. -/
theorem exists_mantissa (hn : n ≠ []) (h : numberPart (n ++ r) = n) :
    ∃ m ex, n = m ++ ex ∧ m ≠ [] ∧ mantissa (m ++ (ex ++ r)) = m ∧ exponentPart (ex ++ r) = ex := by
  have hm : mantissa (n ++ r) ≠ [] := by
    intro hm
    rw [numberPart, hm] at h
    exact hn h.symm
  rw [numberPart_of_mantissa rfl hm] at h
  refine ⟨mantissa (n ++ r), exponentPart ((n ++ r).drop (mantissa (n ++ r)).length), h.symm, hm,
    ?_, ?_⟩
  · rw [← List.append_assoc, h]
  · have hdrop := congrArg (List.drop (mantissa (n ++ r)).length) (congrArg (· ++ r) h)
    rw [List.append_assoc, List.drop_left] at hdrop
    rw [hdrop]

/-- There is an exponent in what is read as one. -/
theorem hasExponent_exponentPart {t : Text} (h : exponentPart t ≠ []) :
    hasExponent (exponentPart t) = true := by
  obtain ⟨e, sgn, ds, he, -, -, -, ht⟩ := (exponentPart_cases t).resolve_left h
  rw [ht]
  rcases he with rfl | rfl <;> rfl

/-- **A number looks one character ahead**, unless an exponent begins there: in front of two texts
with the same first character it is the same, but for an exponent that it did not have. -/
theorem numberPart_ahead (hn : n ≠ []) (h : numberPart (n ++ r) = n) (hx : x.head? = r.head?) :
    numberPart (n ++ x) = n ++ (if hasExponent n then [] else exponentPart x) := by
  obtain ⟨m, ex, rfl, hm, hmr, her⟩ := exists_mantissa hn h
  have head : (ex ++ x).head? = (ex ++ r).head? := by
    rw [List.head?_append, List.head?_append, hx]
  have hnum := numberPart_of_mantissa (mantissa_ahead hm hmr head) hm
  have hmx : hasExponent m = false := hmr ▸ hasExponent_mantissa _
  rw [List.drop_left] at hnum
  rw [List.append_assoc, hnum, List.append_assoc, hasExponent_append, hmx, Bool.false_or]
  by_cases hex : ex = []
  · subst hex
    rfl
  · have hexp : hasExponent ex = true := her ▸ hasExponent_exponentPart (by rw [her]; exact hex)
    rw [exponentPart_ahead hex her hx, hexp, if_pos rfl, List.append_nil]

/-- Behind a number without an exponent there is none to be read. -/
theorem exponentPart_of_numberPart (hn : n ≠ []) (h : numberPart (n ++ r) = n)
    (he : hasExponent n = false) : exponentPart r = [] := by
  have := numberPart_ahead hn h rfl
  rw [h, he, if_neg Bool.false_ne_true] at this
  exact List.append_right_eq_self.mp this.symm

end Stepwise.Token
