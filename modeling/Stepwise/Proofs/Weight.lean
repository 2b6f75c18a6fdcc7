import Stepwise.Proofs.Blankless

/-!
# The weight of a text

Rewriting a text without blanks goes one way: letters are heavy, glyphs and the letter X are light,
and whatever a rule puts in the place of something else is heavier than that (`Lifts`). So a rule
leaves such a text as it is or makes it heavier (`Raises`), and rules in a row leave it as it is if
and only if each of them does (`Raises.comp_eq_iff`).

Result: `replaceAll_eq_iff`, a pattern that lifts is replaced nowhere if and only if it is nowhere
read.
-/

namespace Stepwise

open Text Pattern

namespace Phrase

/-! ## Weights -/

/-- The glyphs of single signs. -/
def signGlyphs : Text := timesSigns ++ '÷' :: dashes

/-- The glyphs that are spelled out, and the brackets that become round. -/
def spelledGlyphs : Text := ['²', '³', '√', 'π', '∞', '[', ']', '\x7b', '\x7d']

/-- The characters that are not in canonical texts. -/
def glyphs : Text := signGlyphs ++ spelledGlyphs

/-- What a character weighs. An X may come to stand for a sign, so it weighs less than one. -/
def charWeight (c : Char) : Int :=
  if glyphs.contains c then -3
  else if c = 'x' ∨ c = 'X' then -2
  else if c.isAlpha then 10
  else -1

/-- What a text weighs. -/
def weight : Text → Int
  | [] => 0
  | c :: cs => charWeight c + weight cs

@[simp] theorem weight_nil : weight [] = 0 := rfl

@[simp] theorem weight_cons (c : Char) (t : Text) : weight (c :: t) = charWeight c + weight t := rfl

@[simp] theorem weight_append (s t : Text) : weight (s ++ t) = weight s + weight t := by
  induction s with
  | nil => simp
  | cons c cs ih =>
    rw [List.cons_append, weight_cons, weight_cons, ih]
    omega

theorem charWeight_le (c : Char) : charWeight c ≤ 10 := by
  unfold charWeight
  repeat' split
  all_goals omega

theorem le_charWeight (c : Char) : -3 ≤ charWeight c := by
  unfold charWeight
  repeat' split
  all_goals omega

/-! ## Rewritings that raise the weight -/

/-- A text without blanks stays so, and it stays as it is or gets heavier. -/
structure Raises (f : Text → Text) : Prop where
  blankless : ∀ {t : Text}, Blankless t → Blankless (f t)
  eq_or_lt : ∀ {t : Text}, Blankless t → f t = t ∨ weight t < weight (f t)

/-- Several rewritings in a row. -/
def inOrder (fs : List (Text → Text)) (t : Text) : Text := fs.foldl (fun t f => f t) t

variable {f g : Text → Text} {t : Text}

namespace Raises

theorem le (hf : Raises f) (ht : Blankless t) : weight t ≤ weight (f t) := by
  rcases hf.eq_or_lt ht with h | h
  · exact Int.le_of_eq (congrArg weight h.symm)
  · exact Int.le_of_lt h

/-- What is left alone by two rewritings in a row is left alone by each. -/
theorem comp_eq_iff (hf : Raises f) (hg : Raises g) (ht : Blankless t) :
    g (f t) = t ↔ f t = t ∧ g t = t := by
  constructor
  · intro h
    rcases hf.eq_or_lt ht with hft | hlt
    · rw [hft] at h
      exact ⟨hft, h⟩
    · have hle := hg.le (hf.blankless ht)
      rw [h] at hle
      exact absurd hlt (Int.not_lt.mpr hle)
  · rintro ⟨hft, hgt⟩
    rw [hft, hgt]

theorem comp (hf : Raises f) (hg : Raises g) : Raises fun t => g (f t) where
  blankless ht := hg.blankless (hf.blankless ht)
  eq_or_lt ht := by
    rcases hf.eq_or_lt ht with h | h
    · rw [h]
      exact hg.eq_or_lt ht
    · exact .inr (Int.lt_of_lt_of_le h (hg.le (hf.blankless ht)))

theorem of_eq (h : ∀ t, Blankless t → f t = t) : Raises f where
  blankless {t} ht := by rwa [h t ht]
  eq_or_lt {t} ht := .inl (h t ht)

theorem flatMap_eq_or_lt {g : Char → Text} (hg : ∀ c, g c = [c] ∨ charWeight c < weight (g c)) :
    ∀ t : Text, t.flatMap g = t ∨ weight t < weight (t.flatMap g)
  | [] => .inl rfl
  | c :: cs => by
    rw [List.flatMap_cons, weight_append, weight_cons]
    rcases flatMap_eq_or_lt hg cs with ih | ih
    · rw [ih]
      rcases hg c with h | h
      · exact .inl (by rw [h]; rfl)
      · exact .inr (by omega)
    · refine .inr ?_
      rcases hg c with h | h
      · rw [h, weight_cons, weight_nil]
        omega
      · omega

/-- Characters that are replaced by heavier ones. -/
theorem flatMap {g : Char → Text} (hb : ∀ c, isBlank c = false → Blankless (g c))
    (hg : ∀ c, g c = [c] ∨ charWeight c < weight (g c)) : Raises (List.flatMap g) where
  blankless {t} ht c hc := by
    obtain ⟨d, hd, hc⟩ := List.mem_flatMap.mp hc
    exact hb d (ht d hd) c hc
  eq_or_lt _ := flatMap_eq_or_lt hg _

theorem map {g : Char → Char} (hb : ∀ c, isBlank c = false → isBlank (g c) = false)
    (hg : ∀ c, g c = c ∨ charWeight c < charWeight (g c)) : Raises (List.map g) := by
  have h : Raises (List.flatMap fun c => [g c]) := by
    refine flatMap (fun c hc d hd => ?_) fun c => ?_
    · obtain rfl := List.mem_singleton.mp hd
      exact hb c hc
    · rcases hg c with h | h
      · exact .inl (by rw [h])
      · exact .inr (by simpa using h)
  have he : (List.flatMap fun c => [g c]) = List.map g := by
    funext t
    exact List.map_eq_flatMap.symm
  rwa [he] at h

theorem inOrder : ∀ {fs : List (Text → Text)}, (∀ f ∈ fs, Raises f) → Raises (Phrase.inOrder fs)
  | [], _ => .of_eq fun _ _ => rfl
  | f :: fs, h => by
    obtain ⟨hf, hfs⟩ := List.forall_mem_cons.mp h
    exact hf.comp (inOrder hfs)

theorem inOrder_eq_iff (ht : Blankless t) : ∀ {fs : List (Text → Text)}, (∀ f ∈ fs, Raises f) →
    (Phrase.inOrder fs t = t ↔ ∀ f ∈ fs, f t = t)
  | [], _ => ⟨fun _ _ h => absurd h List.not_mem_nil, fun _ => rfl⟩
  | f :: fs, h => by
    obtain ⟨hf, hfs⟩ := List.forall_mem_cons.mp h
    rw [List.forall_mem_cons, ← inOrder_eq_iff ht hfs]
    exact hf.comp_eq_iff (inOrder hfs) ht

end Raises

/-! ## Patterns that lift -/

/-- What is read is something, it has no blanks, and what it is replaced by is heavier. -/
def Lifts (p : Pattern Text) : Prop := ∀ {t new rest : Text}, Blankless t →
  p.best? t = some (new, rest) →
    ∃ c w, t = c :: (w ++ rest) ∧ Blankless new ∧ weight (c :: w) < weight new

/-- The pattern reads something somewhere in the text, before which `last` stands. -/
def ReadsFrom {α : Type} (p : Option Char → Pattern α) : (last : Option Char) → Text → Prop
  | _, [] => False
  | last, c :: cs => (p last).best? (c :: cs) ≠ none ∨ ReadsFrom p (some c) cs

variable {p : Option Char → Pattern Text}

theorem replaceFrom_of_not_readsFrom : ∀ {t : Text} {last : Option Char},
    ¬ReadsFrom p last t → replaceFrom p last 0 t = t
  | [], _, _ => rfl
  | c :: cs, last, h => by
    obtain ⟨hc, hcs⟩ := not_or.mp h
    rw [replaceFrom, Decidable.not_not.mp hc]
    exact congrArg (c :: ·) (replaceFrom_of_not_readsFrom hcs)

theorem blankless_replaceFrom (hp : ∀ last, Lifts (p last)) : ∀ {t : Text} {last : Option Char}
    {skip : Nat}, Blankless t → Blankless (replaceFrom p last skip t)
  | [], _, _, ht => by rwa [replaceFrom]
  | c :: cs, _, skip + 1, ht => by
    rw [replaceFrom]
    exact blankless_replaceFrom hp (Blankless.cons_iff.mp ht).2
  | c :: cs, last, 0, ht => by
    obtain ⟨hc, hcs⟩ := Blankless.cons_iff.mp ht
    rw [replaceFrom]
    split
    · exact Blankless.cons_iff.mpr ⟨hc, blankless_replaceFrom hp hcs⟩
    next new rest h =>
      obtain ⟨_, _, -, hn, -⟩ := hp last ht h
      exact Blankless.append_iff.mpr ⟨hn, blankless_replaceFrom hp hcs⟩

/-- What comes of a reading: its replacement, and the rest after it. -/
theorem replaceFrom_of_lifts (hp : ∀ last, Lifts (p last)) {c : Char} {cs new rest : Text}
    {last : Option Char} (ht : Blankless (c :: cs))
    (h : (p last).best? (c :: cs) = some (new, rest)) :
    ∃ skip, replaceFrom p last 0 (c :: cs) = new ++ replaceFrom p (some c) skip cs ∧
      weight (c :: cs) < weight new + weight (cs.drop skip) := by
  obtain ⟨d, w, he, -, hw⟩ := hp last ht h
  obtain ⟨rfl, rfl⟩ := List.cons.inj he
  refine ⟨(w ++ rest).length - rest.length, ?_, ?_⟩
  · rw [replaceFrom, h]
  · rw [List.length_append, Nat.add_sub_cancel, List.drop_left, weight_cons, weight_append]
    rw [weight_cons] at hw
    omega

theorem le_weight_replaceFrom (hp : ∀ last, Lifts (p last)) : ∀ {t : Text} (last : Option Char)
    (skip : Nat), Blankless t → weight (t.drop skip) ≤ weight (replaceFrom p last skip t)
  | [], _, _, _ => by
    exact Int.le_of_eq (by rw [replaceFrom, List.drop_nil])
  | c :: cs, _, skip + 1, ht => by
    rw [replaceFrom, List.drop_succ_cons]
    exact le_weight_replaceFrom hp _ skip (Blankless.cons_iff.mp ht).2
  | c :: cs, last, 0, ht => by
    have hcs := (Blankless.cons_iff.mp ht).2
    cases h : (p last).best? (c :: cs) with
    | none =>
      have ih := le_weight_replaceFrom hp (some c) 0 hcs
      rw [replaceFrom, h]
      simpa using ih
    | some r =>
      obtain ⟨skip, he, hlt⟩ := replaceFrom_of_lifts hp ht h
      have ih := le_weight_replaceFrom hp (some c) skip hcs
      rw [he, weight_append, List.drop_zero]
      omega

theorem lt_weight_replaceFrom (hp : ∀ last, Lifts (p last)) : ∀ {t : Text} {last : Option Char},
    Blankless t → ReadsFrom p last t → weight t < weight (replaceFrom p last 0 t)
  | c :: cs, last, ht, hr => by
    have hcs := (Blankless.cons_iff.mp ht).2
    cases h : (p last).best? (c :: cs) with
    | none =>
      have ih := lt_weight_replaceFrom hp hcs (hr.resolve_left (absurd h))
      rw [replaceFrom, h, weight_cons, weight_cons]
      omega
    | some r =>
      obtain ⟨skip, he, hlt⟩ := replaceFrom_of_lifts hp ht h
      have hle := le_weight_replaceFrom hp (some c) skip hcs
      rw [he, weight_append]
      omega

theorem raises_replaceAll (hp : ∀ last, Lifts (p last)) : Raises (replaceAll p) where
  blankless ht := blankless_replaceFrom hp ht
  eq_or_lt {t} ht := by
    by_cases h : ReadsFrom p none t
    · exact .inr (lt_weight_replaceFrom hp ht h)
    · exact .inl (replaceFrom_of_not_readsFrom h)

/-- **A pattern that lifts is replaced nowhere if and only if it is nowhere read.** -/
theorem replaceAll_eq_iff (hp : ∀ last, Lifts (p last)) (ht : Blankless t) :
    replaceAll p t = t ↔ ¬ReadsFrom p none t := by
  constructor
  · intro h hr
    have hlt : weight t < weight (replaceAll p t) := lt_weight_replaceFrom hp ht hr
    rw [h] at hlt
    exact Int.lt_irrefl _ hlt
  · exact replaceFrom_of_not_readsFrom

end Phrase

end Stepwise
