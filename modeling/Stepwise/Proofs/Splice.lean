import Stepwise.Proofs.Lexing

/-!
# Cutting a text that is put together

A text that breaks off before `r` (`Breaks r`: at the end, a blank, a comma or a closing
parenthesis) is cut as if it stood alone. Nothing that the scanner looks for goes on there:
`numberPart_append_breaks` and its siblings say so of each part of a piece.

Results: `Cuts.splice` and `Cuts.unsplice`, the tokens of a text and of what follows it are put
together and taken apart; and `Cuts.mem_of_sign_mem`, a sign among the tokens is a character of the
text, or `**` stands for it.
-/

namespace Stepwise.Token

open Text

/-- Does whatever stands in front of this text end there? -/
def Breaks (r : Text) : Prop := ∀ c, r.head? = some c → isBlank c = true ∨ c ∈ "),".toList

variable {t r : Text} {tokens toks : List Token}

theorem breaks_cons {c : Char} (h : c ∈ " ),".toList) (r : Text) : Breaks (c :: r) :=
  fun _ hc => Option.some.inj hc ▸
    forall_mem_of_all (p := fun c => isBlank c = true ∨ c ∈ "),".toList) (by decide) c h

theorem breaks_of_blanks (h : ∀ c ∈ r, isBlank c = true) : Breaks r :=
  fun c hc => .inl (h c (List.mem_of_head? hc))

namespace Breaks

/-- What is no blank, comma or closing parenthesis does not come first. -/
theorem head_ne {d : Char} (h : Breaks r) (hd : ¬(isBlank d = true ∨ d ∈ "),".toList)) (cs : Text) :
    r ≠ d :: cs := by
  rintro rfl
  exact hd (h d rfl)

theorem not_isDigit (h : Breaks r) : ∀ c, r.head? = some c → isDigit c = false := by
  intro c hc
  rcases h c hc with hb | hm
  · exact isDigit_of_isBlank hb
  · exact forall_mem_of_all (p := fun c => isDigit c = false) (by decide) c hm

theorem not_isAlphanum (h : Breaks r) : ∀ c, r.head? = some c → c.isAlphanum = false := by
  intro c hc
  rcases h c hc with hb | hm
  · exact isBlank_induction (p := fun c => c.isAlphanum = false) (by decide) hb
  · exact forall_mem_of_all (p := fun c => c.isAlphanum = false) (by decide) c hm

end Breaks

theorem takeWhile_append_breaks {p : Char → Bool} (t : Text)
    (hr : ∀ c, r.head? = some c → p c = false) : (t ++ r).takeWhile p = t.takeWhile p := by
  have none : r.takeWhile p = [] :=
    takeWhile_append_stop (w := []) (fun _ h => absurd h List.not_mem_nil) hr
  rw [List.takeWhile_append, none, List.append_nil]
  split
  next h => exact ((List.takeWhile_prefix p).eq_of_length h).symm
  next => rfl

theorem dropWhile_append_breaks {p : Char → Bool} (t : Text)
    (hr : ∀ c, r.head? = some c → p c = false) : (t ++ r).dropWhile p = t.dropWhile p ++ r := by
  have none : r.dropWhile p = r :=
    dropWhile_append_stop (w := []) (fun _ h => absurd h List.not_mem_nil) hr
  rw [List.dropWhile_append, none]
  split
  next h => rw [List.isEmpty_iff.mp h, List.nil_append]
  next => rfl

/-! ## Pieces -/

theorem mantissa_append_breaks (t : Text) (hr : Breaks r) : mantissa (t ++ r) = mantissa t := by
  have hd := hr.not_isDigit
  unfold mantissa
  rw [takeWhile_append_breaks t hd, dropWhile_append_breaks t hd]
  cases t.dropWhile isDigit with
  | nil =>
    dsimp only
    split
    next cs h => exact absurd h (hr.head_ne (by decide) cs)
    next => rfl
  | cons c cs =>
    by_cases hc : c = '.'
    · subst hc
      simp only [List.cons_append, takeWhile_append_breaks cs hd]
    · dsimp only [List.cons_append]
      split
      next heq => exact absurd (List.cons.inj heq).1 hc
      next =>
        split
        next heq => exact absurd (List.cons.inj heq).1 hc
        next => rfl

theorem exponentPart_append_breaks (t : Text) (hr : Breaks r) :
    exponentPart (t ++ r) = exponentPart t := by
  have hd := hr.not_isDigit
  have none : ∀ c cs, r = c :: cs → isDigit c = false := fun c cs h => hd c (by rw [h]; rfl)
  cases t with
  | nil =>
    cases r with
    | nil => rfl
    | cons c cs =>
      have he : ¬(c = 'e' ∨ c = 'E') := by
        rintro (rfl | rfl)
        · exact hr.head_ne (by decide) cs rfl
        · exact hr.head_ne (by decide) cs rfl
      simp [exponentPart, he]
  | cons e cs =>
    cases cs with
    | nil =>
      cases r with
      | nil => rfl
      | cons c cs =>
        have hs : ¬(c = '+' ∨ c = '-') := by
          rintro (rfl | rfl)
          · exact hr.head_ne (by decide) cs rfl
          · exact hr.head_ne (by decide) cs rfl
        simp [exponentPart, hs, none c cs rfl]
    | cons s ds =>
      simp only [List.cons_append, exponentPart]
      rw [takeWhile_append_breaks ds hd, ← List.cons_append, takeWhile_append_breaks (s :: ds) hd]

theorem numberPart_append_breaks (t : Text) (hr : Breaks r) :
    numberPart (t ++ r) = numberPart t := by
  unfold numberPart
  dsimp only
  have hle := List.IsPrefix.length_le <| mantissa_prefix t
  rw [mantissa_append_breaks t hr, List.drop_append_of_le_length hle,
    exponentPart_append_breaks _ hr]

theorem namePart_append_breaks (t : Text) (hr : Breaks r) : namePart (t ++ r) = namePart t := by
  have hn := hr.not_isAlphanum
  cases t with
  | nil =>
    cases r with
    | nil => rfl
    | cons c cs =>
      have := hn c rfl
      rw [Char.isAlphanum, Bool.or_eq_false_iff] at this
      simp [namePart, this.1]
  | cons c cs => rw [List.cons_append, namePart, namePart, takeWhile_append_breaks cs hn]

theorem signPart_cons {c : Char} {cs : Text} (h : ¬(c = '*' ∧ cs.head? = some '*')) :
    signPart (c :: cs) = if signs.contains c then some ([c], c) else none := by
  unfold signPart
  split
  next heq =>
    obtain ⟨rfl, rfl⟩ := List.cons.inj heq
    exact absurd ⟨rfl, rfl⟩ h
  next heq =>
    obtain ⟨rfl, rfl⟩ := List.cons.inj heq
    rfl
  next heq => exact absurd heq (List.cons_ne_nil _ _)

theorem signPart_append_breaks (ht : t ≠ []) (hr : Breaks r) : signPart (t ++ r) = signPart t := by
  cases t with
  | nil => exact absurd rfl ht
  | cons c cs =>
    by_cases hs : c = '*' ∧ cs.head? = some '*'
    · obtain ⟨rfl, hs⟩ := hs
      obtain ⟨ds, rfl⟩ := List.head?_eq_some_iff.mp hs
      rfl
    · have hs' : ¬(c = '*' ∧ (cs ++ r).head? = some '*') := by
        rintro ⟨rfl, h⟩
        cases cs with
        | nil =>
          obtain ⟨ds, rfl⟩ := List.head?_eq_some_iff.mp h
          exact hr.head_ne (by decide) ds rfl
        | cons d ds => exact hs ⟨rfl, h⟩
      rw [List.cons_append, signPart_cons hs', signPart_cons hs]

theorem ne_nil_of_lexeme? {l : Lexeme} (h : lexeme? t = some l) : t ≠ [] := by
  rintro rfl
  exact absurd (lexeme?_ne_nil h) (by simpa using lexeme?_append h)

/-- **A token is found at the front of a text whether the text goes on after a break or ends there.** -/
theorem lexeme?_append_breaks {w : Text} {tok : Token} (ht : t ≠ []) (hr : Breaks r) :
    lexeme? (t ++ r) = some ⟨w, some tok⟩ ↔ lexeme? t = some ⟨w, some tok⟩ := by
  unfold lexeme?
  rw [numberPart_append_breaks t hr, namePart_append_breaks t hr, signPart_append_breaks ht hr]
  dsimp only
  split
  · rfl
  · split
    · rfl
    · split
      · rfl
      · -- A run of blanks is no token, and only such a run could go on.
        split <;> split <;> simp

/-- The pieces that are no number and no name are signs and runs of blanks. -/
theorem lexeme?_cases {l : Lexeme} (h : lexeme? t = some l) :
    (∃ s, l.token = some (.number s)) ∨ (∃ s, l.token = some (.name s)) ∨
      (∃ w c, signPart t = some (w, c) ∧ l = ⟨w, some (.sign c)⟩) ∨
      l = ⟨t.takeWhile isBlank, none⟩ := by
  unfold lexeme? at h
  dsimp only at h
  split at h
  next => exact .inl ⟨_, congrArg Lexeme.token (Option.some.inj h).symm⟩
  next =>
    split at h
    next => exact .inr (.inl ⟨_, congrArg Lexeme.token (Option.some.inj h).symm⟩)
    next =>
      split at h
      next hs => exact .inr (.inr (.inl ⟨_, _, hs, (Option.some.inj h).symm⟩))
      next =>
        split at h
        next => exact absurd h (by simp)
        next => exact .inr (.inr (.inr (Option.some.inj h).symm))

theorem isBlank_of_lexeme? {w : Text} (h : lexeme? t = some ⟨w, none⟩) :
    ∀ c ∈ w, isBlank c = true := by
  rcases lexeme?_cases h with ⟨s, hl⟩ | ⟨s, hl⟩ | ⟨_, c, _, hl⟩ | hl
  · exact absurd hl (by simp)
  · exact absurd hl (by simp)
  · exact absurd hl (by simp)
  · obtain ⟨rfl, -⟩ := Lexeme.mk.inj hl
    exact fun c hc => of_mem_takeWhile hc

theorem signPart_of_lexeme? {w : Text} {c : Char} (h : lexeme? t = some ⟨w, some (.sign c)⟩) :
    signPart t = some (w, c) := by
  rcases lexeme?_cases h with ⟨s, hl⟩ | ⟨s, hl⟩ | ⟨w, c, hs, hl⟩ | hl
  · exact absurd hl (by simp)
  · exact absurd hl (by simp)
  · cases hl
    exact hs
  · exact absurd hl (by simp)

/-! ## Texts -/

theorem Cuts.blanks {b : Text} (hb : ∀ c ∈ b, isBlank c = true) (h : Cuts r toks) :
    Cuts (b ++ r) toks := by
  induction b with
  | nil => exact h
  | cons c cs ih =>
    obtain ⟨hc, hcs⟩ := List.forall_mem_cons.mp hb
    exact .blank hc (ih hcs)

/-- **A text and what follows it after a break are cut one by one.** -/
theorem Cuts.splice (h : Cuts t tokens) (hr : Breaks r) (hc : Cuts r toks) :
    Cuts (t ++ r) (tokens ++ toks) := by
  induction h with
  | nil => exact hc
  | @cons t l tokens hl _ ih =>
    have ht : l.written ++ (t.drop l.written.length ++ r) = t ++ r := by
      rw [← List.append_assoc, lexeme?_append hl]
    obtain ⟨w, _ | tok⟩ := l
    · -- These blanks may run on into `r`, so that their piece need not be the same.
      rw [← ht]
      exact .blanks (isBlank_of_lexeme? hl) ih
    · have hl' := (lexeme?_append_breaks (ne_nil_of_lexeme? hl) hr).mpr hl
      rw [← ht] at hl' ⊢
      exact .append hl' ih

/-- **What was cut before a break is cut there when the text is taken apart.** -/
theorem Cuts.unsplice (h : Cuts (t ++ r) tokens) (hr : Breaks r) :
    ∃ ts us, tokens = ts ++ us ∧ Cuts t ts ∧ Cuts r us := by
  generalize hx : t ++ r = x at h
  induction h generalizing t with
  | nil =>
    obtain ⟨rfl, rfl⟩ := List.append_eq_nil_iff.mp hx
    exact ⟨[], [], rfl, .nil, .nil⟩
  | @cons x l tokens hl hc ih =>
    by_cases ht : t = []
    · subst ht
      obtain rfl : r = x := hx
      exact ⟨[], _, rfl, .nil, .cons hl hc⟩
    have happ := lexeme?_append hl
    obtain ⟨w, _ | tok⟩ := l
    · have hb := isBlank_of_lexeme? hl
      rcases List.append_eq_append_iff.mp (hx.trans happ.symm) with ⟨v, hv, hrest⟩ | ⟨v, rfl, hrest⟩
      · -- The blanks run on into `r`.
        obtain rfl : w = t ++ v := hv
        obtain ⟨hbt, hbv⟩ := List.forall_mem_append.mp hb
        refine ⟨[], tokens, rfl, ?_, ?_⟩
        · have := Cuts.blanks hbt .nil
          rwa [List.append_nil] at this
        · rw [hrest]
          exact .blanks hbv hc
      · obtain ⟨ts, us, rfl, hts, hus⟩ := ih hrest.symm
        exact ⟨ts, us, rfl, .blanks hb hts, hus⟩
    · rw [← hx, lexeme?_append_breaks ht hr] at hl
      have hw := lexeme?_append hl
      have hrest : t.drop w.length ++ r = x.drop w.length := by
        rw [← hw, List.append_assoc] at hx
        exact List.append_cancel_left (hx.trans happ.symm)
      obtain ⟨ts, us, rfl, hts, hus⟩ := ih hrest
      exact ⟨tok :: ts, us, rfl, .cons hl hts, hus⟩

theorem signPart_eq_some {w : Text} {c : Char} (h : signPart t = some (w, c)) :
    c ∈ w ∨ c = '^' ∧ '*' ∈ w := by
  unfold signPart at h
  split at h
  · obtain ⟨rfl, rfl⟩ := Prod.mk.inj (Option.some.inj h)
    exact .inr ⟨rfl, List.mem_cons_self⟩
  · split at h
    · obtain ⟨rfl, rfl⟩ := Prod.mk.inj (Option.some.inj h)
      exact .inl List.mem_cons_self
    · exact absurd h (by simp)
  · exact absurd h (by simp)

/-- **A sign among the tokens stands in the text**, or `**` does for a `^`. -/
theorem Cuts.mem_of_sign_mem {c : Char} (h : Cuts t tokens) (hc : .sign c ∈ tokens) :
    c ∈ t ∨ c = '^' ∧ '*' ∈ t := by
  induction h with
  | nil => exact absurd hc List.not_mem_nil
  | @cons t l tokens hl _ ih =>
    rw [← lexeme?_append hl]
    rcases List.mem_append.mp hc with hc | hc
    · obtain ⟨w, _ | tok⟩ := l
      · exact absurd hc List.not_mem_nil
      · obtain rfl := List.mem_singleton.mp hc
        rcases signPart_eq_some (signPart_of_lexeme? hl) with h | ⟨rfl, h⟩
        · exact .inl (List.mem_append_left _ h)
        · exact .inr ⟨rfl, List.mem_append_left _ h⟩
    · rcases ih hc with h | ⟨rfl, h⟩
      · exact .inl (List.mem_append_right _ h)
      · exact .inr ⟨rfl, List.mem_append_right _ h⟩

end Stepwise.Token
