import Stepwise.Proofs.Forms

/-!
# Operators in the brackets of other operators

The rule for derivatives turns an operator `d/dV` in front of a bracket into a call, and does not look
into the brackets again. So on a well-nested text it leaves such an operator behind if and only if one
stood in the brackets of another: `d/dx(d/dx(x))` becomes `diff(d/dx(x),x)`. Nothing else is left, and
no new operator arises where a call meets the text around it.

Results: `wraps_wrappedDerivatives`, what becomes of a well-nested text; `nowhere_append_call`, a call
brings no new operator; and `nowhere_wrappedHead_derivatives`, when no operator is left.
-/

namespace Stepwise.Phrase

open Text Pattern Stepwise.Bracket

/-- An operator with brackets has another operator with a bracket in them. -/
def OperatorInBody (t : Text) : Prop :=
  ∃ s x opener rest body after, s <:+ t ∧ wrappedHead.best? s = some ((x, opener), rest) ∧
    cutAtClosing opener rest = some (body, after) ∧ ¬Nowhere wrappedHead body

variable {b c o x : Char} {body e h r s t u w : Text}

/-! ## The text of an operator -/

/-- The operator `d/dV` as it is written in front of a bracket. -/
inductive Operator : Text → Char → Prop where
  | intro {d d' x : Char} {w₁ w₂ w₃ w₄ : Text} (hd : sameLetter 'd' d = true)
    (h₁ : allBlank w₁ = true) (h₂ : allBlank w₂ = true) (hd' : sameLetter 'd' d' = true)
    (h₃ : allBlank w₃ = true) (hx : isAnyCaseLetter x = true) (h₄ : allBlank w₄ = true) :
    Operator (d :: (w₁ ++ '/' :: (w₂ ++ d' :: (w₃ ++ x :: w₄)))) x

theorem mem_wrappedHead_iff : ((x, o), r) ∈ wrappedHead t ↔
    ∃ h, Operator h x ∧ (closer? o).isSome = true ∧ t = h ++ o :: r := by
  simp only [wrappedHead, derivativeOperator, mem_bind, mem_blanks_iff, mem_literal, mem_pure,
    mem_word_singleton, mem_one]
  constructor
  · rintro ⟨y, _, ⟨_, _, ⟨d, rfl, hd⟩, w₁, _, ⟨rfl, h₁⟩, _, _, rfl, w₂, _, ⟨rfl, h₂⟩, _, _,
      ⟨d', rfl, hd'⟩, w₃, _, ⟨rfl, h₃⟩, rfl, hy⟩, w₄, _, ⟨rfl, h₄⟩, p, _, ⟨rfl, hp⟩, heq, rfl⟩
    obtain ⟨rfl, rfl⟩ := Prod.mk.inj heq
    exact ⟨_, .intro hd h₁ h₂ hd' h₃ hy h₄, hp, by simp⟩
  · rintro ⟨_, ⟨hd, h₁, h₂, hd', h₃, hx, h₄⟩, ho, rfl⟩
    simp only [List.append_assoc, List.cons_append]
    exact ⟨x, _, ⟨(), _, ⟨_, rfl, hd⟩, _, _, ⟨rfl, h₁⟩, (), _, rfl, _, _, ⟨rfl, h₂⟩, (), _,
      ⟨_, rfl, hd'⟩, _, _, ⟨rfl, h₃⟩, rfl, hx⟩, _, _, ⟨rfl, h₄⟩, o, r, ⟨rfl, ho⟩, rfl, rfl⟩

/-- The text in front of the first character that is not of a kind, and what follows, are unique. -/
theorem append_cons_inj {ok : Char → Bool} (hb : ok b = false) (hc : ok c = false) : ∀ {s t : Text},
    (∀ d ∈ s, ok d = true) → (∀ d ∈ t, ok d = true) → s ++ b :: r = t ++ c :: u → s = t ∧ b = c ∧ r = u
  | [], [], _, _, h => ⟨rfl, List.cons.inj h⟩
  | [], d :: t, _, ht, h => by
    rw [(List.cons.inj h).1, ht d List.mem_cons_self] at hb
    exact Bool.noConfusion hb
  | d :: s, [], hs, _, h => by
    rw [← (List.cons.inj h).1, hs d List.mem_cons_self] at hc
    exact Bool.noConfusion hc
  | d :: s, e :: t, hs, ht, h => by
    obtain ⟨rfl, htail⟩ := List.cons.inj h
    obtain ⟨rfl, hrest⟩ := append_cons_inj hb hc (List.forall_mem_cons.mp hs).2
      (List.forall_mem_cons.mp ht).2 htail
    exact ⟨rfl, hrest⟩

theorem isKeywordChar_of_opener (h : (closer? o).isSome = true) : isKeywordChar o = false := by
  obtain ⟨c, hc⟩ := Option.isSome_iff_exists.mp h
  rcases closer?_cases hc with ⟨rfl, -⟩ | ⟨rfl, -⟩ | ⟨rfl, -⟩ <;> decide

theorem isKeywordChar_of_isCloser (h : isCloser c = true) : isKeywordChar c = false := by
  simp only [isCloser, Bool.or_eq_true, beq_iff_eq] at h
  rcases h with (rfl | rfl) | rfl <;> decide

namespace Operator

theorem chars (h : Operator t x) : ∀ c ∈ t, isKeywordChar c = true := by
  have letter : ∀ {c}, isAnyCaseLetter c = true → isKeywordChar c = true := fun hc => by
    simp [isKeywordChar, hc]
  have blank : ∀ {w : Text}, allBlank w = true → ∀ c ∈ w, isKeywordChar c = true := by
    intro w hw c hc
    simp [isKeywordChar, List.all_eq_true.mp hw c hc]
  obtain ⟨hd, h₁, h₂, hd', h₃, hx, h₄⟩ := h
  simp only [List.forall_mem_cons, List.forall_mem_append]
  exact ⟨letter (isAnyCaseLetter_of_sameLetter (by decide) hd), blank h₁, by decide, blank h₂,
    letter (isAnyCaseLetter_of_sameLetter (by decide) hd'), blank h₃, letter hx, blank h₄⟩

theorem head (h : Operator t x) : ∃ d ds, t = d :: ds ∧ isAnyCaseLetter d = true := by
  obtain ⟨hd, -, -, -, -, -, -⟩ := h
  exact ⟨_, _, rfl, isAnyCaseLetter_of_sameLetter (by decide) hd⟩

theorem letter (h : Operator t x) : isAnyCaseLetter x = true := by
  obtain ⟨-, -, -, -, -, hx, -⟩ := h
  exact hx

theorem slash_mem (h : Operator t x) : '/' ∈ t := by
  obtain ⟨-, -, -, -, -, -, -⟩ := h
  simp

/-- No operator starts in another one: it would have to have a slash of its own. -/
theorem eq_of_suffix (hs : Operator s b) (ht : Operator t x) (h : s <:+ t) : s = t := by
  have letter : ∀ {c : Char} {cs : Text}, s = c :: cs → isAnyCaseLetter c = true := by
    intro c cs hc
    obtain ⟨d, ds, hd, hletter⟩ := hs.head
    rwa [(List.cons.inj (hc.symm.trans hd)).1]
  have none : ∀ {w : Text}, allBlank w = true → '/' ∉ w := fun hw hm =>
    absurd (List.all_eq_true.mp hw _ hm) (by decide)
  obtain @⟨d, d', x, w₁, w₂, w₃, w₄, -, h₁, h₂, hd', h₃, hx, h₄⟩ := ht
  have hrest : '/' ∉ w₂ ++ d' :: (w₃ ++ x :: w₄) := by
    have hd : '/' ≠ d' := by
      rintro rfl
      exact absurd hd' (by decide)
    have hx' : '/' ≠ x := by
      rintro rfl
      exact absurd hx (by decide)
    simp [none h₂, none h₃, none h₄, hd, hx']
  rcases List.suffix_cons_iff.mp h with rfl | h
  · rfl
  rcases List.suffix_or_suffix_of_suffix h (List.suffix_append w₁ _) with h | ⟨z, rfl⟩
  · rcases List.suffix_cons_iff.mp h with rfl | h
    · exact absurd (letter rfl) (by decide)
    · exact absurd (h.subset hs.slash_mem) hrest
  · cases z with
    | nil => exact absurd (letter rfl) (by decide)
    | cons c z =>
      obtain ⟨y, hy⟩ := h
      rw [← List.append_assoc] at hy
      have hc : c ∈ w₁ := by
        rw [← List.append_cancel_right hy]
        simp
      have hblank := List.all_eq_true.mp h₁ c hc
      have := letter rfl
      rw [isAnyCaseLetter_of_isBlank hblank] at this
      exact Bool.noConfusion this

/-- In front of the variable comes a D, perhaps with blanks between. -/
theorem ne_double (h : Operator t x) (s : Text) : t ≠ s ++ ['f', 'f'] := by
  -- A text of blanks does not end in a letter.
  have last : ∀ {w u v : Text} {c : Char}, allBlank w = true → u ++ w = v ++ [c] →
      isBlank c = false → w = [] ∧ u = v ++ [c] := by
    intro w u v c hw he hc
    rcases List.eq_nil_or_concat w with rfl | ⟨y, e, rfl⟩
    · exact ⟨rfl, by simpa using he⟩
    · rw [List.concat_eq_append, ← List.append_assoc] at he
      have he := (List.append_inj' he rfl).2
      rw [← (List.cons.inj he).1, List.all_eq_true.mp hw e (by simp)] at hc
      exact Bool.noConfusion hc
  obtain @⟨d, d', x, w₁, w₂, w₃, w₄, -, -, -, hd', h₃, -, h₄⟩ := h
  intro he
  have hend : (d :: (w₁ ++ '/' :: (w₂ ++ d' :: (w₃ ++ [x])))) ++ w₄ = (s ++ ['f']) ++ ['f'] := by
    simpa using he
  have hvariable : ((d :: (w₁ ++ '/' :: (w₂ ++ [d']))) ++ w₃) ++ [x] = (s ++ ['f']) ++ ['f'] := by
    simpa using (last h₄ hend (by decide)).2
  have hletter := (last h₃ (List.append_inj' hvariable rfl).1 (by decide)).2
  have hf : (d :: (w₁ ++ '/' :: w₂)) ++ [d'] = s ++ ['f'] := by simpa using hletter
  rw [(List.cons.inj (List.append_inj' hf rfl).2).1] at hd'
  exact absurd hd' (by decide)

end Operator

/-! ## Where two texts meet -/

/-- An operator in two texts is in the first one, or goes over into the second one. -/
theorem wrappedHead_append_eq_nil (hs : wrappedHead s = [])
    (h : ∀ a o r x, Operator (s ++ a) x → (closer? o).isSome = true → t ≠ a ++ o :: r) :
    wrappedHead (s ++ t) = [] := by
  refine List.eq_nil_iff_forall_not_mem.mpr ?_
  rintro ⟨⟨x, o⟩, r⟩ hread
  obtain ⟨u, hu, ho, heq⟩ := mem_wrappedHead_iff.mp hread
  rcases List.append_eq_append_iff.mp heq with ⟨a, rfl, ht⟩ | ⟨a, rfl, ht⟩
  · exact h a o r x hu ho ht
  · cases a with
    | nil => exact h [] o r x (by simpa using hu) ho (by simpa using ht.symm)
    | cons d a =>
      obtain ⟨rfl, -⟩ := List.cons.inj ht
      have hmem : ((x, o), a) ∈ wrappedHead (u ++ o :: a) := mem_wrappedHead_iff.mpr ⟨u, hu, ho, rfl⟩
      rw [hs] at hmem
      exact List.not_mem_nil hmem

/-- No operator goes over a character that is part of none. -/
theorem wrappedHead_append_cons (hs : wrappedHead s = []) (hc : isKeywordChar c = false)
    (ho : closer? c = none) (t : Text) : wrappedHead (s ++ c :: t) = [] := by
  refine wrappedHead_append_eq_nil hs fun a o r x hop hopen heq => ?_
  cases a with
  | nil =>
    rw [← (List.cons.inj heq).1, ho] at hopen
    exact Bool.noConfusion hopen
  | cons d a =>
    have hd := hop.chars d (by simp)
    rw [← (List.cons.inj heq).1, hc] at hd
    exact Bool.noConfusion hd

/-- No operator goes over into the name of a call, whose letters are no operator. -/
theorem wrappedHead_append_name (hs : wrappedHead s = []) (r : Text) :
    wrappedHead (s ++ (derivativeName ++ '(' :: r)) = [] := by
  refine wrappedHead_append_eq_nil hs fun a o r' x hop hopen heq => ?_
  have hname : ∀ d ∈ derivativeName, isKeywordChar d = true := forall_mem_of_all (by decide)
  obtain ⟨rfl, -, -⟩ := append_cons_inj (by decide) (isKeywordChar_of_opener hopen) hname
    (fun d hd => hop.chars d (List.mem_append_right s hd)) heq
  have hletters : derivativeName = ['d', 'i'] ++ ['f', 'f'] := by decide
  rw [hletters, ← List.append_assoc] at hop
  exact hop.ne_double _ rfl

theorem wrappedHead_of_not_letter (hc : isAnyCaseLetter c = false) (t : Text) :
    wrappedHead (c :: t) = [] :=
  bind_of_eq_nil (bind_of_eq_nil (word_of_not_letter (k := ['d']) (by decide) (by decide) hc t))

theorem nowhere_wrappedHead_of_not_mem (h : '/' ∉ t) : Nowhere wrappedHead t :=
  (nowhere_derivativeOperator (nowhere_operatorStart h)).bind _

/-- A bracket without an operator in front of it. -/
theorem wrappedHead_append_opener (hs : '/' ∉ s) (hc : (closer? c).isSome = true) (t : Text) :
    wrappedHead (s ++ c :: t) = [] := by
  have hnone : wrappedHead s = [] := nowhere_wrappedHead_of_not_mem hs s (List.suffix_refl s)
  refine wrappedHead_append_eq_nil hnone fun a o r x hop hopen heq => ?_
  obtain ⟨rfl, -⟩ := append_cons_inj (s := []) (isKeywordChar_of_opener hc) (isKeywordChar_of_opener hopen)
    (fun _ h => absurd h List.not_mem_nil)
    (fun d hd => hop.chars d (List.mem_append_right s hd)) heq
  exact hs (by simpa using hop.slash_mem)

theorem nowhere_append_cons (hs : Nowhere wrappedHead s) (ht : Nowhere wrappedHead t)
    (hc : isKeywordChar c = false) (ho : closer? c = none) : Nowhere wrappedHead (s ++ c :: t) := by
  have hletter : isAnyCaseLetter c = false := (Bool.or_eq_false_iff.mp (Bool.or_eq_false_iff.mp hc).1).1
  refine nowhere_append_iff.mpr ⟨fun u hu => wrappedHead_append_cons (hs u hu) hc ho t, ?_⟩
  exact nowhere_cons.mpr ⟨wrappedHead_of_not_letter hletter t, ht⟩

/-- **A call brings no operator** that is not in its arguments, nor in the texts around it. -/
theorem nowhere_append_call (hu : Nowhere wrappedHead u) (hb : Nowhere wrappedHead body)
    (hw : '/' ∉ w) (hr : Nowhere wrappedHead r) :
    Nowhere wrappedHead (u ++ (callText derivativeName [body, w] ++ r)) := by
  have hcall : callText derivativeName [body, w] ++ r =
      derivativeName ++ '(' :: (body ++ ',' :: (w ++ ')' :: r)) := by
    rw [callText_pair]
    simp
  have harguments : Nowhere wrappedHead (body ++ ',' :: (w ++ ')' :: r)) :=
    nowhere_append_cons hb (nowhere_append_cons (nowhere_wrappedHead_of_not_mem hw) hr (by decide) rfl)
      (by decide) rfl
  have hname : Nowhere wrappedHead (derivativeName ++ '(' :: (body ++ ',' :: (w ++ ')' :: r))) := by
    refine nowhere_append_iff.mpr ⟨fun s hs => wrappedHead_append_opener (fun h => ?_) rfl _,
      nowhere_cons.mpr ⟨wrappedHead_of_not_letter (by decide) _, harguments⟩⟩
    exact absurd (hs.subset h) (by decide)
  rw [hcall]
  exact nowhere_append_iff.mpr ⟨fun s hs => wrappedHead_append_name (hu s hs) _, hname⟩

theorem wrappedHead_append_blanks (hs : wrappedHead s = []) (hw : ∀ b ∈ w, isBlank b = true) :
    wrappedHead (s ++ w) = [] := by
  refine wrappedHead_append_eq_nil hs fun a o r x _ hopen heq => ?_
  have ho := hw o (by rw [heq]; simp)
  rw [closer?_of_isBlank ho] at hopen
  exact Bool.noConfusion hopen

/-- An operator is not lost with the blanks around it. -/
theorem nowhere_wrappedHead_trim : Nowhere wrappedHead (trim t) ↔ Nowhere wrappedHead t := by
  have blank : ∀ c cs, isBlank c = true → wrappedHead (c :: cs) = [] := fun c cs hc =>
    wrappedHead_of_not_letter (isAnyCaseLetter_of_isBlank hc) cs
  obtain ⟨l, r, he, hl, hr⟩ := trim_split t
  constructor
  · intro h
    have hend : Nowhere wrappedHead r := by
      have := nowhere_blanks_append blank (t := []) (nowhere_nil.mpr rfl) hr
      rwa [List.append_nil] at this
    rw [he]
    refine nowhere_blanks_append blank (nowhere_append_iff.mpr ⟨fun u hu => ?_, hend⟩) hl
    exact wrappedHead_append_blanks (h u hu) hr
  · intro h
    rw [he] at h
    exact nowhere_of_within steady_wrappedHead h

/-! ## The operators with brackets -/

/-- What becomes of a well-nested text: the operators with brackets become calls, one after the
other, and the brackets are not looked into. -/
inductive Wraps : Text → Text → Prop where
  | nil : Wraps [] []
  | other {c : Char} {cs r : Text} (h : wrappedHead.best? (c :: cs) = none) (hr : Wraps cs r) :
    Wraps (c :: cs) (c :: r)
  | operator {u body after r : Text} {x opener closer : Char} (hu : Operator u x)
    (h : wrappedHead.best? (u ++ opener :: (body ++ closer :: after)) =
      some ((x, opener), body ++ closer :: after))
    (hc : closer? opener = some closer) (hb : WellNested body) (hr : Wraps after r) :
    Wraps (u ++ opener :: (body ++ closer :: after)) (callText derivativeName [trim body, lower x] ++ r)

theorem wrappedFrom_skip (r : Text) : ∀ u : Text, wrappedFrom u.length (u ++ r) = wrappedFrom 0 r
  | [] => rfl
  | _ :: u => by rw [List.cons_append, List.length_cons, wrappedFrom, wrappedFrom_skip r u]

/-- An operator becomes a call, and the text behind its brackets is gone on with. -/
theorem wrappedFrom_of_operator (hu : Operator u x)
    (h : wrappedHead.best? (u ++ o :: (body ++ c :: r)) = some ((x, o), body ++ c :: r))
    (hcut : cutAtClosing o (body ++ c :: r) = some (body, r)) :
    wrappedFrom 0 (u ++ o :: (body ++ c :: r)) =
      callText derivativeName [trim body, lower x] ++ wrappedFrom 0 r := by
  obtain ⟨d, u, rfl, -⟩ := hu.head
  have hsplit : u ++ o :: (body ++ c :: r) = (u ++ o :: (body ++ [c])) ++ r := by simp
  have hlength : (u ++ o :: (body ++ c :: r)).length - r.length =
      (u ++ o :: (body ++ [c])).length := by
    rw [hsplit, List.length_append, Nat.add_sub_cancel]
  rw [List.cons_append] at h ⊢
  rw [wrappedFrom, h]
  dsimp only
  rw [hcut]
  dsimp only
  rw [hlength, hsplit, wrappedFrom_skip]

theorem wraps_wrappedFrom : ∀ (n : Nat) {t awaited : Text}, t.length ≤ n →
    awaitAll awaited t = some [] → Wraps t (wrappedFrom 0 t)
  | _, [], _, _, _ => by
    rw [wrappedFrom]
    exact .nil
  | n + 1, c :: cs, awaited, hn, h => by
    cases hbest : wrappedHead.best? (c :: cs) with
    | none =>
      obtain ⟨a, -, ha⟩ := awaitAll_cons_eq_some.mp h
      rw [wrappedFrom, hbest]
      exact .other hbest (wraps_wrappedFrom n (Nat.le_of_succ_le_succ hn) ha)
    | some y =>
      obtain ⟨⟨x, opener⟩, rest⟩ := y
      obtain ⟨u, hu, hopen, heq⟩ := mem_wrappedHead_iff.mp (mem_of_best? hbest)
      obtain ⟨closer, hcloser⟩ := Option.isSome_iff_exists.mp hopen
      -- The bracket that is opened is awaited, and so it is closed.
      rw [heq, awaitAll_append] at h
      obtain ⟨a, -, ha⟩ := Option.bind_eq_some_iff.mp h
      obtain ⟨a', ha', hrest⟩ := awaitAll_cons_eq_some.mp ha
      rw [await_opener hcloser] at ha'
      obtain rfl := Option.some.inj ha'
      have hrest : awaitAll ([] ++ closer :: a) rest = some [] := hrest
      obtain ⟨body, after, rfl, hbody, hafter⟩ := awaitAll_split hrest
      have hle : after.length ≤ n := by
        have hlength := congrArg List.length heq
        simp only [List.length_append, List.length_cons] at hlength hn
        omega
      rw [heq] at hbest ⊢
      rw [wrappedFrom_of_operator hu hbest (cutAtClosing_of_wellNested hcloser hbody after)]
      exact .operator hu hbest hcloser hbody (wraps_wrappedFrom n hle hafter)

theorem wraps_wrappedDerivatives (h : WellNested t) : Wraps t (wrappedDerivatives t) :=
  wraps_wrappedFrom t.length (Nat.le_refl _) h

theorem wrappedHead_of_append (h : wrappedHead (s ++ t) = []) : wrappedHead s = [] := by
  refine List.eq_nil_iff_forall_not_mem.mpr ?_
  rintro ⟨a, r⟩ hr
  have hsteady : Steady t wrappedHead := steady_wrappedHead
  have hm := hsteady.mem_append hr
  rw [h] at hm
  exact List.not_mem_nil hm

theorem OperatorInBody.of_suffix (h : OperatorInBody s) (hs : s <:+ t) : OperatorInBody t := by
  obtain ⟨s', x, o, rest, body, after, hsuf, hbest, hcut, hbody⟩ := h
  exact ⟨s', x, o, rest, body, after, hsuf.trans hs, hbest, hcut, hbody⟩

/-- **No operator is left** if none stands in the brackets of another one. The text `u` has been read
before, without an operator that starts there. -/
theorem Wraps.nowhere (h : Wraps t r) : ¬OperatorInBody t →
    ∀ u, (∀ s, s <:+ u → s ≠ [] → wrappedHead (s ++ t) = []) → Nowhere wrappedHead (u ++ r) := by
  induction h with
  | nil =>
    intro _ u hu
    refine nowhere_append_iff.mpr ⟨fun s hs => ?_, nowhere_nil.mpr rfl⟩
    by_cases hn : s = []
    · rw [hn]
      rfl
    · exact hu s hs hn
  | @other c cs r h _ ih =>
    intro hbody u hu
    have hread : wrappedHead (c :: cs) = [] := List.head?_eq_none_iff.mp h
    have hnext := ih (fun h => hbody (h.of_suffix (List.suffix_cons c cs))) (u ++ [c]) ?_
    · rwa [List.append_assoc] at hnext
    intro s hs hn
    rcases List.suffix_concat_iff.mp hs with rfl | ⟨s', rfl, hs'⟩
    · exact absurd rfl hn
    rw [List.append_assoc]
    by_cases hn' : s' = []
    · rw [hn']
      exact hread
    · exact hu s' hs' hn'
  | @operator w body after r x opener closer hw h hc hb _ ih =>
    intro hbody u hu
    have hcut := cutAtClosing_of_wellNested hc hb after
    have hnone : Nowhere wrappedHead body := by
      by_contra hn
      exact hbody ⟨_, x, opener, _, body, after, List.suffix_refl _, h, hcut, hn⟩
    have hafter : after <:+ w ++ opener :: (body ++ closer :: after) :=
      ⟨w ++ opener :: (body ++ [closer]), by simp⟩
    have hrest := ih (fun h => hbody (h.of_suffix hafter)) [] fun s hs hn =>
      absurd (List.suffix_nil.mp hs) hn
    have hu : Nowhere wrappedHead u := by
      intro s hs
      by_cases hn : s = []
      · rw [hn]
        rfl
      · exact wrappedHead_of_append (hu s hs hn)
    exact nowhere_append_call hu (nowhere_wrappedHead_trim.mpr hnone)
      (not_mem_lower (by decide) (by decide) hw.letter) hrest

/-- Where operators are read, if the first one has none in its brackets: there, or behind them. -/
theorem suffix_of_operator {opener closer : Char} {after : Text} (hu : Operator u x)
    (hc : closer? opener = some closer) (hb : Nowhere wrappedHead body)
    (hs : s <:+ u ++ opener :: (body ++ closer :: after)) (h : wrappedHead s ≠ []) :
    s = u ++ opener :: (body ++ closer :: after) ∨ s <:+ after := by
  have hclose := isCloser_of_closer? hc
  have letter : ∀ {c : Char} {cs : Text}, isKeywordChar c = false → s ≠ c :: cs := by
    rintro c cs hk rfl
    rw [isKeywordChar, Bool.or_eq_false_iff, Bool.or_eq_false_iff] at hk
    exact h (wrappedHead_of_not_letter hk.1.1 cs)
  rcases List.suffix_or_suffix_of_suffix hs (List.suffix_append u _) with hs | ⟨z, rfl⟩
  · rcases List.suffix_cons_iff.mp hs with rfl | hs
    · exact absurd rfl (letter (isKeywordChar_of_opener (congrArg Option.isSome hc)))
    rcases List.suffix_or_suffix_of_suffix hs (List.suffix_append body _) with hs | ⟨z, rfl⟩
    · rcases List.suffix_cons_iff.mp hs with rfl | hs
      · exact absurd rfl (letter (isKeywordChar_of_isCloser hclose))
      · exact .inr hs
    · obtain ⟨y, hy⟩ := hs
      rw [← List.append_assoc] at hy
      have hz : wrappedHead z = [] := hb z ⟨y, List.append_cancel_right hy⟩
      exact absurd (wrappedHead_append_cons hz (isKeywordChar_of_isCloser hclose)
        (closer?_of_isCloser hclose) after) h
  · obtain ⟨y, hy⟩ := hs
    rw [← List.append_assoc] at hy
    have hz : z <:+ u := ⟨y, List.append_cancel_right hy⟩
    obtain ⟨⟨⟨b, o⟩, r⟩, hread⟩ := List.exists_mem_of_ne_nil _ h
    obtain ⟨v, hv, ho, heq⟩ := mem_wrappedHead_iff.mp hread
    obtain ⟨rfl, -⟩ := append_cons_inj (isKeywordChar_of_opener (congrArg Option.isSome hc))
      (isKeywordChar_of_opener ho) (fun d hd => hu.chars d (hz.subset hd)) hv.chars heq
    rw [hv.eq_of_suffix hu hz]
    exact .inl rfl

/-- An operator in the brackets of another one is left. -/
theorem Wraps.not_operatorInBody (h : Wraps t r) : Nowhere wrappedHead r → ¬OperatorInBody t := by
  induction h with
  | nil =>
    rintro - ⟨s, x, o, rest, body, after, hs, hbest, -⟩
    have hnil : wrappedHead [] = [] := rfl
    rw [List.suffix_nil.mp hs, best?, hnil] at hbest
    exact absurd hbest (by simp)
  | @other c cs r h _ ih =>
    rintro hr ⟨s, x, o, rest, body, after, hs, hbest, hcut, hbody⟩
    rcases List.suffix_cons_iff.mp hs with rfl | hs
    · rw [h] at hbest
      exact absurd hbest (by simp)
    · exact ih (nowhere_cons.mp hr).2 ⟨s, x, o, rest, body, after, hs, hbest, hcut, hbody⟩
  | @operator w body after r x opener closer hw h hc hb _ ih =>
    rintro hr ⟨s, y, o, rest, body', after', hs, hbest, hcut, hbody⟩
    have hnone : Nowhere wrappedHead body := by
      refine nowhere_wrappedHead_trim.mp ?_
      have hcall : callText derivativeName [trim body, lower x] ++ r =
          (derivativeName ++ ['(']) ++ (trim body ++ (',' :: (lower x ++ ')' :: r))) := by
        rw [callText_pair]
        simp
      rw [hcall] at hr
      exact nowhere_of_within steady_wrappedHead hr
    have hread : wrappedHead s ≠ [] := List.ne_nil_of_mem (mem_of_best? hbest)
    rcases suffix_of_operator hw hc hnone hs hread with rfl | hs
    · obtain ⟨⟨rfl, rfl⟩, rfl⟩ := Prod.mk.inj (Option.some.inj (h.symm.trans hbest))
      rw [cutAtClosing_of_wellNested hc hb] at hcut
      obtain ⟨rfl, rfl⟩ := Prod.mk.inj (Option.some.inj hcut)
      exact hbody hnone
    · exact ih (hr.of_suffix (List.suffix_append _ r)) ⟨s, y, o, rest, body', after', hs, hbest, hcut, hbody⟩

/-! ## The other phrasings -/

/-- What is given for what is read: a call for a derivative, whose body is part of it. -/
def GivesCall (u new : Text) : Prop :=
  u ≠ [] ∧ ∃ l body m w, u = l ++ (body ++ m) ∧ new = callText derivativeName [trim body, w] ∧ '/' ∉ w

theorem nowhere_replaceFrom {p : Option Char → Pattern Text} (hp : ∀ last, Reads (p last) GivesCall) :
    ∀ (n : Nat) {t u : Text} {last : Option Char}, t.length ≤ n → Nowhere wrappedHead (u ++ t) →
      Nowhere wrappedHead (u ++ replaceFrom p last 0 t)
  | _, [], _, _, _, h => by rwa [replaceFrom]
  | n + 1, c :: cs, u, last, hn, h => by
    cases hbest : (p last).best? (c :: cs) with
    | none =>
      rw [replaceFrom, hbest]
      have hnext : Nowhere wrappedHead ((u ++ [c]) ++ replaceFrom p (some c) 0 cs) :=
        nowhere_replaceFrom hp n (Nat.le_of_succ_le_succ hn) (by rwa [List.append_assoc])
      rwa [List.append_assoc] at hnext
    | some y =>
      obtain ⟨new, r⟩ := y
      obtain ⟨v, heq, hv, l, body, m, w, rfl, rfl, hw⟩ := hp last _ _ _ (mem_of_best? hbest)
      rw [heq] at hbest h hn ⊢
      obtain ⟨last', hfront⟩ := replaceFrom_of_best? hv hbest
      have hu : Nowhere wrappedHead u := nowhere_of_within (l := []) steady_wrappedHead h
      have hbody : Nowhere wrappedHead body := by
        refine nowhere_of_within (l := u ++ l) (r := m ++ r) steady_wrappedHead ?_
        simpa using h
      have hr : Nowhere wrappedHead r := (nowhere_append_iff.mp (nowhere_append_iff.mp h).2).2
      have hle : r.length ≤ n := by
        have := List.length_pos_iff.mpr hv
        rw [List.length_append] at hn
        omega
      rw [hfront]
      exact nowhere_append_call hu (nowhere_wrappedHead_trim.mpr hbody) hw
        (nowhere_replaceFrom hp n (u := []) hle hr)

theorem nowhere_replaceAll {p : Option Char → Pattern Text} (hp : ∀ last, Reads (p last) GivesCall)
    (h : Nowhere wrappedHead t) : Nowhere wrappedHead (replaceAll p t) :=
  nowhere_replaceFrom hp t.length (u := []) (Nat.le_refl _) h

theorem slash_not_mem_variable {y : Option Char} (hy : ∀ x ∈ y, isAnyCaseLetter x = true) :
    '/' ∉ [y.getD usualVariable] := by
  have hletter : isAnyCaseLetter (y.getD usualVariable) = true := by
    cases y with
    | none => decide
    | some x => exact hy x rfl
  intro h
  rw [← List.mem_singleton.mp h] at hletter
  exact absurd hletter (by decide)

theorem reads_openDerivative : Reads openDerivative GivesCall := by
  have hm : '.' ∈ sentenceMarks := by decide
  refine (reads_derivativeOperator hm).bind fun u x hu => (reads_many1 _).bind fun u₁ _ _ =>
    (reads_many1 _).bind fun w body hw => stays_atEnd.bind fun _ => reads_pure ?_
  obtain ⟨rfl, -⟩ := hw
  refine ⟨by simp [hu.1], u ++ u₁, w, [], lower x, by simp, rfl, ?_⟩
  exact not_mem_lower (by decide) (by decide) hu.2.2

/-- The body of a worded phrase comes first. -/
theorem reads_wordedBody_first : Reads wordedBody fun u x =>
    (∃ m, u = x.1 ++ m) ∧ ∀ y ∈ x.2, isAnyCaseLetter y = true := by
  have hm : '.' ∈ sentenceMarks := by decide
  refine (reads_few1 _).bind fun u body h => (reads_respectTo hm).bind fun u₁ o h₁ =>
    (reads_many _).bind fun u₂ _ _ => stays_atEnd.bind fun _ => reads_pure ?_
  exact ⟨⟨u₁ ++ (u₂ ++ []), by rw [h]⟩, h₁.2⟩

theorem reads_derivativeOf : Reads derivativeOf GivesCall := by
  have hm : '.' ∈ sentenceMarks := by decide
  refine leavesEnd_optionalArticle.reads.bind fun u₁ _ _ =>
    (reads_words hm (by decide) (by decide)).bind fun u₂ _ h₂ =>
    (reads_many1 _).bind fun u₃ _ _ => reads_wordedBody_first.bind fun w x hw => reads_pure ?_
  obtain ⟨⟨m, rfl⟩, hx⟩ := hw
  exact ⟨by simp [h₂.1], u₁ ++ (u₂ ++ u₃), x.1, m, _, by simp, rfl, slash_not_mem_variable hx⟩

theorem reads_differentiate : Reads differentiate GivesCall := by
  have hm : '.' ∈ sentenceMarks := by decide
  refine (reads_letters hm (by decide) (by decide)).bind fun u₁ _ h₁ =>
    (reads_many1 _).bind fun u₂ _ _ => (stays_notBefore _).bind fun _ =>
    reads_wordedBody_first.bind fun w x hw => reads_pure ?_
  obtain ⟨⟨m, rfl⟩, hx⟩ := hw
  exact ⟨by simp [h₁.1], u₁ ++ u₂, x.1, m, _, by simp, rfl, slash_not_mem_variable hx⟩

/-- **When no operator is left.** On a well-nested text, the operators with brackets all become calls
but for those that stand in the brackets of another one. If there are none of these, no operator is
left by the rule; and if there are, one is left, unless a phrasing with a blank reads it later on. -/
theorem nowhere_wrappedHead_derivatives (h : WellNested t) :
    (Nowhere wrappedHead (wrappedDerivatives t) ↔ ¬OperatorInBody t) ∧
      (¬OperatorInBody t → Nowhere wrappedHead (derivatives t)) ∧
      (Blankless t → (Nowhere wrappedHead (derivatives t) ↔ ¬OperatorInBody t)) := by
  have hwraps := wraps_wrappedDerivatives h
  have hiff : Nowhere wrappedHead (wrappedDerivatives t) ↔ ¬OperatorInBody t :=
    ⟨hwraps.not_operatorInBody, fun hn => hwraps.nowhere hn [] fun s hs hn =>
      absurd (List.suffix_nil.mp hs) hn⟩
  refine ⟨hiff, fun hn => ?_, fun hb => ?_⟩
  · exact nowhere_replaceAll (fun _ => reads_differentiate) <|
      nowhere_replaceAll (fun _ => reads_derivativeOf) <|
      nowhere_replaceAll (fun _ => reads_openDerivative) (hiff.mpr hn)
  · rw [derivatives_of_blankless (blankless_wrappedFrom hb)]
    exact hiff

theorem nowhere_wrappedHead_derivatives_siblings :
    (¬OperatorInBody "sin(d/dx(x) + d / dT[t])".toList ∧
        Nowhere wrappedHead (derivatives "sin(d/dx(x) + d / dT[t])".toList)) ∧
      OperatorInBody "\x7bd/dx(x+d/dT[t])\x7d".toList ∧
        ¬Nowhere wrappedHead (derivatives "\x7bd/dx(x+d/dT[t])\x7d".toList) := by
  have hsiblings := nowhere_wrappedHead_derivatives (t := "sin(d/dx(x) + d / dT[t])".toList) (by decide)
  have hnested := nowhere_wrappedHead_derivatives (t := "\x7bd/dx(x+d/dT[t])\x7d".toList) (by decide)
  have hleft : ¬Nowhere wrappedHead (derivatives "\x7bd/dx(x+d/dT[t])\x7d".toList) := by decide +kernel
  have hnone : ¬OperatorInBody "sin(d/dx(x) + d / dT[t])".toList := hsiblings.1.mp (by decide +kernel)
  have hiff := hnested.2.2 (forall_mem_of_all (by decide))
  exact ⟨⟨hnone, hsiblings.2.1 hnone⟩, by_contra fun h => hleft (hiff.mpr h), hleft⟩

/-- The derivative of a derivative is left: the brackets are not looked into. -/
theorem derivatives_nested :
    WellNested "d/dx(d/dx(x))".toList ∧
      derivatives "d/dx(d/dx(x))".toList = "diff(d/dx(x),x)".toList ∧
      ¬Nowhere wrappedHead (derivatives "d/dx(d/dx(x))".toList) := by
  decide +kernel

end Stepwise.Phrase
