import Stepwise.Proofs.Extracted
import Stepwise.Proofs.LimitForms
import Stepwise.Solve.Question

/-!
# Equations and their unknowns

A problem names the unknown of its equation behind it ("solve L = R for V") or in front of it ("solve
for V: L = R", or with a comma). In the canonical form the words are glued to the equation, and they
are cut off again letter by letter. What is left is the plain text of both sides if neither of them
has a keyword of calculus, a colon or a comma, or the word "for" once its blanks are removed; as no
glyph brings that word in, it is not in the plain text either.

Results: `canonical_solve`, the canonical form is the plain text up to the end of the sentence;
`equationParts_trailing` and `equationParts_leading`, where the words are cut off; and
`equation_spelling`, all spellings ask for the same.
-/

namespace Stepwise

open Text Pattern Phrase

namespace Pattern

variable {α : Type} {p : Pattern α} {a : α} {r t u v : Text}

/-! ## The first place -/

theorem findFrom_of_nowhere {p : Option Char → Pattern α} : ∀ {t : Text} {last : Option Char},
    (∀ last, Nowhere (p last) t) → findFrom p last t = none
  | [], last, h => by rw [findFrom, best?, h last _ (List.suffix_refl _)]; rfl
  | c :: cs, last, h => by
    rw [findFrom, best?, h last _ (List.suffix_refl _)]
    have ih : findFrom p (some c) cs = none :=
      findFrom_of_nowhere fun l => (nowhere_cons.mp (h l)).2
    simp [ih]

theorem find?_of_nowhere (h : Nowhere p t) : find? (fun _ => p) t = none :=
  findFrom_of_nowhere fun _ => h

theorem findFrom_append {p : Option Char → Pattern α}
    (h : ∀ last s, s <:+ u → s ≠ [] → p last (s ++ v) = [])
    (hv : ∀ last, (p last).best? v = some (a, r)) :
    ∀ last, findFrom p last (u ++ v) = some ⟨u, a, r⟩ := by
  induction u with
  | nil =>
    intro last
    cases v with
    | nil => rw [List.nil_append, findFrom, hv]
    | cons c cs => rw [List.nil_append, findFrom, hv]
  | cons c u ih =>
    intro last
    have hc : p last (c :: (u ++ v)) = [] := h last _ (List.suffix_refl _) (List.cons_ne_nil c u)
    have hu := ih (fun l s hs => h l s (hs.trans (List.suffix_cons c u))) (some c)
    rw [List.cons_append, findFrom, best?, hc, hu]
    rfl

/-- The first place is behind a text if the pattern can be read there and nowhere before. -/
theorem find?_append (h : ∀ s, s <:+ u → s ≠ [] → p (s ++ v) = []) (hv : p.best? v = some (a, r)) :
    find? (fun _ => p) (u ++ v) = some ⟨u, a, r⟩ :=
  findFrom_append (fun _ => h) (fun _ => hv) none

theorem best?_optional_of_eq_nil (h : p t = []) : (optional p).best? t = some (none, t) := by
  rw [best?, optional, h]
  rfl

end Pattern

namespace Question

variable {c v : Char} {e l r t w : Text}

/-! ## Cutting off the words -/

/-- The word in front of the unknown. -/
def forWord : Text := "for".toList

/-- The instruction to solve an equation. -/
def solveText : Text := "solve".toList

theorem best?_trailingFor (hv : isLetter v = true) :
    trailingFor.best? (forWord ++ [v]) = some (v, []) := by
  have hany : isAnyCaseLetter v = true := by rw [isAnyCaseLetter, hv]; rfl
  exact best?_bind (best?_of_eq (word_append (by decide) _)) <|
    best?_bind (best?_of_eq (one_cons hany [])) (best?_bind (a := ()) (r := []) rfl rfl)

/-- The unknown at the end of a text is not read before its word. -/
theorem trailingFor_append_eq_nil (hv : isLetter v = true) (hn : t ≠ []) :
    trailingFor (t ++ (forWord ++ [v])) = [] := by
  refine List.eq_nil_iff_forall_not_mem.mpr ?_
  rintro ⟨x, r⟩ hx
  obtain ⟨_, s, hs, hx⟩ := mem_bind.mp hx
  obtain ⟨y, s', hs', hx⟩ := mem_bind.mp hx
  obtain ⟨_, s'', hend, hx⟩ := mem_bind.mp hx
  obtain ⟨w, hw, hlen, -⟩ := reads_word _ _ _ _ hs
  obtain ⟨rfl, -⟩ := mem_one.mp hs'
  have htotal := congrArg List.length hw
  have hpos : 0 < t.length := List.length_pos_iff.mpr hn
  rw [List.length_append, List.length_append, List.length_append, hlen] at htotal
  rcases (mem_atEnd.mp hend).2 with rfl | rfl
  · simp only [forWord, List.length_cons, List.length_nil] at htotal
    have : "for".toList.length = 3 := rfl
    omega
  · have hlast := congrArg List.getLast? hw
    rw [← List.append_assoc, List.getLast?_concat, List.getLast?_append] at hlast
    obtain rfl : v = '\n' := by simpa using hlast
    exact absurd hv (by decide)

theorem word_solve (e : Text) : word solveText (solveText ++ e) = [((), e)] :=
  word_append (by decide) e

/-- Only the instruction is cut off in front of an equation. -/
theorem best?_solveWord (hf : word forWord e = []) (he : ∀ c, e.head? = some c → c ≠ ':' ∧ c ≠ ',') :
    solveWord.best? (solveText ++ e) = some (none, e) := by
  have hleading : leadingFor e = [] := bind_of_eq_nil hf
  have hsign : one (fun c => c == ':' || c == ',') e = [] := by
    cases e with
    | nil => rfl
    | cons c cs =>
      obtain ⟨hcolon, hcomma⟩ := he c rfl
      exact if_neg (by simp [hcolon, hcomma])
  exact best?_bind (best?_of_eq (word_solve e)) <|
    best?_bind (best?_optional_of_eq_nil hleading) (best?_bind (best?_optional_of_eq_nil hsign) rfl)

/-- The unknown is cut off with the instruction. -/
theorem best?_solveWord_for (hv : isLetter v = true) (hc : c = ':' ∨ c = ',') (e : Text) :
    solveWord.best? (solveText ++ (forWord ++ v :: c :: e)) = some (some v, e) := by
  have hany : isAnyCaseLetter v = true := by rw [isAnyCaseLetter, hv]; rfl
  have hsign : (c == ':' || c == ',') = true := by simpa using hc
  have hbefore : before (fun c => c == ':' || c == ',') (c :: e) = [((), c :: e)] := if_pos hsign
  have hleading : leadingFor (forWord ++ v :: c :: e) = [(v, c :: e)] :=
    (bind_of_eq (word_append (by decide) _)).trans
      ((bind_of_eq (one_cons hany _)).trans (bind_of_eq hbefore))
  have hone : one (fun c => c == ':' || c == ',') (c :: e) = [(c, e)] := one_cons hsign e
  exact best?_bind (best?_of_eq (word_solve _)) <|
    best?_bind (best?_optional_of_eq hleading) (best?_bind (best?_optional_of_eq hone) rfl)

/-- No gloss fits into the word. -/
theorem foreign_for : ∀ new ∈ glosses, Foreign forWord new :=
  fun new hnew => foreign_of_isForeign (List.all_eq_true.mp (by decide) new hnew)

theorem word_forWord_append (h : word forWord l = []) (t : Text) :
    word forWord (l ++ '=' :: t) = [] := by
  have hskirts : Skirts '=' (word forWord) := (reads_word forWord).mono fun u _ ⟨hlen, hu⟩ => by
    refine ⟨fun hn => ?_, fun hm => ?_⟩
    · rw [hn] at hlen
      exact absurd hlen (by decide)
    · obtain ⟨q, hq, hs⟩ := hu _ hm
      have := forall_mem_of_all (p := fun q => sameLetter q '=' = false) (t := forWord) (by decide) q hq
      exact Bool.false_ne_true (this.symm.trans hs)
  rw [(steady_word forWord).unmoved_of_skirts hskirts, h]
  rfl

/-- **The unknown behind an equation.** -/
theorem equationParts_trailing (hv : isLetter v = true) (hf : word forWord l = [])
    (hcolon : ':' ∉ l) (hcomma : ',' ∉ l) :
    equationParts (solveText ++ ((l ++ '=' :: r) ++ (forWord ++ [v]))) =
      (l ++ '=' :: r, some v) := by
  have hword : word forWord ((l ++ '=' :: r) ++ (forWord ++ [v])) = [] := by
    rw [List.append_assoc]
    exact word_forWord_append hf _
  have hhead : ∀ c, ((l ++ '=' :: r) ++ (forWord ++ [v])).head? = some c → c ≠ ':' ∧ c ≠ ',' := by
    intro c hc
    have hc : (l ++ ['=']).head? = some c := by
      cases l with
      | nil => exact hc
      | cons d ds => exact hc
    have hm := List.mem_of_head? hc
    constructor <;> rintro rfl <;> simp_all
  have hfind := find?_append (p := trailingFor) (u := l ++ '=' :: r)
    (fun s _ hn => trailingFor_append_eq_nil hv hn) (best?_trailingFor hv)
  have hsign : (l ++ '=' :: r).contains '=' = true := List.contains_iff_mem.mpr (by simp)
  simp only [equationParts, best?_solveWord hword hhead, hfind, hsign, if_true]
  rfl

/-- **The unknown in front of an equation.** -/
theorem equationParts_leading (hv : isLetter v = true) (hc : c = ':' ∨ c = ',')
    (hl : Nowhere (word forWord) l) (hr : Nowhere (word forWord) r) :
    equationParts (solveText ++ (forWord ++ v :: c :: (l ++ '=' :: r))) =
      (l ++ '=' :: r, some v) := by
  have hsign : Nowhere (word forWord) ('=' :: r) :=
    nowhere_cons.mpr ⟨word_of_not_letter (by decide) (by decide) (by decide) r, hr⟩
  have happ : Nowhere (word forWord) (l ++ '=' :: r) :=
    nowhere_append (fun _ => steady_word _) (spells_word (by decide) (by decide))
      (.inr ⟨[], '=', r, rfl, by simp, by decide⟩) hl hsign
  have hfind : find? (fun _ => trailingFor) (l ++ '=' :: r) = none := find?_of_nowhere (happ.bind _)
  simp only [equationParts, best?_solveWord_for hv hc, hfind]

/-! ## The canonical form -/

/-- **The canonical form of a text that asks to solve something**, without the end of the sentence. -/
theorem canonical_solve (h : Keyless (solveText ++ t)) :
    canonical (solveText ++ t) = dropEndWhile endsSentence (solveText ++ plain t) := by
  have hblank : isBlank 's' = false := by decide
  have hcollapse : trim (squeeze (solveText ++ t)) =
      's' :: dropEndWhile isBlank (squeeze ("olve".toList ++ t)) := by
    change trim (squeeze ('s' :: ("olve".toList ++ t))) = _
    rw [squeeze_cons_of_not_blank (by decide), trim, List.dropWhile_cons_of_neg (by decide)]
    exact dropEndWhile_append_cons hblank [] _
  have hbare : bare (solveText ++ t) = trim (squeeze (solveText ++ t)) :=
    bare_of_collapse rfl (by rw [hcollapse]; exact instructionHead_of_head (by decide) _)
  rw [canonical_of_keyless h.bare, hbare, plain_trim, plain_squeeze,
    plain_letters_append (forall_mem_of_all (by decide))]

/-- A text that does not end like a sentence is not made to by being made plain. -/
theorem firm_plain (h : Firm t) : Firm (plain t) := by
  obtain ⟨d, hd, he⟩ := (within_plainGlyphs (m := '.') (by decide)).firm h
  obtain ⟨s, hs⟩ := List.getLast?_eq_some_iff.mp hd
  have hblank : isBlank d = false := by
    rw [endsSentence, Bool.or_eq_false_iff, Bool.or_eq_false_iff] at he
    exact he.1.1
  rw [plain, hs, removeBlanks_append, removeBlanks_cons_of_not_blank hblank]
  exact firm_append_singleton _ he

/-- What may stand on one side of an equation. -/
structure Side (t : Text) : Prop where
  keyless : Keyless t
  noFor : Nowhere (word forWord) (removeBlanks t)
  noColon : ':' ∉ t
  noComma : ',' ∉ t

/-- The last character that is no blank does not end a sentence. -/
def EndsOpen (t : Text) : Prop := ∀ c, (trim t).getLast? = some c → c ≠ '.' ∧ c ≠ '?'

theorem firm_equation (h : EndsOpen r) : Firm ('=' :: plain r) := by
  cases hb : allBlank r with
  | true =>
    have hnil : plain r = [] := by
      have := plain_blanks_left (List.all_eq_true.mp hb) []
      rwa [List.append_nil] at this
    rw [hnil]
    exact firm_append_singleton [] (by decide)
  | false =>
    have hne := trim_ne_nil hb
    have hlast := List.getLast?_eq_some_getLast hne
    obtain ⟨hdot, hmark⟩ := h _ hlast
    have hblank := noBlankEnd_trim r _ hlast
    have hfirm : Firm (trim r) := ⟨_, hlast, by simp [endsSentence, hblank, hdot, hmark]⟩
    rw [← plain_trim]
    exact (firm_plain hfirm).append ['=']

/-! ## The spellings -/

/-- The unknown behind the equation. -/
def trailingSpelling (v : Char) (l r : Text) : Text :=
  "solve ".toList ++ (l ++ (" = ".toList ++ (r ++ (" for ".toList ++ [v]))))

/-- The unknown in front of the equation, with the sign that sets it off. -/
def leadingSpelling (c v : Char) (l r : Text) : Text :=
  "solve for ".toList ++ (v :: c :: ' ' :: (l ++ (" = ".toList ++ r)))

/-- The ways to ask for the unknown of an equation. -/
def spellings (v : Char) (l r : Text) : List Text :=
  [trailingSpelling v l r, leadingSpelling ':' v l r, leadingSpelling ',' v l r]

theorem allBlanks_space : AllBlanks [' '] := List.forall_mem_singleton.mpr (by decide)

theorem plain_space (t : Text) : plain (' ' :: t) = plain t := plain_blanks_left allBlanks_space t

theorem plain_unknown (hv : isLetter v = true) : plain [v] = [v] :=
  plain_letters (by rw [List.all_cons, hv]; rfl)

theorem plain_sides (l r : Text) : plain (l ++ (" = ".toList ++ r)) = plain l ++ '=' :: plain r :=
  (plain_equality allBlanks_space allBlanks_space l r).trans
    (plain_inert (by decide) (by decide) l r)

theorem keyless_sides (hl : Keyless l) (hr : Keyless r) : Keyless (l ++ (" = ".toList ++ r)) :=
  hl.append_blank ((hr.cons (by decide) (by decide)).cons (by decide) (by decide))
    (.inr ⟨'=', _, rfl, by decide⟩)

theorem plain_forWord (hv : isLetter v = true) (r : Text) :
    plain (r ++ (" for ".toList ++ [v])) = plain r ++ (forWord ++ [v]) := by
  have hword : plain ("or".toList ++ [' ', v]) = "or".toList ++ [v] := by
    rw [plain_letters_append (forall_mem_of_all (by decide)), plain_space, plain_unknown hv]
  have hfor := plain_inert (b := 'f') (by decide) (by decide) (r ++ [' ']) ("or".toList ++ [' ', v])
  rw [plain_blanks_right allBlanks_space, hword, List.append_assoc] at hfor
  exact hfor

theorem keyless_forWord (hv : isLetter v = true) (hr : Keyless r) :
    Keyless (r ++ (" for ".toList ++ [v])) := by
  have hfor : Keyless (forWord ++ ' ' :: [v]) := Keyless.append_blank (by decide +kernel)
    (keyless_letter hv) (.inl ⟨"fo".toList, 'r', rfl, by decide⟩)
  exact hr.append_blank hfor (.inr ⟨'f', _, rfl, by decide⟩)

theorem endsSentence_of_isLetter (hv : isLetter v = true) : endsSentence v = false := by
  refine Bool.eq_false_iff.mpr fun h => ?_
  rw [endsSentence, Bool.or_eq_true, Bool.or_eq_true, beq_iff_eq, beq_iff_eq] at h
  rcases h with (h | rfl) | rfl
  · rw [isLetter, isAlpha_of_isBlank h] at hv
    exact Bool.noConfusion hv
  · exact absurd hv (by decide)
  · exact absurd hv (by decide)

theorem canonical_trailingSpelling (hv : isLetter v = true) (hl : Keyless l) (hr : Keyless r) :
    canonical (trailingSpelling v l r) =
      solveText ++ ((plain l ++ '=' :: plain r) ++ (forWord ++ [v])) := by
  have hshape : trailingSpelling v l r =
      solveText ++ ' ' :: (l ++ (" = ".toList ++ (r ++ (" for ".toList ++ [v])))) := rfl
  have hkeyless : Keyless (trailingSpelling v l r) := Keyless.append_blank (by decide +kernel)
    (keyless_sides hl (keyless_forWord hv hr)) (.inl ⟨"solv".toList, 'e', rfl, by decide⟩)
  have hplain : plain (' ' :: (l ++ (" = ".toList ++ (r ++ (" for ".toList ++ [v]))))) =
      (plain l ++ '=' :: plain r) ++ (forWord ++ [v]) := by
    rw [plain_space, plain_sides, plain_forWord hv, List.append_assoc, List.cons_append]
  have hfirm : Firm (forWord ++ [v]) := firm_append_singleton _ (endsSentence_of_isLetter hv)
  rw [hshape] at hkeyless ⊢
  rw [canonical_solve hkeyless, hplain, ((hfirm.append _).append solveText).dropEndWhile_eq]

theorem canonical_leadingSpelling (hv : isLetter v = true) (hc : c = ':' ∨ c = ',')
    (hl : Keyless l) (hr : Keyless r) (hend : EndsOpen r) :
    canonical (leadingSpelling c v l r) =
      solveText ++ (forWord ++ v :: c :: (plain l ++ '=' :: plain r)) := by
  have hsign : Inert c ∧ c ≠ '*' ∧ plainGlyph c = [c] ∧ isAnyCaseLetter c = false ∧ c ≠ '∫' ∧
      isKeywordChar c = false := by
    rcases hc with rfl | rfl <;> decide
  obtain ⟨hinert, hstar, hself, hletter, hintegral, hkey⟩ := hsign
  have hshape : leadingSpelling c v l r =
      solveText ++ ' ' :: (forWord ++ ' ' :: v :: c :: ' ' :: (l ++ (" = ".toList ++ r))) := rfl
  have hrest : Keyless (c :: ' ' :: (l ++ (" = ".toList ++ r))) :=
    ((keyless_sides hl hr).cons (by decide) (by decide)).cons hletter hintegral
  have hkeyless : Keyless (leadingSpelling c v l r) :=
    Keyless.append_blank (s := "solve for".toList) (by decide +kernel) (hrest.letter_cons hv hkey)
      (.inl ⟨"solve fo".toList, 'r', rfl, by decide⟩)
  have hunknown : plain (v :: c :: ' ' :: (l ++ (" = ".toList ++ r))) =
      v :: c :: (plain l ++ '=' :: plain r) := by
    have := plain_inert hinert hstar [v] (' ' :: (l ++ (" = ".toList ++ r)))
    rwa [plain_unknown hv, hself, plain_space, plain_sides] at this
  have hplain : plain (' ' :: (forWord ++ ' ' :: v :: c :: ' ' :: (l ++ (" = ".toList ++ r)))) =
      forWord ++ v :: c :: (plain l ++ '=' :: plain r) := by
    rw [plain_space, plain_letters_append (forall_mem_of_all (by decide)), plain_space, hunknown]
  have hfirm : Firm (forWord ++ v :: c :: (plain l ++ '=' :: plain r)) :=
    ((firm_equation hend).append (plain l)).append (forWord ++ [v, c])
  rw [hshape] at hkeyless ⊢
  rw [canonical_solve hkeyless, hplain, (hfirm.append solveText).dropEndWhile_eq]

/-! ## The question -/

/-- The unknown that a text names is the one that is asked for, and no engine is needed. -/
theorem equation_of_parts {config : Config} {engine : Engine} (hv : isLetter v = true)
    (h : equationParts t = (l ++ '=' :: r, some v)) (s : Session) :
    equation engine config t s = (.ok (l ++ '=' :: r, .text [v]), s) := by
  have hvariable : variableOf config (some [v]) = .ok [v] := if_pos hv
  have hne : (l ++ '=' :: r).isEmpty = false := by simp
  simp only [equation, h, hne, hvariable]
  rfl

/-- **However the unknown of an equation is named, the same is asked for.** The equation is the plain
text of both sides, and the engine is not needed to find the unknown. -/
theorem equation_spelling (hv : isLetter v = true) (hl : Side l) (hr : Side r) (hend : EndsOpen r) :
    ∀ t ∈ spellings v l r, ∀ (engine : Engine) (config : Config) (s : Session),
      equation engine config (canonical t) s = (.ok (plain l ++ '=' :: plain r, .text [v]), s) := by
  have hlfor := nowhere_plain foreign_for hl.noFor
  have hrfor := nowhere_plain foreign_for hr.noFor
  have leading : ∀ c, c = ':' ∨ c = ',' → equationParts (canonical (leadingSpelling c v l r)) =
      (plain l ++ '=' :: plain r, some v) := by
    intro c hc
    rw [canonical_leadingSpelling hv hc hl.keyless hr.keyless hend,
      equationParts_leading hv hc hlfor hrfor]
  have trailing : equationParts (canonical (trailingSpelling v l r)) =
      (plain l ++ '=' :: plain r, some v) := by
    rw [canonical_trailingSpelling hv hl.keyless hr.keyless]
    refine equationParts_trailing hv (hlfor _ (List.suffix_refl _)) ?_ ?_
    · exact fun hm => hl.noColon (mem_of_mem_plain (by decide) hm)
    · exact fun hm => hl.noComma (mem_of_mem_plain (by decide) hm)
  intro t ht engine config s
  simp only [spellings, List.mem_cons, List.not_mem_nil, or_false] at ht
  rcases ht with rfl | rfl | rfl
  · exact equation_of_parts hv trailing s
  · exact equation_of_parts hv (leading ':' (.inl rfl)) s
  · exact equation_of_parts hv (leading ',' (.inr rfl)) s

/-- The unknown may be a letter of the words, and the sides may have letters and glyphs next to it. -/
theorem equation_spelling_f :
    let engine := Engine.ofReplies []
    let asked : Except Fault (Text × Value) := .ok ("rx^2+sqrtf=2*foo".toList, .text ['f'])
    equation engine .default (canonical "solve rx² + √f = 2 × f∞ for f".toList) .start =
        (asked, .start) ∧
      equation engine .default (canonical "solve for f: rx² + √f = 2 × f∞".toList) .start =
        (asked, .start) ∧
      equation engine .default (canonical "solve for f, rx² + √f = 2 × f∞".toList) .start =
        (asked, .start) := by
  have hl : Side "rx² + √f".toList :=
    ⟨by decide +kernel, by decide +kernel, by decide, by decide⟩
  have hr : Side "2 × f∞".toList :=
    ⟨by decide +kernel, by decide +kernel, by decide, by decide⟩
  have hend : EndsOpen "2 × f∞".toList := by
    have hlast : (trim "2 × f∞".toList).getLast? = some '∞' := by decide +kernel
    intro c hc
    rw [hlast] at hc
    obtain rfl := Option.some.inj hc
    decide
  have hplain : plain "rx² + √f".toList ++ '=' :: plain "2 × f∞".toList =
      "rx^2+sqrtf=2*foo".toList := by decide +kernel
  have hspellings : spellings 'f' "rx² + √f".toList "2 × f∞".toList =
      ["solve rx² + √f = 2 × f∞ for f".toList, "solve for f: rx² + √f = 2 × f∞".toList,
        "solve for f, rx² + √f = 2 × f∞".toList] := by decide +kernel
  have all := equation_spelling (v := 'f') (by decide) hl hr hend
  rw [hplain, hspellings] at all
  exact ⟨all _ List.mem_cons_self _ _ _, all _ (List.mem_cons_of_mem _ List.mem_cons_self) _ _ _,
    all _ (List.mem_cons_of_mem _ (List.mem_cons_of_mem _ List.mem_cons_self)) _ _ _⟩

end Question

end Stepwise
