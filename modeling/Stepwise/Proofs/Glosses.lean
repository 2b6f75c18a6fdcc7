import Mathlib.Data.List.Infix
import Stepwise.Proofs.Forms
import Stepwise.Proofs.Operators

/-!
# Words in plain texts

A text is made plain by putting other texts, the glosses, for some of its pieces. A gloss can be part
of a word, as the one for `∞` is in `room`; but there are few of them, and a word into which none of
them fits (`Foreign`) comes into being only if the blanks between its letters go.

Results: `nowhere_plain`, no such word comes into being, and `mem_of_mem_plain`, nor does a character
that is in no gloss.
-/

namespace Stepwise.Phrase

open Text Pattern

variable {c : Char} {new s t w : Text}

/-- What is put for glyphs. -/
def glosses : List Text :=
  [['*'], ['-'], ['/'], ['^'], ['^', '2'], ['^', '3'], "sqrt".toList, "pi".toList, "oo".toList,
    ['('], [')']]

/-- The second text comes of the first when glosses are put for some of its pieces. -/
inductive Glossed : Text → Text → Prop
  | nil : Glossed [] []
  | keep (c : Char) {s t : Text} : Glossed s t → Glossed (c :: s) (c :: t)
  | put (u : Text) {new s t : Text} : new ∈ glosses → Glossed s t → Glossed (u ++ s) (new ++ t)

/-! ## The steps -/

theorem glossed_flatMap {g : Char → Text} (hg : ∀ c, g c = [c] ∨ g c ∈ glosses) :
    ∀ t : Text, Glossed t (t.flatMap g)
  | [] => .nil
  | c :: cs => by
    rw [List.flatMap_cons]
    rcases hg c with hc | hc
    · rw [hc]
      exact .keep c (glossed_flatMap hg cs)
    · exact .put [c] hc (glossed_flatMap hg cs)

theorem glossed_map {f : Char → Char} (hf : ∀ c, f c = c ∨ [f c] ∈ glosses) (t : Text) :
    Glossed t (t.map f) := by
  rw [List.map_eq_flatMap]
  exact glossed_flatMap (fun c => (hf c).imp_left fun hc => by rw [hc]) t

theorem glossed_replaceFrom {p : Option Char → Pattern Text}
    (hp : ∀ last, Reads (p last) fun u new => u ≠ [] ∧ new ∈ glosses) :
    ∀ (t : Text) (last : Option Char) (skip : Nat), Glossed (t.drop skip) (replaceFrom p last skip t)
  | [], _, skip => by cases skip <;> exact .nil
  | c :: cs, _, skip + 1 => by
    rw [replaceFrom, List.drop_succ_cons]
    exact glossed_replaceFrom hp cs _ skip
  | c :: cs, last, 0 => by
    rw [List.drop_zero, replaceFrom]
    cases h : (p last).best? (c :: cs) with
    | none => exact .keep c (glossed_replaceFrom hp cs (some c) 0)
    | some x =>
      obtain ⟨u, he, hu, hnew⟩ := hp last _ _ _ (mem_of_best? h)
      obtain ⟨d, u, rfl⟩ := List.exists_cons_of_ne_nil hu
      obtain ⟨rfl, hcs⟩ := List.cons.inj he
      have hd : cs.drop (cs.length - x.2.length) = x.2 := by
        rw [hcs, List.append_eq, List.length_append, Nat.add_sub_cancel, List.drop_left]
      have ih := glossed_replaceFrom hp cs (some c) (cs.length - x.2.length)
      rw [hd] at ih
      dsimp only
      rw [he]
      exact .put (c :: u) hnew ih

/-- **What every gloss keeps, the steps of a plain text keep.** -/
theorem plainGlyphs_induction {P : Text → Prop} (h : ∀ s t, Glossed s t → P s → P t) (ht : P t) :
    P (plainGlyphs t) := by
  have times : ∀ c, plainTimes c = c ∨ [plainTimes c] ∈ glosses := by
    intro c
    unfold plainTimes
    split
    · exact .inr (by decide)
    · exact .inl rfl
  have sign : ∀ c, plainSign c = c ∨ [plainSign c] ∈ glosses := by
    intro c
    unfold plainSign
    split
    · exact .inr (by decide)
    · split
      · exact .inr (by decide)
      · exact .inl rfl
  have glyph : ∀ c, plainGlyph c = [c] ∨ plainGlyph c ∈ glosses := by
    intro c
    by_cases hc : c ∈ spelledGlyphs
    · exact .inr (forall_mem_of_all (p := fun c => plainGlyph c ∈ glosses) (by decide) c hc)
    · exact .inl (plainGlyph_of_not_mem hc)
  have cross := fun last => (reads_crossBetweenDigits last).mono
    (Q := fun u new => u ≠ [] ∧ new ∈ glosses) fun _ _ ⟨hn, hu, _⟩ => ⟨hu, by rw [hn]; decide⟩
  have star := reads_doubleStar.mono (Q := fun u new => u ≠ [] ∧ new ∈ glosses)
    fun _ _ ⟨hn, hu⟩ => by rw [hn, hu]; decide
  rw [plainGlyphs_eq]
  refine h _ _ (glossed_flatMap glyph _) (h _ _ (glossed_replaceFrom (fun _ => star) _ none 0) ?_)
  exact h _ _ (glossed_map sign _) (h _ _ (glossed_replaceFrom cross _ none 0)
    (h _ _ (glossed_map times _) ht))

/-! ## Characters -/

theorem Glossed.mem_of_mem (h : Glossed s t) (hc : ∀ new ∈ glosses, c ∉ new) (hm : c ∈ t) :
    c ∈ s := by
  induction h with
  | nil => exact hm
  | keep d _ ih =>
    rcases List.mem_cons.mp hm with rfl | hm
    · exact List.mem_cons_self
    · exact List.mem_cons_of_mem d (ih hm)
  | put u hnew _ ih =>
    exact List.mem_append_right u (ih ((List.mem_append.mp hm).resolve_left (hc _ hnew)))

/-- **No character comes into being that is in no gloss.** -/
theorem mem_of_mem_plain (hc : ∀ new ∈ glosses, c ∉ new) (h : c ∈ plain t) : c ∈ t := by
  have key : c ∈ plainGlyphs t → c ∈ t :=
    plainGlyphs_induction (P := fun s => c ∈ s → c ∈ t)
      (fun _ _ hg ih hm => ih (hg.mem_of_mem hc hm)) id
  exact key (List.mem_filter.mp h).1

/-! ## Words -/

/-- The gloss is neither part of the word nor does it go over into it, whatever stands around. -/
structure Foreign (w new : Text) : Prop where
  blankless : Blankless new
  /-- The word does not go on with the gloss. -/
  after : ∀ q, q <:+ w → q ≠ [] → ∀ x, word q (new ++ x) = []
  /-- The word does not begin in the gloss. -/
  before : ∀ u, u <:+ new → u ≠ [] → ∀ x, word w (u ++ x) = []

/-- The word and the text differ in a character. -/
def clash : Text → Text → Bool
  | p :: ps, c :: cs => !sameLetter p c || clash ps cs
  | _, _ => false

theorem word_append_of_clash : ∀ {w u : Text}, clash w u = true → ∀ x, word w (u ++ x) = []
  | p :: ps, c :: cs, h, x => by
    rw [clash, Bool.or_eq_true, Bool.not_eq_true'] at h
    unfold word
    dsimp only [List.cons_append]
    split
    next hs => exact word_append_of_clash (h.resolve_left fun hn => Bool.false_ne_true (hn ▸ hs)) x
    next => rfl

/-- Does the gloss clash with the word wherever they overlap? -/
def isForeign (w new : Text) : Bool :=
  (new.all fun c => !isBlank c) && (w.tails.all fun q => q.isEmpty || clash q new) &&
    new.tails.all fun u => u.isEmpty || clash w u

theorem foreign_of_isForeign (h : isForeign w new = true) : Foreign w new := by
  rw [isForeign, Bool.and_eq_true, Bool.and_eq_true, List.all_eq_true, List.all_eq_true,
    List.all_eq_true] at h
  obtain ⟨⟨hblank, hafter⟩, hbefore⟩ := h
  have clashing : ∀ {q : Text} {b : Bool}, (q.isEmpty || b) = true → q ≠ [] → b = true :=
    fun h hn => ((Bool.or_eq_true _ _).mp h).resolve_left fun he => hn (List.isEmpty_iff.mp he)
  refine ⟨fun c hc => (Bool.not_eq_true' _).mp (hblank c hc), fun q hq hn => ?_, fun u hu hn => ?_⟩
  · exact word_append_of_clash (clashing (hafter q ((List.mem_tails q w).mpr hq)) hn)
  · exact word_append_of_clash (clashing (hbefore u ((List.mem_tails u new).mpr hu)) hn)

theorem removeBlanks_cons_of_blank (hc : isBlank c = true) (t : Text) :
    removeBlanks (c :: t) = removeBlanks t := List.filter_cons_of_neg (by rw [hc]; decide)

theorem removeBlanks_cons_of_not_blank (hc : isBlank c = false) (t : Text) :
    removeBlanks (c :: t) = c :: removeBlanks t := List.filter_cons_of_pos (by rw [hc]; rfl)

theorem removeBlanks_gloss_append (h : Foreign w new) (t : Text) :
    removeBlanks (new ++ t) = new ++ removeBlanks t := by
  rw [removeBlanks_append, h.blankless.removeBlanks_eq]

section Words

variable (hw : ∀ new ∈ glosses, Foreign w new)
include hw

/-- What is not the rest of the word in front of a text is not so when glosses are put in. -/
theorem Glossed.word_eq_nil (h : Glossed s t) : ∀ q, q <:+ w → word q (removeBlanks s) = [] →
    word q (removeBlanks t) = [] := by
  induction h with
  | nil => exact fun _ _ h => h
  | @keep c s t _ ih =>
    intro q hq h
    cases hc : isBlank c with
    | true =>
      rw [removeBlanks_cons_of_blank hc] at h ⊢
      exact ih q hq h
    | false =>
      rw [removeBlanks_cons_of_not_blank hc] at h ⊢
      cases q with
      | nil => exact absurd h (List.cons_ne_nil _ _)
      | cons p ps =>
        unfold word at h ⊢
        dsimp only at h ⊢
        split at h
        next hs =>
          rw [if_pos hs]
          exact ih ps ((List.suffix_cons p ps).trans hq) h
        next hs => rw [if_neg hs]
  | @put u new s t hnew _ _ =>
    intro q hq h
    cases q with
    | nil => exact absurd h (List.cons_ne_nil _ _)
    | cons p ps =>
      rw [removeBlanks_gloss_append (hw new hnew)]
      exact (hw new hnew).after _ hq (List.cons_ne_nil _ _) _

/-- A word into which no gloss fits is not brought about by glosses. -/
theorem Glossed.nowhere (h : Glossed s t) (hs : Nowhere (word w) (removeBlanks s)) :
    Nowhere (word w) (removeBlanks t) := by
  induction h with
  | nil => exact hs
  | @keep c s t hg ih =>
    have hhead := (Glossed.keep c hg).word_eq_nil hw w (List.suffix_refl w)
    cases hc : isBlank c with
    | true =>
      rw [removeBlanks_cons_of_blank hc] at hs ⊢
      exact ih hs
    | false =>
      rw [removeBlanks_cons_of_not_blank hc, removeBlanks_cons_of_not_blank hc] at hhead
      rw [removeBlanks_cons_of_not_blank hc] at hs ⊢
      obtain ⟨hfront, hrest⟩ := nowhere_cons.mp hs
      exact nowhere_cons.mpr ⟨hhead hfront, ih hrest⟩
  | @put u new s t hnew _ ih =>
    rw [removeBlanks_append] at hs
    have hrest := ih (hs.of_suffix (List.suffix_append _ _))
    rw [removeBlanks_gloss_append (hw new hnew)]
    refine nowhere_append_iff.mpr ⟨fun v hv => ?_, hrest⟩
    by_cases hn : v = []
    · rw [hn]
      exact hrest _ (List.suffix_refl _)
    · exact (hw new hnew).before v hv hn _

/-- **A word into which no gloss fits is in a plain text only if it is in the text without blanks.** -/
theorem nowhere_plain (h : Nowhere (word w) (removeBlanks t)) : Nowhere (word w) (plain t) :=
  plainGlyphs_induction (P := fun s => Nowhere (word w) (removeBlanks s))
    (fun _ _ hg hs => hg.nowhere hw hs) h

end Words

end Stepwise.Phrase
