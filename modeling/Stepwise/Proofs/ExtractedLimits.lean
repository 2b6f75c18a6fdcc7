import Stepwise.Proofs.Extracted
import Stepwise.Proofs.LimitForms

/-!
# Limits from images

All brackets of a text from an image are round before a phrasing is looked for, and behind "lim_" a
round bracket starts none. A target that was given in braces is lost in this way, whatever the limit
is.

Results: `canonical_tidy_limitBrace`, such a text is only made plain; and `braceForm_tidy`, typed it
asks for a limit, and from an image it does not.
-/

namespace Stepwise.Phrase

open Text Pattern Stepwise.Bracket

variable {v : Char} {a e r w y : Text}

/-- The text behind the brace is tidied by itself. -/
theorem tidy_limitBrace (h : Keyless r) :
    ∃ y, Keyless y ∧ tidy ("lim_\x7b".toList ++ r) = "lim_(".toList ++ y := by
  have hsqueeze : squeeze ("lim_\x7b".toList ++ r) = "lim_\x7b".toList ++ squeeze r :=
    squeeze_append_cons (by decide) "lim_".toList r
  have hoperations : tightOperations ("lim_\x7b".toList ++ squeeze r) =
      "lim_\x7b".toList ++ tightOperations (squeeze r) := tightOperations_append (forall_mem_of_all (by decide)) _
  have hequalities : ∀ s, tightEqualities ("lim_\x7b".toList ++ s) =
      "lim_\x7b".toList ++ tightEqualities s := tightEqualities_append (forall_mem_of_all (by decide))
  have htrim : ∀ s, trim ("lim_\x7b".toList ++ s) = "lim_\x7b".toList ++ dropEndWhile isBlank s :=
    fun s => dropEndWhile_append_cons (d := '\x7b') (by decide) "lim_".toList s
  have htight : tightText ("lim_\x7b".toList ++ r) =
      "lim_\x7b".toList ++ dropEndWhile isBlank (tighten (squeeze r)) := by
    rw [tightText, hsqueeze, hoperations, hequalities, htrim, tighten]
  have hkeyless : Keyless (tighten (squeeze r)) := (tightened_tighten _).keyless [] h.squeeze
  obtain ⟨x, hx, -⟩ := dropEndWhile_append isBlank (tighten (squeeze r))
  refine ⟨_, (hkeyless.within (l := []) hx).map_roundBracket, ?_⟩
  rw [tidy_eq_map, htight, List.map_append]
  rfl

/-- No variable stands right behind "lim_". -/
theorem limits_limitBracket (h : Keyless y) :
    limits ("lim_(".toList ++ y) = "lim_(".toList ++ y := by
  let named : Pattern Text := word "lim".toList >>= fun _ => blanks >>= fun _ =>
    optional (literal ['_']) >>= fun _ => blanks >>= fun _ => optional (literal ['\x7b']) >>= fun _ =>
      blanks >>= fun _ => arrowTarget
  have hnamed : ∀ t, named ("lim".toList ++ '_' :: '(' :: t) = [] := fun t =>
    (bind_of_eq (word_append (by decide) _)).trans rfl
  have hfront : Keyless "im_(".toList := by decide +kernel
  have hword : Nowhere (word "lim".toList) ("im_(".toList ++ y) :=
    (hfront.append h (.inl ⟨"im_".toList, '(', by decide, by decide⟩)).words _ (by decide)
  have hshape : "lim_(".toList ++ y = 'l' :: ("im_(".toList ++ y) := by simp
  have harrow : replaceAll arrowLimit ("lim_(".toList ++ y) = "lim_(".toList ++ y := by
    rw [hshape]
    refine Nowhere.replaceAll_eq fun last => .after (leavesEnd_guard _) fun _ => ?_
    exact nowhere_cons.mpr ⟨hnamed y, Nowhere.bind hword _⟩
  have hworded : replaceAll wordedLimit ("lim_(".toList ++ y) = "lim_(".toList ++ y := by
    rw [hshape]
    refine Nowhere.replaceAll_eq fun last => .after (leavesEnd_guard _) fun _ => ?_
    refine nowhere_cons.mpr ⟨rfl, Nowhere.bind (Nowhere.bind ?_ _) _⟩
    exact nowhere_word_append (k := "lim".toList) (l := "it".toList) hword
  rw [limits, harrow, hworded]

/-- **A limit with its target in braces is only made plain when it comes from an image.** -/
theorem canonical_tidy_limitBrace (h : Keyless r) :
    canonical (tidy ("lim_\x7b".toList ++ r)) =
      dropEndWhile endsSentence (plain ("lim_\x7b".toList ++ r)) := by
  obtain ⟨y, hy, ht⟩ := tidy_limitBrace h
  have hshape : "lim_(".toList ++ y = 'l' :: ("im_(".toList ++ y) := by simp
  have hsign : "lim_".toList ++ '(' :: y = "lim_(".toList ++ y := by simp
  have hbare : bare (tidy ("lim_\x7b".toList ++ r)) = "lim_(".toList ++ y := by
    refine bare_of_collapse ((collapse_tidy _).trans ht) ?_
    rw [hshape]
    exact instructionHead_of_head (by decide) _
  have hintegrals := integrals_limitFront (s := "lim_".toList) (c := '(') hy
    (keyless_limitFront _ (by simp)) ⟨"lim".toList, '_', by decide, by decide⟩ (by decide) (by decide)
  have hplain : ∀ t, plain (tidy t) = plain t := fun t => by
    rw [tidy_eq_map, plain_map_roundBracket, tightText, plain_trim]
    exact ((tightened_tighten (squeeze t)).plain_eq []).trans (plain_squeeze t)
  rw [hsign] at hintegrals
  rw [canonical_eq_plain, hbare, hintegrals, limits_limitBracket hy, ← ht, hplain]

/-- **Whatever limit is asked for with its target in braces, from an image it is not asked for.** -/
theorem braceForm_tidy (config : Config) (hv : isLetter v = true) (ha : Target a)
    (he : allBlank e = false) (hae : Argument e) (hk : Keyless e) (hw : w ∈ arrows) :
    AsksLimit config e a v ("lim_\x7b".toList ++ v :: (w ++ (a ++ '\x7d' :: ' ' :: e))) ∧
      ¬AsksLimit config e a v (tidy ("lim_\x7b".toList ++ v :: (w ++ (a ++ '\x7d' :: ' ' :: e)))) := by
  refine ⟨asksLimit_brace config hv ha he hae hk hw, fun h => ?_⟩
  have hend : Keyless ('\x7d' :: ' ' :: e) :=
    (hk.cons (by decide) (by decide)).cons (by decide) (by decide)
  have hrest : Keyless (a ++ '\x7d' :: ' ' :: e) :=
    ha.keyless.append hend (.inr ⟨[], '\x7d', ' ' :: e, rfl, by simp, by decide⟩)
  have hcanonical := canonical_tidy_limitBrace (hrest.arrow_cons hv hw)
  have hplain : ∀ t, plain ("lim_\x7b".toList ++ t) = "lim_".toList ++ '(' :: plain t :=
    plain_inert (b := '\x7b') (by decide) (by decide) "lim_".toList
  rw [hplain, dropEndWhile_append_cons (by decide)] at hcanonical
  have hcall := h.1
  rw [hcanonical] at hcall
  -- The fourth letter differs.
  exact absurd (congrArg (fun t => t[3]?) hcall) (by simp)

end Stepwise.Phrase
