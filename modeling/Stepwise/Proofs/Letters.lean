import Stepwise.Algebra.Engine
import Stepwise.Proofs.Lexicon

/-!
# Letters as variables

To the engine most letters are variables. The others are numbers (`e`, `E` and `I`) and functions
(`N`, `O`, `Q` and `S`), and a function is a variable only in a request about it. No word that is
reserved has a single letter.

Results: `scanned_letter` and `scanned_variable`, a letter that stands alone is read as a variable
if it means nothing else or if the request is about it; `read?_bound`, for a letter that means
nothing else it makes no difference whether the request is about it.
-/

namespace Stepwise.Formula

open Text

variable {c v : Char}

theorem toList_append_ofList {s : String} {t u : Text} (h : s.toList = t) :
    (s ++ String.ofList u).toList = t ++ u := by
  rw [String.toList_append, h, String.toList_ofList]

/-- The words of one letter. -/
def shortWords (words : List Text) : List Text := words.filter fun w => w.length == 1

theorem mem_shortWords {words : List Text} (h : [c] ∈ words) : [c] ∈ shortWords words :=
  List.mem_filter.mpr ⟨h, rfl⟩

theorem shortWords_splitOn {s : String} {t : Text} {words : List Text} (ht : s.toList = t)
    (h : shortWords (splitOn ' ' t) = words) : shortWords (splitOn ' ' s.toList) = words := by
  rw [ht, h]

theorem shortWords_keywords : shortWords keywords = [] := by
  unfold keywords
  apply shortWords_splitOn
  case ht =>
    iterate 2 apply toList_append_ofList
    exact String.toList_ofList
  case h => decide +kernel

set_option maxRecDepth 8000 in
theorem shortWords_otherNames : shortWords otherNames = [['N'], ['O'], ['Q']] := by
  unfold otherNames
  apply shortWords_splitOn
  case ht =>
    iterate 28 apply toList_append_ofList
    exact String.toList_ofList
  case h => decide +kernel

/-- The known names of one letter. -/
theorem shortWords_known : shortWords (Config.default.aliases.map Prod.fst) = [] ∧
    shortWords ((Names.added ++ Names.constants).map Prod.fst) = [['e'], ['E'], ['I']] ∧
    shortWords (functions.map Prod.fst) = [['S']] := by decide +kernel

theorem lookUp_letter {α : Type} {entries : List (Text × α)} {words : List Text}
    (hs : shortWords (entries.map Prod.fst) = words) (hc : [c] ∉ words) :
    Names.lookUp [c] entries = none := by
  rw [Names.lookUp, Option.map_eq_none_iff, List.find?_eq_none]
  intro p hp h
  exact hc (hs ▸ mem_shortWords (List.mem_map.mpr ⟨p, hp, of_decide_eq_true h⟩))

theorem contains_letter {words known : List Text} (hs : shortWords words = known)
    (hc : [c] ∉ known) : words.contains [c] = false := by
  rw [List.contains_eq_mem, decide_eq_false_iff_not]
  exact fun h => hc (hs ▸ mem_shortWords h)

/-- The letters that are variables to the engine, whatever a request is about. -/
def variableLetters : Text := "ABCDFGHJKLMPRTUVWXYZabcdfghijklmnopqrstuvwxyz".toList

/-- Without a variable of its own, a request takes a letter for no known name. -/
theorem find?_unbound (hc : c ∈ variableLetters) :
    (Algebra.names .default none).find? [c] = none := by
  have free : ∀ c ∈ variableLetters, [c] ∉ ([['e'], ['E'], ['I']] : List Text) ∧
      [c] ∉ ([['S']] : List Text) ∧ [c] ∉ ([['N'], ['O'], ['Q']] : List Text) :=
    forall_mem_of_all (by decide)
  obtain ⟨hadded, hfunctions, hother⟩ := free c hc
  obtain ⟨aliases, added, functions⟩ := shortWords_known
  simp only [Names.find?, Names.find?.rest, Algebra.names, lookUp_letter aliases List.not_mem_nil,
    lookUp_letter added hadded, lookUp_letter functions hfunctions,
    contains_letter shortWords_otherNames hother, Bool.false_eq_true, if_false]

/-- In a request about `x`, a letter is no known name, unless it is known as the variable. -/
theorem find?_letter (hc : c ∈ variableLetters) (x : Char) :
    (Algebra.names .default (some ⟨[x], .complex⟩)).find? [c] =
      if x = c then some (.term (.symbol ⟨[c], .complex⟩)) else none := by
  by_cases h : x = c
  · subst h
    rw [if_pos rfl]
    exact Names.bound_first _ _
  · have other : [x] ≠ [c] := fun hxc => h (List.singleton_inj.mp hxc)
    have rest := find?_unbound hc
    rw [if_neg h, ← rest]
    exact if_neg other

theorem ofName_letter (hc : c ∈ variableLetters) (x : Char) :
    Token.ofName (Algebra.names .default (some ⟨[x], .complex⟩)) [c] =
      some [.term (.symbol ⟨[c], .complex⟩)] := by
  have keyword := contains_letter (c := c) shortWords_keywords List.not_mem_nil
  have find := find?_letter hc x
  by_cases h : x = c
  · rw [if_pos h] at find
    simp only [Token.ofName, keyword, find, Bool.false_eq_true, if_false, Token.ofMeaning]
  · rw [if_neg h] at find
    exact Token.ofName_whole keyword find rfl

/-- The letters that are numbers or functions to the engine. -/
def knownLetters : Text := "EINOQSe".toList

/-- A letter in front of what is no part of a word is a piece of its own. -/
theorem scanFrom_name (hc : c ∈ variableLetters ++ knownLetters) {names : Names}
    {tokens : List Token} (h : Token.ofName names [c] = some tokens) {rest : Text}
    (hr : (rest.head?.map isWord).getD false = false) (fuel : Nat) :
    Token.scanFrom names (fuel + 1) (c :: rest) =
      (Token.scanFrom names fuel rest).map (tokens ++ ·) := by
  have plain : ∀ c ∈ variableLetters ++ knownLetters, ¬(c = ' ' ∨ c = '\t' ∨ c = '\x0c') ∧
      Token.isDigit c = false ∧ c ≠ '.' ∧ startsName c = true :=
    forall_mem_of_all (by decide)
  obtain ⟨blank, digit, point, word⟩ := plain c hc
  have alone : rest.takeWhile isWord = [] := by
    cases rest with
    | nil => rfl
    | cons d ds => exact List.takeWhile_cons_of_neg (by simpa using hr)
  rw [Token.scanFrom_cons, if_neg blank, if_neg (by simp [Token.startsNumber, digit, point]),
    if_pos word, alone, h]
  rfl

theorem scanned_name (hc : c ∈ variableLetters ++ knownLetters) {names : Names}
    {tokens : List Token} (h : Token.ofName names [c] = some tokens) {rest : Text}
    (hr : (rest.head?.map isWord).getD false = false) : Token.Scanned names [c] tokens rest :=
  ⟨1, Nat.le_refl 1, scanFrom_name hc h hr⟩

/-- **A letter in front of what is no part of a word is read as a variable.** -/
theorem scanned_letter (hc : c ∈ variableLetters) (x : Char) {rest : Text}
    (hr : (rest.head?.map isWord).getD false = false) :
    Token.Scanned (Algebra.names .default (some ⟨[x], .complex⟩)) [c]
      [.term (.symbol ⟨[c], .complex⟩)] rest :=
  scanned_name (List.mem_append_left _ hc) (ofName_letter hc x) hr

/-- In a request about a letter, the letter is read as the variable whatever it means elsewhere. -/
theorem scanned_variable {d : Domain} (hv : v ∈ variableLetters ++ knownLetters) {rest : Text}
    (hr : (rest.head?.map isWord).getD false = false) :
    Token.Scanned (Algebra.names .default (some ⟨[v], d⟩)) [v] [.term (.symbol ⟨[v], d⟩)] rest := by
  refine scanned_name hv ?_ hr
  have keyword := contains_letter (c := v) shortWords_keywords List.not_mem_nil
  have find : (Algebra.names .default (some ⟨[v], d⟩)).find? [v] = _ := Names.bound_first _ _
  simp only [Token.ofName, keyword, find, Bool.false_eq_true, if_false, Token.ofMeaning]

/-! ## With and without a variable -/

theorem find?_bound_of_ne {name : Text} (h : name ≠ [v]) :
    (Algebra.names .default (some ⟨[v], .complex⟩)).find? name =
      (Algebra.names .default none).find? name :=
  if_neg (Ne.symm h)

namespace Token

theorem ofLetter_bound (hv : v ∈ variableLetters) (c : Char) :
    ofLetter (Algebra.names .default (some ⟨[v], .complex⟩)) c =
      ofLetter (Algebra.names .default none) c := by
  by_cases h : c = v
  · subst h
    rw [ofLetter, find?_letter hv, if_pos rfl, ofLetter, find?_unbound hv]
    rfl
  · rw [ofLetter, find?_bound_of_ne fun same => h (List.singleton_inj.mp same), ofLetter]

theorem splitName_bound (hv : v ∈ variableLetters) (fuel : Nat) (t : Text) :
    splitName (Algebra.names .default (some ⟨[v], .complex⟩)) fuel t =
      splitName (Algebra.names .default none) fuel t := by
  have notDigit : ∀ c ∈ variableLetters, isAnyDigit c = false := forall_mem_of_all (by decide)
  induction fuel generalizing t with
  | zero => cases t <;> rfl
  | succ fuel ih =>
    cases t with
    | nil => rfl
    | cons c cs =>
      have digits : (isAnyDigit c &&
          ((Algebra.names .default (some ⟨[v], .complex⟩)).find? [c]).isNone) =
            (isAnyDigit c && ((Algebra.names .default none).find? [c]).isNone) := by
        by_cases h : c = v
        · rw [h, notDigit v hv]
          rfl
        · rw [find?_bound_of_ne fun same => h (List.singleton_inj.mp same)]
      simp only [splitName, digits, ofLetter_bound hv, ih]

theorem ofName_bound (hv : v ∈ variableLetters) (name : Text) :
    ofName (Algebra.names .default (some ⟨[v], .complex⟩)) name =
      ofName (Algebra.names .default none) name := by
  by_cases h : name = [v]
  · subst h
    have keyword := contains_letter (c := v) shortWords_keywords List.not_mem_nil
    rw [ofName_letter hv v, ofName_whole keyword (find?_unbound hv) rfl]
  · rw [ofName, ofName, find?_bound_of_ne h, splitName_bound hv]

theorem scanFrom_bound (hv : v ∈ variableLetters) (fuel : Nat) (t : Text) :
    scanFrom (Algebra.names .default (some ⟨[v], .complex⟩)) fuel t =
      scanFrom (Algebra.names .default none) fuel t := by
  induction fuel generalizing t with
  | zero => cases t <;> rfl
  | succ fuel ih =>
    cases t with
    | nil => rfl
    | cons c cs => simp only [scanFrom_cons, ofName_bound hv, ih]

end Token

/-- **For a letter that means nothing else it makes no difference whether a request is about it.** -/
theorem read?_bound (hv : v ∈ variableLetters) (t : Text) :
    read? (Algebra.names .default (some ⟨[v], .complex⟩)) t = read? (Algebra.names .default none) t := by
  have scan : Token.scan (Algebra.names .default (some ⟨[v], .complex⟩)) t =
      Token.scan (Algebra.names .default none) t := Token.scanFrom_bound hv _ _
  rw [read?, read?, scan]

theorem evaluate_bound (hv : v ∈ variableLetters) (t : Text) :
    evaluate (Algebra.names .default (some ⟨[v], .complex⟩)) t =
      evaluate (Algebra.names .default none) t := by
  rw [evaluate, evaluate, read?_bound hv]

end Stepwise.Formula
