import Stepwise.Proofs.Extracted
import Stepwise.Proofs.LongNumerals
import Stepwise.Proofs.Matching
import Stepwise.Proofs.Pieces

/-!
# Parentheses around a text and around its tree

Whether a text is in one pair of parentheses is seen by counting them, and whether an expression is by
its tree. The two agree on every text that has a tree: what a rule of the grammar takes closes the
parentheses that it opens (`Closed`), and no piece of a text but a sign has a parenthesis in it
(`Cuts.depthAfter_eq`), so that the first parenthesis is closed where its content ends. What follows
then is nothing if the tree is a parenthesis, and something if it is not (`Additive.opened`).

Results: `wrapped_or_not`, what a text that is wrapped is made of; and `read_unwrapped`, the text
without the parentheses around it has the tree without them.
-/

namespace Stepwise

open Text Phrase

/-! ## The bracket that is counted to -/

namespace Bracket

variable {b w : Text}

theorem not_bracket {p : Char → Bool} (hp : "()".toList.all (fun c => !p c) = true) {c : Char}
    (hc : p c = true) : c ∉ "()".toList := by
  intro hm
  have := List.all_eq_true.mp hp c hm
  rw [hc] at this
  exact Bool.false_ne_true this

/-- What has no bracket leaves as many open as were open before. -/
theorem depthAfter_of_no_bracket (hw : ∀ c ∈ w, c ∉ "()".toList) (n : Nat) :
    depthAfter n w = some n := by
  induction w with
  | nil => rfl
  | cons c cs ih =>
    obtain ⟨hc, hcs⟩ := List.forall_mem_cons.mp hw
    have ho : c ≠ '(' := fun h => hc (h ▸ by decide)
    have hcl : c ≠ ')' := fun h => hc (h ▸ by decide)
    rw [depthAfter_cons, depthStep_other ho hcl]
    exact ih hcs

/-- With one more bracket open in front of a text, one more is open behind it. -/
theorem depthAfter_succ : ∀ {t : Text} {n m : Nat}, depthAfter n t = some m →
    depthAfter (n + 1) t = some (m + 1)
  | [], _, _, h => congrArg (Option.map (· + 1)) h
  | c :: cs, n, m, h => by
    obtain ⟨k, hk, h⟩ := depthAfter_cons_eq_some.mp h
    refine depthAfter_cons_eq_some.mpr ⟨k + 1, ?_, depthAfter_succ h⟩
    rcases depthStep_cases hk with ⟨rfl, rfl⟩ | ⟨rfl, rfl⟩ | ⟨ho, hc, rfl⟩
    · rfl
    · rfl
    · exact depthStep_other ho hc _

/-- What is in balance can be put into brackets. -/
theorem Balanced.enclose (hb : Balanced b) : Balanced ('(' :: (b ++ [')'])) := by
  have : depthAfter 1 (b ++ [')']) = some 0 := by
    rw [depthAfter_append, depthAfter_succ hb]
    rfl
  exact this

/-- A text is wrapped if nothing follows the bracket that closes its first one. -/
theorem isWrapped_balanced (hb : Balanced b) (r : Text) :
    isWrapped ('(' :: (b ++ ')' :: r)) = true ↔ r = [] := by
  have henclosed : enclosed 0 (b ++ ')' :: r) = some b :=
    (enclosed_append _ hb).trans (congrArg some (List.append_nil b))
  rw [enclosed_eq_closingFrom] at henclosed
  obtain ⟨j, hj, htake⟩ := Option.map_eq_some_iff.mp henclosed
  have hlength : j = b.length := by
    rw [← htake, List.length_take_of_le (Nat.le_of_lt (closingFrom_lt hj))]
  have hclosed : isWrapped ('(' :: (b ++ ')' :: r)) = closesAtEnd 1 (b ++ ')' :: r) := rfl
  rw [hclosed, closesAtEnd_iff, hj, hlength, ← List.length_eq_zero_iff]
  simp

end Bracket

/-! ## Parentheses among tokens -/

namespace Token

/-- The signs among some tokens. -/
def signsOf (tokens : List Token) : Text :=
  tokens.filterMap fun
    | .sign c => some c
    | _ => none

variable {t : Text} {toks tokens us : List Token}

theorem signsOf_append (ts us : List Token) : signsOf (ts ++ us) = signsOf ts ++ signsOf us :=
  List.filterMap_append

open Stepwise.Bracket in
theorem depthAfter_of_lexeme? {l : Lexeme} (h : lexeme? t = some l) (n : Nat) :
    depthAfter n l.written = depthAfter n (signsOf l.token.toList) := by
  obtain ⟨w, _ | tok⟩ := l
  · exact depthAfter_of_no_bracket
      (fun c hc => not_bracket (by decide) (isBlank_of_lexeme? h c hc)) n
  cases tok with
  | number s =>
    obtain ⟨rfl, -, rfl⟩ := number_of_lexeme? h
    have digit : ∀ c, isDigit c = true → c ∉ "()".toList := fun c => not_bracket (by decide)
    exact depthAfter_of_no_bracket
      (forall_mem_numberPart digit (forall_mem_of_all (by decide)) t) n
  | name s =>
    obtain ⟨rfl, -, rfl⟩ := name_of_lexeme? h
    exact depthAfter_of_no_bracket
      (fun c hc => not_bracket (by decide) (isAlphanum_of_mem_namePart hc)) n
  | sign c =>
    rcases sign_of_lexeme? h with ⟨rfl, rfl⟩ | ⟨rfl, -⟩ <;> rfl

/-- **The parentheses of a text are those among its tokens.** -/
theorem Cuts.depthAfter_eq (h : Cuts t tokens) (n : Nat) :
    Bracket.depthAfter n t = Bracket.depthAfter n (signsOf tokens) := by
  induction h generalizing n with
  | nil => rfl
  | @cons t l tokens hl _ ih =>
    have happ := Bracket.depthAfter_append n l.written (t.drop l.written.length)
    rw [lexeme?_append hl] at happ
    rw [happ, signsOf_append, Bracket.depthAfter_append, depthAfter_of_lexeme? hl]
    exact congrArg _ (funext ih)

/-! ## Texts and their first parenthesis -/

theorem Cuts.unique (h : Cuts t tokens) (h' : Cuts t toks) : tokens = toks :=
  Except.ok.inj ((scan_eq_ok.mpr h).symm.trans (scan_eq_ok.mpr h'))

/-- A text without tokens is empty, if there is no blank at its end. -/
theorem Cuts.eq_nil (h : Cuts t []) (hend : NoBlankEnd t) : t = [] := by
  by_contra hne
  have hblank := List.filter_eq_nil_iff.mp (removeBlanks_of_cuts_nil h rfl) _ (List.getLast_mem hne)
  exact hblank (by simp [hend _ (List.getLast?_eq_some_getLast hne)])

theorem Cuts.of_open {r : Text} (h : Cuts ('(' :: r) tokens) :
    ∃ us, tokens = .sign '(' :: us ∧ Cuts r us :=
  h.exists_rest (lexeme?_sign (by decide) fun h => absurd h (by decide))

/-- A token that is a parenthesis is a character of the text. -/
theorem Cuts.exists_of_sign {c : Char} (h : Cuts t (.sign c :: us)) (hc : c ≠ '^') :
    ∃ b r, t = b ++ c :: r ∧ (∀ d ∈ b, isBlank d = true) ∧ Cuts r us := by
  obtain ⟨b, w, r, rfl, hb, hw, hr, -⟩ := h.exists_first rfl
  rcases sign_of_lexeme? hw with ⟨-, he⟩ | ⟨rfl, -⟩
  · exact absurd he hc
  · exact ⟨b, r, rfl, hb, hr⟩

/-- A parenthesis that is the first token is the first character, if the text is trimmed. -/
theorem Cuts.exists_open (h : Cuts t (.sign '(' :: us)) (ht : Text.trim t = t) :
    ∃ r, t = '(' :: r ∧ Cuts r us := by
  obtain ⟨b, r, he, hb, hr⟩ := h.exists_of_sign (by decide)
  cases b with
  | nil => exact ⟨r, he, hr⟩
  | cons d b => exact absurd (hb d List.mem_cons_self) (head_trim (ht.trans he))

theorem Cuts.exists_close : ∀ {ts : List Token} {t : Text}, Cuts t (ts ++ .sign ')' :: us) →
    ∃ a r, t = a ++ ')' :: r ∧ Cuts r us
  | [], t, h => by
    obtain ⟨b, r, rfl, -, hr⟩ := Cuts.exists_of_sign h (by decide)
    exact ⟨b, r, rfl, hr⟩
  | tok :: ts, t, h => by
    obtain ⟨b, w, r, rfl, -, -, hr, -⟩ := h.exists_first rfl
    obtain ⟨a, r', rfl, hr'⟩ := Cuts.exists_close hr
    exact ⟨b ++ (w ++ a), r', by simp, hr'⟩

/-- A text is cut in two at a closing parenthesis. -/
theorem Cuts.split_close {ts : List Token} (h : Cuts t (ts ++ .sign ')' :: us)) :
    ∃ a r, t = a ++ ')' :: r ∧ Cuts a ts ∧ Cuts r us := by
  obtain ⟨a, r, rfl, hr⟩ := h.exists_close
  have hclose : Cuts (')' :: r) (.sign ')' :: us) :=
    .append (w := [')']) (lexeme?_sign (by decide) fun h => absurd h (by decide)) hr
  obtain ⟨ts', us', he, ha, hr'⟩ := h.unsplice (breaks_cons (by decide) r)
  obtain rfl := hclose.unique hr'
  exact ⟨a, r, rfl, List.append_cancel_right he ▸ ha, hr⟩

theorem Cuts.dropWhile (h : Cuts t tokens) : Cuts (t.dropWhile isBlank) tokens := by
  cases t with
  | nil => exact h
  | cons c cs =>
    by_cases hc : isBlank c = true
    · have hl := lexeme?_blank (r := cs) hc
      obtain ⟨rest, rfl, hrest⟩ := h.exists_rest hl
      rwa [drop_of_blanks hl] at hrest
    · rwa [List.dropWhile_cons_of_neg hc]

/-- The tokens of a text stay when it is trimmed. -/
theorem Cuts.trim (h : Cuts t tokens) : Cuts (trim t) tokens := by
  obtain ⟨r, he, hr⟩ := dropEndWhile_append isBlank (t.dropWhile isBlank)
  have hcuts := h.dropWhile
  rw [he] at hcuts
  obtain ⟨ts, us, rfl, ht, hus⟩ := hcuts.unsplice (breaks_of_blanks hr)
  have hnil : Cuts r [] := by
    have := Cuts.blanks hr .nil
    rwa [List.append_nil] at this
  rw [hus.unique hnil, List.append_nil]
  exact ht

end Token

namespace Grammar

open Stepwise.Tree Stepwise.Bracket Token

variable {F : List Text} {ts us vs : List Token} {c t : Tree}

/-- What is taken of `ts` up to `us` closes the parentheses that it opens. -/
def Closed (ts us : List Token) : Prop := ∃ d, ts = d ++ us ∧ Balanced (signsOf d)

namespace Closed

theorem trans (h : Closed ts us) (h' : Closed us vs) : Closed ts vs := by
  obtain ⟨d, rfl, hd⟩ := h
  obtain ⟨e, rfl, he⟩ := h'
  refine ⟨d ++ e, (List.append_assoc d e vs).symm, ?_⟩
  rw [signsOf_append]
  exact hd.append he

theorem number (s : Text) (us : List Token) : Closed (.number s :: us) us := ⟨[_], rfl, rfl⟩

theorem name (s : Text) (us : List Token) : Closed (.name s :: us) us := ⟨[_], rfl, rfl⟩

theorem sign {c : Char} (hc : c ∉ "()".toList) (us : List Token) : Closed (.sign c :: us) us :=
  ⟨[.sign c], rfl, depthAfter_of_no_bracket (List.forall_mem_singleton.mpr hc) 0⟩

theorem operator (op : Operator) (us : List Token) : Closed (.sign op.sign :: us) us :=
  sign (by cases op <;> decide) us

theorem enclose (h : Closed us (.sign ')' :: vs)) : Closed (.sign '(' :: us) vs := by
  obtain ⟨d, rfl, hd⟩ := h
  refine ⟨.sign '(' :: (d ++ [.sign ')']), by simp, ?_⟩
  have : signsOf (.sign '(' :: (d ++ [.sign ')'])) = '(' :: (signsOf d ++ [')']) :=
    congrArg ('(' :: ·) (signsOf_append d _)
  rw [this]
  exact hd.enclose

end Closed

mutual

theorem Additive.closed : ∀ {ts us : List Token} {t : Tree}, Additive F ts us t → Closed ts us
  | _, _, _, .one h => h.closed
  | _, _, _, .more _ hl hr => hl.closed.trans ((Closed.operator _ _).trans hr.closed)

theorem Multiplicative.closed : ∀ {ts us : List Token} {t : Tree}, Multiplicative F ts us t →
    Closed ts us
  | _, _, _, .one h => h.closed
  | _, _, _, .more _ hl hr => hl.closed.trans ((Closed.operator _ _).trans hr.closed)
  | _, _, _, .implied hl _ hr => hl.closed.trans hr.closed

theorem Signed.closed : ∀ {ts us : List Token} {t : Tree}, Signed F ts us t → Closed ts us
  | _, _, _, .minus h => (Closed.sign (by decide) _).trans h.closed
  | _, _, _, .bare h => h.closed

theorem Power.closed : ∀ {ts us : List Token} {t : Tree}, Power F ts us t → Closed ts us
  | _, _, _, .bare h => h.closed
  | _, _, _, .raised hb he => hb.closed.trans ((Closed.sign (by decide) _).trans he.closed)

theorem Primary.closed : ∀ {ts us : List Token} {t : Tree}, Primary F ts us t → Closed ts us
  | _, _, _, .number _ => .number _ _
  | _, _, _, .name _ => .name _ _
  | _, _, _, .call _ h => (Closed.name _ _).trans h.closed.enclose
  | _, _, _, .parenthesis h => h.closed.enclose

theorem Arguments.closed : ∀ {ts us : List Token} {args : List Tree}, Arguments F ts us args →
    Closed ts us
  | _, _, _, .last h => h.closed
  | _, _, _, .more h hs => h.closed.trans ((Closed.sign (by decide) _).trans hs.closed)

end

/-! ## The first operand -/

/-- The first operand `p`, which goes on to `ws`, is all of `t`, which goes on to `vs`; or more is taken
and `t` is no parenthesis. -/
def Leads (ws vs : List Token) (p t : Tree) : Prop :=
  ws = vs ∧ p = t ∨ After vs ws ∧ ∀ c, t ≠ .parenthesis c

/-- After an operand, more is taken. -/
theorem Leads.more {ws : List Token} {p l : Tree} (h : Leads ws us p l) (hv : After vs us)
    (ht : ∀ c, t ≠ .parenthesis c) : Leads ws vs p t := by
  rcases h with ⟨rfl, -⟩ | ⟨h, -⟩
  · exact .inr ⟨hv, ht⟩
  · exact .inr ⟨hv.trans h, ht⟩

/-- Without a minus sign in front, an operand comes first. -/
theorem Power.first (h : Power F ts vs t) : ∃ ws p, Primary F ts ws p ∧ Leads ws vs p t := by
  cases h with
  | bare h => exact ⟨_, _, h, .inl ⟨rfl, rfl⟩⟩
  | raised hb he =>
    exact ⟨_, _, hb, Leads.more (.inl ⟨rfl, rfl⟩) (he.after.cons _) fun _ => nofun⟩

theorem Signed.first (h : Signed F ts vs t) (hts : ts.head? ≠ some (.sign '-')) :
    ∃ ws p, Primary F ts ws p ∧ Leads ws vs p t := by
  cases h with
  | minus h => exact absurd rfl hts
  | bare h => exact h.first

theorem Multiplicative.first : ∀ {ts vs : List Token} {t : Tree}, Multiplicative F ts vs t →
    ts.head? ≠ some (.sign '-') → ∃ ws p, Primary F ts ws p ∧ Leads ws vs p t
  | _, _, _, .one h, hts => h.first hts
  | _, _, _, .more _ hl hr, hts =>
    have ⟨ws, p, hp, h⟩ := hl.first hts
    ⟨ws, p, hp, h.more (hr.after.cons _) fun _ => nofun⟩
  | _, _, _, .implied hl _ hr, hts =>
    have ⟨ws, p, hp, h⟩ := hl.first hts
    ⟨ws, p, hp, h.more hr.after fun _ => nofun⟩

theorem Additive.first : ∀ {ts vs : List Token} {t : Tree}, Additive F ts vs t →
    ts.head? ≠ some (.sign '-') → ∃ ws p, Primary F ts ws p ∧ Leads ws vs p t
  | _, _, _, .one h, hts => h.first hts
  | _, _, _, .more _ hl hr, hts =>
    have ⟨ws, p, hp, h⟩ := hl.first hts
    ⟨ws, p, hp, h.more (hr.after.cons _) fun _ => nofun⟩

/-- What is read up to a closing parenthesis can be read by itself. -/
theorem Additive.inside (h : Additive F us (.sign ')' :: vs) c) :
    ∃ d, us = d ++ .sign ')' :: vs ∧ Balanced (signsOf d) ∧ Derives F d c := by
  obtain ⟨d, -, rfl, hread⟩ := h.stretch
  obtain ⟨e, he, hbalanced⟩ := h.closed
  obtain rfl := List.append_cancel_right he
  have hderives := hread [] ⟨fun hopen => absurd hopen (by simp), rfl⟩
  rw [List.append_nil] at hderives
  exact ⟨d, rfl, hbalanced, hderives⟩

/-- **An expression that begins with a parenthesis** is the parenthesis, or it goes on behind it. -/
theorem Additive.opened (h : Additive F (.sign '(' :: us) vs t) :
    ∃ d ws c, us = d ++ .sign ')' :: ws ∧ Balanced (signsOf d) ∧ Derives F d c ∧
      Leads ws vs (.parenthesis c) t := by
  obtain ⟨ws, p, hp, hleads⟩ := h.first (by simp)
  cases hp with
  | parenthesis hc =>
    obtain ⟨d, hd, hbalanced, hderives⟩ := hc.inside
    exact ⟨d, ws, _, hd, hbalanced, hderives, hleads⟩

theorem Additive.head_of_parenthesis (h : Additive F ts us (.parenthesis c)) :
    ts.head? = some (.sign '(') := by
  cases h with
  | one h =>
    cases h with
    | one h =>
      cases h with
      | bare h =>
        cases h with
        | bare h =>
          cases h with
          | parenthesis => rfl

end Grammar

namespace Tree

open Grammar Stepwise.Bracket Token

/-- The tree without the parentheses around all of it. -/
def stripped : Tree → Tree
  | parenthesis content => content.stripped
  | t => t

variable {F : List Text} {tokens : List Token} {t : Text} {tree : Tree}

theorem stripped_of_ne (h : ∀ c, tree ≠ .parenthesis c) : tree.stripped = tree := by
  cases tree with
  | parenthesis c => exact absurd rfl (h c)
  | _ => rfl

theorem read_eq_ok_iff : read F t = .ok tree ↔ ∃ tokens, Cuts t tokens ∧ Derives F tokens tree := by
  rw [read, bind_eq_ok]
  simp only [scan_eq_ok, ofTokens?_eq_ok]

/-- **A text that has a tree is either wrapped**, and then what it is wrapped around has the tree that
the parenthesis has in it, **or it is not**, and then the tree is no parenthesis. -/
theorem wrapped_or_not (ht : trim t = t) (h : read F t = .ok tree) :
    (isWrapped t = true ∧ ∃ c, tree = .parenthesis c ∧ read F (unwrapOnce t) = .ok c) ∨
      isWrapped t = false ∧ ∀ c, tree ≠ .parenthesis c := by
  obtain ⟨tokens, hcuts, hd⟩ := read_eq_ok_iff.mp h
  by_cases hopen : tokens.head? = some (.sign '(')
  · obtain ⟨us, rfl⟩ := List.head?_eq_some_iff.mp hopen
    obtain ⟨r, rfl, hr⟩ := hcuts.exists_open ht
    obtain ⟨d, ws, c, rfl, hbalanced, hderives, hleads⟩ := hd.opened
    obtain ⟨b, r', rfl, hb, hr'⟩ := hr.split_close
    have hwrapped := isWrapped_balanced (b := b) (by rwa [Bracket.Balanced, hb.depthAfter_eq]) r'
    rcases hleads with ⟨rfl, rfl⟩ | ⟨hafter, htree⟩
    · have hend : NoBlankEnd ('(' :: (b ++ ')' :: r')) := ht ▸ noBlankEnd_trim _
      obtain rfl := hr'.eq_nil (hend.of_suffix ⟨'(' :: (b ++ [')']), by simp⟩)
      have hinner : unwrapOnce ('(' :: (b ++ [')'])) = trim b := by
        rw [unwrapOnce, List.drop_one, List.tail_cons, List.dropLast_concat]
      exact .inl ⟨hwrapped.mpr rfl, c, rfl, hinner ▸ read_eq_ok_iff.mpr ⟨d, hb.trim, hderives⟩⟩
    · refine .inr ⟨Bool.eq_false_iff.mpr fun hw => ?_, htree⟩
      obtain rfl := hwrapped.mp hw
      obtain rfl := hr'.unique .nil
      exact absurd hafter.length_lt (Nat.lt_irrefl 0)
  · refine .inr ⟨Bool.eq_false_iff.mpr fun hw => ?_, fun c hc => ?_⟩
    · obtain ⟨r, rfl⟩ := List.head?_eq_some_iff.mp (isWrapped_iff.mp hw).1
      obtain ⟨us, rfl, -⟩ := hcuts.of_open
      exact hopen rfl
    · exact hopen (Additive.head_of_parenthesis (hc ▸ hd))

/-- **The parentheses around a text are those around its tree.** A text that has a tree is wrapped if
and only if the tree is a parenthesis, and without the parentheses around it, it has the tree without
them. -/
theorem read_unwrapped (ht : trim t = t) (h : read F t = .ok tree) :
    (isWrapped t = true ↔ ∃ c, tree = .parenthesis c) ∧
      read F (unwrapped t) = .ok tree.stripped := by
  constructor
  · rcases wrapped_or_not ht h with ⟨hw, c, hc, -⟩ | ⟨hw, hc⟩
    · exact iff_of_true hw ⟨c, hc⟩
    · exact iff_of_false (Bool.eq_false_iff.mp hw) fun ⟨c, he⟩ => hc c he
  · fun_induction unwrapped t generalizing tree with
    | case1 t hw ih =>
      rcases wrapped_or_not ht h with ⟨-, c, rfl, hc⟩ | ⟨hn, -⟩
      · rw [stripped]
        exact ih (trim_trim _) hc
      · exact absurd (hn.symm.trans hw) (by decide)
    | case2 t hw =>
      rcases wrapped_or_not ht h with ⟨hn, -⟩ | ⟨-, hc⟩
      · exact absurd hn hw
      · rwa [stripped_of_ne hc]

/-- A sum in parentheses that begins and ends with a parenthesis of its own. -/
theorem read_unwrapped_sum :
    isWrapped "((x)+(1) )".toList = true ∧
      read defaultFunctions (unwrapped "((x)+(1) )".toList) =
        .ok (.operation .plus (.parenthesis (.name ['x']))
          (.parenthesis (.constant (.whole 1) ['1']))) := by
  have hscan : scan "((x)+(1) )".toList = .ok [.sign '(', .sign '(', .name ['x'], .sign ')',
      .sign '+', .sign '(', .number ['1'], .sign ')', .sign ')'] := by rfl
  have left : Additive defaultFunctions [.sign '(', .name ['x'], .sign ')', .sign '+', .sign '(',
      .number ['1'], .sign ')', .sign ')'] [.sign '+', .sign '(', .number ['1'], .sign ')', .sign ')']
      (.parenthesis (.name ['x'])) :=
    .one (.one (.bare (.bare (.parenthesis (.one (.one (.bare (.bare (.name (by decide))))))))))
  have right : Multiplicative defaultFunctions [.sign '(', .number ['1'], .sign ')', .sign ')']
      [.sign ')'] (.parenthesis (.constant (.whole 1) ['1'])) :=
    .one (.bare (.bare (.parenthesis (.one (.one (.bare (.bare (.number rfl))))))))
  have hread : read defaultFunctions "((x)+(1) )".toList =
      .ok (.parenthesis (.operation .plus (.parenthesis (.name ['x']))
        (.parenthesis (.constant (.whole 1) ['1'])))) :=
    read_eq_ok_iff.mpr ⟨_, scan_eq_ok.mp hscan,
      .one (.one (.bare (.bare (.parenthesis (.more (.inl rfl) left right)))))⟩
  obtain ⟨wrapped, inner⟩ := read_unwrapped (by decide) hread
  exact ⟨wrapped.mpr ⟨_, rfl⟩, inner⟩

end Tree

end Stepwise
