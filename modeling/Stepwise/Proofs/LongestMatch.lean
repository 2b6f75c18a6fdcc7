import Stepwise.Proofs.Pieces

/-!
# The longest piece at a place

What the scanner looks for is said here without the scanner: `Lexeme.Shaped` lists the shapes of
numbers, names, signs and runs of blanks, and `Lexeme.IsLongest` picks the longest text of such a
shape at the front of another text. That is the piece that `lexeme?` finds (`lexeme?_eq_some_iff`), and
it finds none only where no text of such a shape stands (`lexeme?_eq_none_iff`). So a piece is found
again when the text behind it is cut off, and a scan that fails has cut all in front of the place where
it fails.

Results: `scan_longestMatch`, a text is its tokens with blanks between them and can be spaced anew, or
no piece stands at the place that the fault names.
-/

namespace Stepwise.Token

open Text

variable {m r t w x : Text} {tokens : List Token} {l : Lexeme}

/-! ## Shapes -/

/-- Digits, perhaps with a point among them or at one end. -/
inductive IsMantissa : Text → Prop
  | whole {w : Text} (hw : AllDigits w) (hne : w ≠ []) : IsMantissa w
  | point {w f : Text} (hw : AllDigits w) (hf : AllDigits f) (hne : (w.isEmpty && f.isEmpty) = false) :
      IsMantissa (w ++ '.' :: f)

/-- An `e`, perhaps a sign, and digits; or nothing. -/
inductive IsExponent : Text → Prop
  | none : IsExponent []
  | digits {e : Char} {sgn ds : Text} (he : e = 'e' ∨ e = 'E')
      (hs : sgn = [] ∨ sgn = ['+'] ∨ sgn = ['-']) (hd : AllDigits ds) (hne : ds ≠ []) :
      IsExponent (e :: sgn ++ ds)

/-- The shapes of pieces: what is a number, a name, a sign or a run of blanks, and `**` for `^`. -/
inductive Lexeme.Shaped : Lexeme → Prop
  | number {m x : Text} (hm : IsMantissa m) (hx : IsExponent x) :
      Shaped ⟨m ++ x, some (.number (m ++ x))⟩
  | name {c : Char} {cs : Text} (hc : c.isAlpha = true) (hcs : ∀ d ∈ cs, d.isAlphanum = true) :
      Shaped ⟨c :: cs, some (.name (c :: cs))⟩
  | sign {c : Char} (hc : c ∈ signs) : Shaped ⟨[c], some (.sign c)⟩
  | power : Shaped ⟨['*', '*'], some (.sign '^')⟩
  | blanks {w : Text} (hw : ∀ c ∈ w, isBlank c = true) (hne : w ≠ []) : Shaped ⟨w, none⟩

/-- At the front of the text stands a piece, and no longer one. -/
def Lexeme.IsLongest (t : Text) (l : Lexeme) : Prop :=
  l.Shaped ∧ l.written <+: t ∧
    ∀ k : Lexeme, k.Shaped → k.written <+: t → k.written.length ≤ l.written.length

/-! ## What is found has a shape -/

theorem isMantissa_mantissa (h : mantissa t ≠ []) : IsMantissa (mantissa t) := by
  rcases mantissa_cases t with hd | ⟨w, f, hw, hf, hne, he⟩
  · exact .whole hd h
  · rw [he]
    exact .point hw hf hne

theorem isExponent_exponentPart (t : Text) : IsExponent (exponentPart t) := by
  rcases exponentPart_cases t with he | ⟨e, sgn, ds, he, hs, hne, hd, h⟩
  · rw [he]
    exact .none
  · rw [h]
    exact .digits he hs hd hne

theorem shaped_of_lexeme? (h : lexeme? t = some l) : l.Shaped := by
  obtain ⟨w, _ | tok⟩ := l
  · exact .blanks (isBlank_of_lexeme? h) (lexeme?_ne_nil h)
  cases tok with
  | number n =>
    obtain ⟨rfl, hne, hn⟩ := number_of_lexeme? h
    have hm : mantissa t ≠ [] := by
      intro hm
      rw [numberPart, hm] at hn
      exact hne hn.symm
    rw [numberPart_of_mantissa rfl hm] at hn
    rw [← hn]
    exact .number (isMantissa_mantissa hm) (isExponent_exponentPart _)
  | name n =>
    obtain ⟨rfl, hne, hn⟩ := name_of_lexeme? h
    cases t with
    | nil => exact absurd hn.symm hne
    | cons c cs =>
      have hc : c.isAlpha = true := isAlpha_head_of_namePart (hn ▸ hne)
      rw [namePart, if_pos hc] at hn
      rw [← hn]
      exact .name hc fun _ => of_mem_takeWhile
  | sign c =>
    rcases sign_of_lexeme? h with ⟨rfl, rfl⟩ | ⟨rfl, hc⟩
    · exact .power
    · exact .sign hc

/-! ## What has a shape is found -/

theorem prefix_takeWhile {p : Char → Bool} (hw : ∀ c ∈ w, p c = true) (r : Text) :
    w <+: (w ++ r).takeWhile p := by
  rw [List.takeWhile_append_of_pos hw]
  exact List.prefix_append w _

/-- A mantissa with something behind it that does not go on with it. -/
theorem IsMantissa.mantissa_append (hm : IsMantissa m)
    (hx : ∀ c, x.head? = some c → isDigit c = false ∧ c ≠ '.') : mantissa (m ++ x) = m := by
  cases hm with
  | whole hw _ => exact mantissa_digits hw hx
  | point hw hf hne =>
    rw [List.append_assoc, List.cons_append]
    exact mantissa_point hw hf hne fun c hc => (hx c hc).1

theorem IsMantissa.prefix_mantissa (hm : IsMantissa m) (r : Text) : m <+: mantissa (m ++ r) := by
  cases hm with
  | whole hw _ => exact (prefix_takeWhile hw r).trans (takeWhile_prefix_mantissa _)
  | @point w f hw hf hne =>
    rw [List.append_assoc, List.cons_append, mantissa_point_append hw hf hne]
    exact (List.prefix_append_right_inj w).mpr ((List.prefix_cons_inj '.').mpr (prefix_takeWhile hf r))

theorem IsMantissa.ne_nil (hm : IsMantissa m) : m ≠ [] := by
  cases hm with
  | whole _ hne => exact hne
  | point => simp

theorem IsExponent.prefix_exponentPart (hx : IsExponent x) (r : Text) :
    x <+: exponentPart (x ++ r) := by
  cases hx with
  | none => exact List.nil_prefix
  | @digits e sgn ds he hs hd hne =>
    rw [List.append_assoc, exponentPart_digits he hs hne hd]
    exact (List.prefix_append_right_inj (e :: sgn)).mpr (prefix_takeWhile hd r)

/-- The number at the front of a text goes on as long as it can. -/
theorem prefix_numberPart (hm : IsMantissa m) (hx : IsExponent x) (r : Text) :
    m ++ x <+: numberPart (m ++ x ++ r) := by
  rw [List.append_assoc]
  cases hx with
  | none =>
    have hpre := hm.prefix_mantissa r
    have hne : mantissa (m ++ r) ≠ [] := fun h => hm.ne_nil (List.prefix_nil.mp (h ▸ hpre))
    rw [List.nil_append, List.append_nil, numberPart_of_mantissa rfl hne]
    exact hpre.trans (List.prefix_append _ _)
  | @digits e sgn ds he hs hd hne =>
    have hend : ∀ c, (e :: sgn ++ ds ++ r).head? = some c → isDigit c = false ∧ c ≠ '.' := by
      intro c hc
      obtain rfl := Option.some.inj hc
      rcases he with rfl | rfl <;> decide
    rw [numberPart_of_mantissa (hm.mantissa_append hend) hm.ne_nil, List.drop_left]
    exact (List.prefix_append_right_inj m).mpr ((IsExponent.digits he hs hd hne).prefix_exponentPart r)

/-- Where a piece stands one is found that goes on with it, and no other one of the same length. -/
theorem Lexeme.Shaped.exists_lexeme? (hl : l.Shaped) (r : Text) :
    ∃ k, lexeme? (l.written ++ r) = some k ∧ l.written <+: k.written ∧
      (k.written = l.written → k = l) := by
  cases hl with
  | @number m x hm hx =>
    have hpre := prefix_numberPart hm hx r
    have hne : numberPart (m ++ x ++ r) ≠ [] := fun h =>
      List.append_ne_nil_of_left_ne_nil hm.ne_nil x (List.prefix_nil.mp (h ▸ hpre))
    refine ⟨_, lexeme?_of_numberPart hne rfl, hpre, fun h => ?_⟩
    dsimp only at h
    rw [h]
  | @name c cs hc hcs =>
    have hpre := prefix_takeWhile hcs r
    have hspelled : WellSpelled (.name (c :: (cs ++ r).takeWhile Char.isAlphanum)) := by
      have hall := takeWhile_append_stop (p := Char.isAlphanum) (r := [])
        (w := (cs ++ r).takeWhile Char.isAlphanum) (fun _ => of_mem_takeWhile) (by simp)
      rw [List.append_nil] at hall
      refine ⟨List.cons_ne_nil _ _, ?_⟩
      rw [namePart, if_pos hc, hall]
    have hend : endsName ((cs ++ r).dropWhile Char.isAlphanum) = true := by
      cases hd : (cs ++ r).dropWhile Char.isAlphanum with
      | nil => rfl
      | cons d ds =>
        have hstop := head_of_dropWhile (p := Char.isAlphanum) (cs ++ r) d (by rw [hd]; rfl)
        simp [endsName, hstop]
    have hfound := lexeme?_name hspelled hend
    rw [List.cons_append, List.takeWhile_append_dropWhile] at hfound
    refine ⟨_, hfound, (List.prefix_cons_inj c).mpr hpre, fun h => ?_⟩
    dsimp only at h
    rw [h]
  | @sign c hc =>
    by_cases hs : c = '*' ∧ r.head? = some '*'
    · obtain ⟨rfl, hr⟩ := hs
      obtain ⟨r, rfl⟩ := List.head?_eq_some_iff.mp hr
      exact ⟨_, lexeme?_power r, ⟨['*'], rfl⟩, fun h => absurd h (by simp)⟩
    · exact ⟨_, lexeme?_sign hc fun h hr => hs ⟨h, hr⟩, List.prefix_refl _, fun _ => rfl⟩
  | power => exact ⟨_, lexeme?_power r, List.prefix_refl _, fun _ => rfl⟩
  | @blanks w hw hne =>
    cases w with
    | nil => exact absurd rfl hne
    | cons b bs =>
      obtain ⟨hb, hbs⟩ := List.forall_mem_cons.mp hw
      refine ⟨_, lexeme?_blank hb, (List.prefix_cons_inj b).mpr (prefix_takeWhile hbs r), fun h => ?_⟩
      dsimp only at h
      rw [h]

/-! ## The longest piece -/

/-- **No piece is found only where none stands.** -/
theorem lexeme?_eq_none_iff : lexeme? t = none ↔ ∀ l : Lexeme, l.Shaped → ¬l.written <+: t := by
  constructor
  · rintro h l hl ⟨r, rfl⟩
    obtain ⟨k, hk, -, -⟩ := hl.exists_lexeme? r
    exact Option.some_ne_none k (hk.symm.trans h)
  · intro h
    cases hl : lexeme? t with
    | none => rfl
    | some l => exact absurd ⟨_, lexeme?_append hl⟩ (h l (shaped_of_lexeme? hl))

/-- **The longest piece is found.** -/
theorem lexeme?_eq_some_iff : lexeme? t = some l ↔ l.IsLongest t := by
  constructor
  · intro h
    refine ⟨shaped_of_lexeme? h, ⟨_, lexeme?_append h⟩, ?_⟩
    rintro k hk ⟨r, rfl⟩
    obtain ⟨l', hl', hpre, -⟩ := hk.exists_lexeme? r
    obtain rfl := Option.some.inj (hl'.symm.trans h)
    exact hpre.length_le
  · rintro ⟨hl, ⟨r, rfl⟩, hlongest⟩
    obtain ⟨k, hk, hpre, hsame⟩ := hl.exists_lexeme? r
    have hle := hlongest k (shaped_of_lexeme? hk) ⟨_, lexeme?_append hk⟩
    rw [hk, hsame (hpre.eq_of_length_le hle).symm]

/-- A piece is found again when the text behind it is cut off. -/
theorem lexeme?_of_front {s : Text} (h : lexeme? t = some l) (hs : s <+: t) (hl : l.written <+: s) :
    lexeme? s = some l := by
  obtain ⟨hshaped, -, hlongest⟩ := lexeme?_eq_some_iff.mp h
  exact lexeme?_eq_some_iff.mpr ⟨hshaped, hl, fun k hk hpre => hlongest k hk (hpre.trans hs)⟩

/-! ## A whole text -/

/-- The pieces make up the text, and hold its tokens. -/
theorem Cuts.pieces_eq (h : Cuts t tokens) :
    t = (pieces t).flatMap Lexeme.written ∧ tokens = (pieces t).filterMap Lexeme.token := by
  induction h with
  | nil => exact ⟨rfl, rfl⟩
  | @cons t l tokens hl _ ih =>
    rw [pieces_cons hl, List.flatMap_cons, ← ih.1, lexeme?_append hl]
    refine ⟨rfl, ?_⟩
    rw [ih.2]
    cases htok : l.token with
    | none => exact (List.filterMap_cons_none htok).symm
    | some tok => exact (List.filterMap_cons_some htok).symm

/-- Each piece is the longest one at its place. -/
theorem Cuts.isLongest_of_mem_pieces (h : Cuts t tokens) : ∀ {before after : List Lexeme},
    pieces t = before ++ l :: after → l.IsLongest ((l :: after).flatMap Lexeme.written) := by
  induction h with
  | nil => exact fun h => absurd h (by simp [pieces, piecesFrom])
  | @cons t k tokens hk hr ih =>
    intro before after h
    cases before with
    | nil =>
      have htext := (Cuts.cons hk hr).pieces_eq.1
      rw [h, List.nil_append] at htext
      rw [pieces_cons hk] at h
      obtain ⟨rfl, -⟩ := List.cons.inj h
      exact htext ▸ lexeme?_eq_some_iff.mp hk
    | cons b before =>
      rw [pieces_cons hk] at h
      exact ih (List.cons.inj h).2

/-- Where a scan fails no piece stands, and all in front of that place has been cut. -/
theorem of_scanFrom_eq_error : ∀ {fuel position : Nat} {t : Text} {f : Fault}, t.length ≤ fuel →
    scanFrom fuel position t = .error f → ∃ p c before, f = .unexpectedCharacter c (position + p) ∧
      t[p]? = some c ∧ Cuts (t.take p) before ∧ lexeme? (t.drop p) = none
  | fuel, position, [], f, _, h => by
    unfold scanFrom at h
    cases h
  | 0, _, _ :: _, _, hf, _ => absurd hf (by simp)
  | fuel + 1, position, c :: cs, f, hf, h => by
    unfold scanFrom at h
    split at h
    next hnone =>
      obtain rfl := Except.error.inj h
      exact ⟨0, c, [], rfl, rfl, .nil, hnone⟩
    next l hl =>
      have hlt := length_drop_lt hl
      cases hrest : scanFrom fuel (position + l.written.length) ((c :: cs).drop l.written.length) with
      | ok tokens =>
        dsimp only at h
        rw [hrest, ok_bind] at h
        cases h
      | error f' =>
        dsimp only at h
        rw [hrest] at h
        obtain rfl : f' = f := Except.error.inj h
        obtain ⟨p, d, before, rfl, hd, hcuts, hnone⟩ := of_scanFrom_eq_error (by omega) hrest
        have htake : (c :: cs).take (l.written.length + p) =
            l.written ++ ((c :: cs).drop l.written.length).take p := by
          have htext := congrArg (List.take (l.written.length + p)) (lexeme?_append hl)
          rw [← htext, List.take_length_add_append]
        refine ⟨l.written.length + p, d, l.token.toList ++ before, ?_, ?_, ?_, ?_⟩
        · rw [Nat.add_assoc]
        · rw [← List.getElem?_drop]
          exact hd
        · rw [htake]
          refine .append (lexeme?_of_front hl ?_ (List.prefix_append _ _)) hcuts
          rw [← htake]
          exact List.take_prefix _ _
        · rw [← List.drop_drop]
          exact hnone

/-- Tokens with spaces between them are found again. -/
theorem cuts_joinWith_spelling : ∀ {tokens : List Token}, (∀ tok ∈ tokens, WellSpelled tok) →
    Cuts (joinWith [' '] (tokens.map spelling)) tokens
  | [], _ => .nil
  | [tok], h => cuts_spelling (h tok List.mem_cons_self)
  | tok :: tok' :: toks, h => by
    obtain ⟨htok, htoks⟩ := List.forall_mem_cons.mp h
    have hrest := Cuts.blank (c := ' ') (by decide) (cuts_joinWith_spelling htoks)
    have hall := (cuts_spelling htok).splice (breaks_cons (by decide) _) hrest
    simpa [joinWith] using hall

/-- **Scanning loses nothing and is stable.** If a text is cut into tokens, it is made up of pieces, each
the longest one at its place, that are these tokens and runs of blanks; and the tokens are found again
when they are written with single spaces between them. Otherwise the fault names the place where a
character stands that begins no piece, and the text in front of it is cut. -/
theorem scan_longestMatch (t : Text) :
    (∃ tokens ls, scan t = .ok tokens ∧ t = ls.flatMap Lexeme.written ∧
        tokens = ls.filterMap Lexeme.token ∧
        (∀ before l after, ls = before ++ l :: after →
          l.IsLongest ((l :: after).flatMap Lexeme.written)) ∧
        scan (joinWith [' '] (tokens.map spelling)) = .ok tokens) ∨
      ∃ f c p before, scan t = .error f ∧ f = .unexpectedCharacter c p ∧ f.kind = .unreadable ∧
        t[p]? = some c ∧ scan (t.take p) = .ok before ∧
          ∀ l : Lexeme, l.Shaped → ¬l.written <+: t.drop p := by
  cases h : scan t with
  | ok tokens =>
    have hcuts := scan_eq_ok.mp h
    have hagain := cuts_joinWith_spelling hcuts.wellSpelled
    exact .inl ⟨tokens, pieces t, rfl, hcuts.pieces_eq.1, hcuts.pieces_eq.2,
      fun _ _ _ hpieces => hcuts.isLongest_of_mem_pieces hpieces, scan_eq_ok.mpr hagain⟩
  | error f =>
    obtain ⟨p, c, before, rfl, hc, hcuts, hnone⟩ := of_scanFrom_eq_error (Nat.le_refl _) h
    exact .inr ⟨_, c, p, before, rfl, by rw [Nat.zero_add], rfl, hc, scan_eq_ok.mpr hcuts,
      lexeme?_eq_none_iff.mp hnone⟩

end Stepwise.Token
