import Stepwise.Fault
import Stepwise.Text.Blank

/-!
# Tokens of an expression

An expression is cut into numbers (`2`, `1.`, `.5`, `1e-3`; digits of any script), names (a letter,
then letters and digits) and signs; blanks between them are skipped and `**` is another spelling of
`^`. `lexeme?` finds the piece that starts a text, `Token.scan` cuts a whole text.

Results: `lexeme?_append` (a lexeme and what follows it make up the text) and `lexeme?_ne_nil`
(no lexeme is empty), from which the scan is lossless and ends.
-/

namespace Stepwise

open Text

/-- A token of an expression. -/
inductive Token where
  | number (spelling : Text)
  | name (spelling : Text)
  /-- One of `+ - * / ^ ( ) ,`. -/
  | sign (c : Char)
  deriving DecidableEq, Repr

namespace Token

/-- How a token is written. -/
def spelling : Token → Text
  | number t => t
  | name t => t
  | sign c => [c]

/-- The signs of expressions. -/
def signs : Text := "-+*/^(),".toList

/-- An exponent at the start of a text: `e` or `E`, perhaps a sign, and at least one digit. What
is no exponent is left alone. -/
def exponentPart : Text → Text
  | [] => []
  | e :: cs =>
    if e = 'e' ∨ e = 'E' then
      match cs with
      | [] => []
      | s :: ds =>
        if s = '+' ∨ s = '-' then
          let digits := ds.takeWhile isDigit
          if digits.isEmpty then [] else e :: s :: digits
        else
          let digits := (s :: ds).takeWhile isDigit
          if digits.isEmpty then [] else e :: digits
    else []

/-- The digits and the point of the number at the start of a text, if there is one. -/
def mantissa (t : Text) : Text :=
  let whole := t.takeWhile isDigit
  match t.dropWhile isDigit with
  | '.' :: cs =>
    let fraction := cs.takeWhile isDigit
    if whole.isEmpty && fraction.isEmpty then [] else whole ++ '.' :: fraction
  | _ => whole

/-- The number at the start of a text, if there is one. -/
def numberPart (t : Text) : Text :=
  let m := mantissa t
  if m.isEmpty then [] else m ++ exponentPart (t.drop m.length)

/-- The name at the start of a text, if there is one. -/
def namePart : Text → Text
  | [] => []
  | c :: cs => if c.isAlpha then c :: cs.takeWhile Char.isAlphanum else []

/-- The sign at the start of a text, as it is written and as it is meant. -/
def signPart : Text → Option (Text × Char)
  | '*' :: '*' :: _ => some (['*', '*'], '^')
  | c :: _ => if signs.contains c then some ([c], c) else none
  | [] => none

/-- A piece of a text: a token as it is written, or a run of blanks. -/
structure Lexeme where
  written : Text
  token : Option Token
  deriving DecidableEq, Repr

/-- The piece at the start of a text. -/
def lexeme? (t : Text) : Option Lexeme :=
  let n := numberPart t
  let w := namePart t
  let b := t.takeWhile isBlank
  if !n.isEmpty then some ⟨n, some (.number n)⟩
  else if !w.isEmpty then some ⟨w, some (.name w)⟩
  else
    match signPart t with
    | some (written, c) => some ⟨written, some (.sign c)⟩
    | none => if b.isEmpty then none else some ⟨b, none⟩

/-- The tokens of a text that starts at `position`, found in at most `fuel` pieces. -/
def scanFrom : (fuel : Nat) → (position : Nat) → Text → Except Fault (List Token)
  | _, _, [] => .ok []
  | 0, position, c :: _ => .error (.unexpectedCharacter c position)
  | fuel + 1, position, c :: cs =>
    match lexeme? (c :: cs) with
    | none => .error (.unexpectedCharacter c position)
    | some l => do
      let n := l.written.length
      let tokens ← scanFrom fuel (position + n) ((c :: cs).drop n)
      return l.token.toList ++ tokens

/-- The tokens of a text. Each piece takes at least one character, so the text's length is fuel
enough. -/
def scan (t : Text) : Except Fault (List Token) := scanFrom t.length 0 t

theorem exponentPart_prefix (t : Text) : exponentPart t <+: t := by
  unfold exponentPart
  split
  · exact List.prefix_refl _
  · split
    · split
      · exact List.nil_prefix
      · dsimp only
        split <;> split
        · exact List.nil_prefix
        · exact (List.prefix_cons_inj _).2 ((List.prefix_cons_inj _).2 (List.takeWhile_prefix _))
        · exact List.nil_prefix
        · exact (List.prefix_cons_inj _).2 (List.takeWhile_prefix _)
    · exact List.nil_prefix

theorem mantissa_prefix (t : Text) : mantissa t <+: t := by
  have key : t.takeWhile isDigit ++ t.dropWhile isDigit = t := List.takeWhile_append_dropWhile
  unfold mantissa
  dsimp only
  split
  next cs h =>
    split
    · exact List.nil_prefix
    · rw [h] at key
      conv => rhs; rw [← key]
      exact (List.prefix_append_right_inj _).2
        ((List.prefix_cons_inj _).2 (List.takeWhile_prefix _))
  next => exact List.takeWhile_prefix _

theorem numberPart_prefix (t : Text) : numberPart t <+: t := by
  unfold numberPart
  dsimp only
  split
  · exact List.nil_prefix
  · obtain ⟨r, hr⟩ := mantissa_prefix t
    obtain ⟨s, hs⟩ := exponentPart_prefix (t.drop (mantissa t).length)
    refine ⟨s, ?_⟩
    have : t.drop (mantissa t).length = r := by
      have e := congrArg (List.drop (mantissa t).length) hr
      simpa using e.symm
    rw [this] at hs ⊢
    rw [List.append_assoc, hs, hr]

theorem namePart_prefix (t : Text) : namePart t <+: t := by
  unfold namePart
  split
  · exact List.prefix_refl _
  · split
    · exact (List.prefix_cons_inj _).2 (List.takeWhile_prefix _)
    · exact List.nil_prefix

theorem signPart_prefix {t w : Text} {c : Char} (h : signPart t = some (w, c)) : w <+: t := by
  unfold signPart at h
  split at h
  · simp only [Option.some.injEq, Prod.mk.injEq] at h
    rw [← h.1]
    exact ⟨_, rfl⟩
  · split at h
    · simp only [Option.some.injEq, Prod.mk.injEq] at h
      rw [← h.1]
      exact ⟨_, rfl⟩
    · simp at h
  · simp at h

theorem signPart_ne_nil {t w : Text} {c : Char} (h : signPart t = some (w, c)) : w ≠ [] := by
  unfold signPart at h
  split at h
  · simp only [Option.some.injEq, Prod.mk.injEq] at h
    simp [← h.1]
  · split at h
    · simp only [Option.some.injEq, Prod.mk.injEq] at h
      simp [← h.1]
    · simp at h
  · simp at h

/-- A piece is a prefix of the text. -/
theorem lexeme?_append {t : Text} {l : Lexeme} (h : lexeme? t = some l) :
    l.written ++ t.drop l.written.length = t := by
  have prefixed : l.written <+: t := by
    unfold lexeme? at h
    dsimp only at h
    split at h
    · obtain rfl := Option.some.inj h
      exact numberPart_prefix t
    · split at h
      · obtain rfl := Option.some.inj h
        exact namePart_prefix t
      · split at h
        next w c e =>
          obtain rfl := Option.some.inj h
          exact signPart_prefix e
        next =>
          split at h
          · simp at h
          · obtain rfl := Option.some.inj h
            exact List.takeWhile_prefix _
  obtain ⟨r, hr⟩ := prefixed
  have e := congrArg (List.drop l.written.length) hr
  rw [List.drop_left] at e
  rw [← e, hr]

/-- No piece is empty. -/
theorem lexeme?_ne_nil {t : Text} {l : Lexeme} (h : lexeme? t = some l) : l.written ≠ [] := by
  unfold lexeme? at h
  dsimp only at h
  split at h
  next hn =>
    obtain rfl := Option.some.inj h
    simpa using hn
  next =>
    split at h
    next hw =>
      obtain rfl := Option.some.inj h
      simpa using hw
    next =>
      split at h
      next w c e =>
        obtain rfl := Option.some.inj h
        exact signPart_ne_nil e
      next =>
        split at h
        · simp at h
        · next hb =>
          obtain rfl := Option.some.inj h
          simpa using hb

end Token

end Stepwise
