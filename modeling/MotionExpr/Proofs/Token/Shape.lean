import MotionExpr.Proofs.Text.Characters

/-!
The shapes of tokens. The scanner tries one after another; as no character begins
tokens of two shapes, each shape can be stated on its own, and a text begins with a
token just if it has one of the shapes.
-/

namespace MotionExpr
namespace Token

/-- The characters that make operators and punctuation. -/
def isSymbol (c : Char) : Bool :=
  !Text.isBlank c && !isQuote c && !Text.isAsciiDigit c && !startsWord c

def startsComment (t : Text) : Bool := "//".toList.isPrefixOf t

/-- A token, with its kind and its text, at the front of `c :: r`. -/
inductive Shape (p : Profile) (c : Char) (r : Text) : TokenKind → Text → Prop where
  | comment : startsComment (c :: r) = true → Shape p c r .comment (c :: r)
  | string : isQuote c = true → Shape p c r .string (c :: stringRest c false r)
  | number : Text.isAsciiDigit c = true → Shape p c r .number (c :: r.takeWhile continuesNumber)
  | word : startsWord c = true →
      Shape p c r (classify p (c :: r.takeWhile continuesWord)) (c :: r.takeWhile continuesWord)
  | operator {op} : isSymbol c = true → startsComment (c :: r) = false →
      pairOperator? (c :: r) = some op → Shape p c r .operator op
  | punctuation : isSymbol c = true → startsComment (c :: r) = false →
      pairOperator? (c :: r) = none → Shape p c r .punctuation [c]

/-! No character begins tokens of two shapes. -/

theorem eq_slash_of_startsComment {c : Char} {r : Text} (h : startsComment (c :: r) = true) :
    c = '/' := ((Text.isPrefixOf_pair '/' '/' c r).mp h).1.symm

theorem startsComment_of_ne {c : Char} (hc : c ≠ '/') (r : Text) :
    startsComment (c :: r) = false := by
  rw [← Bool.not_eq_true]
  exact fun h => hc (eq_slash_of_startsComment h)

theorem plain_of_isQuote {c : Char} (h : isQuote c = true) : Text.isBlank c = false ∧ c ≠ '/' := by
  simp only [isQuote, Bool.or_eq_true, beq_iff_eq] at h
  cases h with
  | inl h => exact h ▸ ⟨rfl, by decide⟩
  | inr h => exact h ▸ ⟨rfl, by decide⟩

theorem plain_of_isAsciiDigit {c : Char} (h : Text.isAsciiDigit c = true) :
    Text.isBlank c = false ∧ isQuote c = false ∧ c ≠ '/' :=
  Text.of_ascii (P := fun c => Text.isAsciiDigit c = true →
      Text.isBlank c = false ∧ isQuote c = false ∧ c ≠ '/')
    (Text.toNat_lt_of_isAsciiDigit h) (by decide) h

theorem plain_of_startsWord {c : Char} (h : startsWord c = true) :
    Text.isBlank c = false ∧ isQuote c = false ∧ Text.isAsciiDigit c = false ∧ c ≠ '/' :=
  Text.of_ascii (P := fun c => startsWord c = true →
      Text.isBlank c = false ∧ isQuote c = false ∧ Text.isAsciiDigit c = false ∧ c ≠ '/')
    (Text.toNat_lt_of_startsWord h) (by decide) h

/-! What the scanner takes. -/

variable {p : Profile} {c : Char} {r : Text} {kind : TokenKind} {text : Text}

/-- Nothing is passed but blanks. -/
theorem lexeme?_eq_none_iff : lexeme? p c r = none ↔ Text.isBlank c = true := by
  rw [lexeme?]
  cases h : Text.isBlank c with
  | true => simp
  | false =>
      rw [if_neg Bool.false_ne_true]
      repeat' split
      all_goals simp

theorem shape_of_lexeme? (h : lexeme? p c r = some (kind, text)) : Shape p c r kind text := by
  simp only [lexeme?] at h
  split at h
  · cases h
  next hblank =>
  split at h
  next hcomment =>
    cases h
    exact .comment hcomment
  next hcomment =>
  split at h
  next hquote =>
    cases h
    exact .string hquote
  next hquote =>
  split at h
  next hdigit =>
    cases h
    exact .number hdigit
  next hdigit =>
  split at h
  next hword =>
    cases h
    exact .word hword
  next hword =>
  have symbol : isSymbol c = true := by simp [isSymbol, hblank, hquote, hdigit, hword]
  have comment : startsComment (c :: r) = false := eq_false_of_ne_true hcomment
  split at h
  next op hop =>
    cases h
    exact .operator symbol comment hop
  next hop =>
    cases h
    exact .punctuation symbol comment hop

theorem Shape.lexeme? (h : Shape p c r kind text) : lexeme? p c r = some (kind, text) := by
  have symbol (hc : isSymbol c = true) : Text.isBlank c = false ∧ isQuote c = false ∧
      Text.isAsciiDigit c = false ∧ startsWord c = false := by
    simpa [isSymbol, and_assoc] using hc
  have folded : "//".toList.isPrefixOf (c :: r) = startsComment (c :: r) := rfl
  rw [Token.lexeme?, folded]
  cases h with
  | comment h =>
      obtain rfl := eq_slash_of_startsComment h
      rw [if_neg (by decide), if_pos h]
  | string hc =>
      obtain ⟨hblank, hslash⟩ := plain_of_isQuote hc
      have comment := startsComment_of_ne hslash r
      simp only [hblank, comment, hc, Bool.false_eq_true, ite_false, ite_true]
  | number hc =>
      obtain ⟨hblank, hquote, hslash⟩ := plain_of_isAsciiDigit hc
      have comment := startsComment_of_ne hslash r
      simp only [hblank, comment, hquote, hc, Bool.false_eq_true, ite_false, ite_true]
  | word hc =>
      obtain ⟨hblank, hquote, hdigit, hslash⟩ := plain_of_startsWord hc
      have comment := startsComment_of_ne hslash r
      simp only [hblank, comment, hquote, hdigit, hc, Bool.false_eq_true, ite_false, ite_true]
  | operator hc comment hop =>
      obtain ⟨hblank, hquote, hdigit, hword⟩ := symbol hc
      simp only [hblank, comment, hquote, hdigit, hword, hop, Bool.false_eq_true, ite_false]
  | punctuation hc comment hop =>
      obtain ⟨hblank, hquote, hdigit, hword⟩ := symbol hc
      simp only [hblank, comment, hquote, hdigit, hword, hop, Bool.false_eq_true, ite_false]

theorem lexeme?_eq_some_iff : lexeme? p c r = some (kind, text) ↔ Shape p c r kind text :=
  ⟨shape_of_lexeme?, Shape.lexeme?⟩

end Token
end MotionExpr
