import MotionExpr.Token.Basic
import MotionExpr.Text.Blank
import MotionExpr.Text.Alphanumeric

/-!
One scan over each line. It takes every line: a character that begins nothing
else is a punctuation token of its own, and a string that is not closed ends
with its line.
-/

namespace MotionExpr
namespace Token

def isQuote (c : Char) : Bool := c == '\'' || c == '"'

def startsWord (c : Char) : Bool := Text.isAsciiLetter c || c == '_' || c == '$'

def continuesWord (c : Char) : Bool := startsWord c || Text.isAsciiDigit c

def continuesNumber (c : Char) : Bool := Text.isAsciiDigit c || c == '.'

def classify (p : Profile) (word : Text) : TokenKind :=
  if p.keywords.contains word then .keyword
  else if p.globalFunctions.contains word then .hostFunction
  else if p.layerProperties.contains word then .hostProperty
  else .identifier

/-- What follows an opening quote, up to the closing one or to the end. A
backslash takes the next character with it. -/
def stringRest (quote : Char) : (escaped : Bool) → Text → Text
  | _, [] => []
  | true, c :: r => c :: stringRest quote false r
  | false, c :: r => if c = quote then [c] else c :: stringRest quote (c == '\\') r

def pairOperator? (t : Text) : Option Text :=
  Language.pairOperators.find? fun op => op.isPrefixOf t

/-- The token that begins with `c`; `none` for a blank. -/
def lexeme? (p : Profile) (c : Char) (r : Text) : Option (TokenKind × Text) :=
  if Text.isBlank c then none
  else if "//".toList.isPrefixOf (c :: r) then some (.comment, c :: r)
  else if isQuote c then some (.string, c :: stringRest c false r)
  else if Text.isAsciiDigit c then some (.number, c :: r.takeWhile continuesNumber)
  else if startsWord c then
    let word := c :: r.takeWhile continuesWord
    some (classify p word, word)
  else match pairOperator? (c :: r) with
    | some op => some (.operator, op)
    | none => some (.punctuation, [c])

theorem stringRest_append (quote : Char) (escaped : Bool) (t : Text) :
    ∃ rest, t = stringRest quote escaped t ++ rest := by
  induction t generalizing escaped with
  | nil => exact ⟨[], by cases escaped <;> rfl⟩
  | cons c r ih =>
      cases escaped with
      | true =>
          obtain ⟨rest, h⟩ := ih false
          exact ⟨rest, by simp [stringRest, ← h]⟩
      | false =>
          by_cases hq : c = quote
          · exact ⟨r, by simp [stringRest, hq]⟩
          · obtain ⟨rest, h⟩ := ih (c == '\\')
            exact ⟨rest, by simp [stringRest, hq, ← h]⟩

/-- A token is a piece of the line that begins with its first character. -/
theorem lexeme?_append {p : Profile} {c : Char} {r : Text} {kind : TokenKind} {text : Text}
    (h : lexeme? p c r = some (kind, text)) :
    ∃ w rest, text = c :: w ∧ r = w ++ rest := by
  simp only [lexeme?] at h
  split at h
  · cases h
  split at h
  · cases h
    exact ⟨r, [], rfl, by simp⟩
  split at h
  · cases h
    obtain ⟨rest, hr⟩ := stringRest_append c false r
    exact ⟨_, rest, rfl, hr⟩
  split at h
  · cases h
    exact ⟨_, r.dropWhile continuesNumber, rfl, List.takeWhile_append_dropWhile.symm⟩
  split at h
  · cases h
    exact ⟨_, r.dropWhile continuesWord, rfl, List.takeWhile_append_dropWhile.symm⟩
  split at h
  · next op hop =>
      obtain ⟨rfl, rfl⟩ : kind = .operator ∧ text = op := by
        cases h
        exact ⟨rfl, rfl⟩
      have found := List.find?_some hop
      obtain ⟨rest, hr⟩ := List.isPrefixOf_iff_prefix.mp found
      have nonempty : text ≠ [] := by
        intro hnil
        have member := List.mem_of_find?_eq_some hop
        rw [hnil] at member
        revert member
        decide
      obtain ⟨d, w, rfl⟩ := List.exists_cons_of_ne_nil nonempty
      obtain ⟨rfl, rfl⟩ := List.cons_eq_cons.mp hr
      exact ⟨w, rest, rfl, rfl⟩
  · cases h
    exact ⟨[], r, rfl, rfl⟩

/-- `skip` counts the characters of the last token that are still to be passed. -/
def scanLine (p : Profile) (line : Int) : (column : Int) → (skip : Nat) → Text → List Token
  | _, _, [] => []
  | column, skip + 1, _ :: r => scanLine p line (column + 1) skip r
  | column, 0, c :: r =>
      match lexeme? p c r with
      | none => scanLine p line (column + 1) 0 r
      | some (kind, text) =>
          ⟨kind, text, line, column⟩ :: scanLine p line (column + 1) (text.length - 1) r

/-- Passing characters is the same as starting behind them. -/
theorem scanLine_skip (p : Profile) (line column : Int) (n : Nat) (t : Text) :
    scanLine p line column n t = scanLine p line (column + n) 0 (t.drop n) := by
  induction t generalizing column n with
  | nil => cases n <;> rfl
  | cons c r ih =>
      cases n with
      | zero => simp
      | succ n => simp [scanLine, ih (column + 1) n, Int.add_assoc, Int.add_comm 1]

def scanLines (p : Profile) : (line : Int) → List Text → List Token
  | _, [] => []
  | line, l :: ls => scanLine p line 1 0 l ++ scanLines p (line + 1) ls

def tokenize (p : Profile) (source : Text) : List Token :=
  scanLines p 1 (Text.lines source)

end Token
end MotionExpr
