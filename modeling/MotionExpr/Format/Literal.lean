import MotionExpr.Format.Options
import MotionExpr.Text.Decimal
import MotionExpr.Text.Substitution

/-!
Literals in code: closed strings and comments up to the end of a line. Masking
puts a numbered placeholder for each of them, so that the passes see code only;
restoring puts them back. A placeholder that numbers no literal cannot be
restored.
-/

namespace MotionExpr
namespace Literal

/-- How many characters lie up to and with the closing quote. An escaped
character is never a newline; a plain one may be one if `multiline` is set. -/
def closing? (quote : Char) (multiline : Bool) : (escaped : Bool) → Text → Option Nat
  | _, [] => none
  | true, c :: r => if c = '\n' then none else (closing? quote multiline false r).map (· + 1)
  | false, c :: r =>
      if c = quote then some 1
      else if c = '\n' && !multiline then none
      else (closing? quote multiline (c == '\\') r).map (· + 1)

/-- The length of the literal that begins with `c`. -/
def length? (c : Char) (r : Text) : Option Nat :=
  if "//".toList.isPrefixOf (c :: r) then some (1 + (r.takeWhile (· ≠ '\n')).length)
  else if c = '"' || c = '\'' then (closing? c true false r).map (· + 1)
  else none

theorem closing?_le {quote : Char} {multiline escaped : Bool} {t : Text} {n : Nat}
    (h : closing? quote multiline escaped t = some n) : 0 < n ∧ n ≤ t.length := by
  induction t generalizing escaped n with
  | nil => cases escaped <;> simp [closing?] at h
  | cons c r ih =>
      have step {b : Bool} {k : Nat}
          (hk : (closing? quote multiline b r).map (· + 1) = some k) :
          0 < k ∧ k ≤ (c :: r).length := by
        obtain ⟨m, hm, rfl⟩ := Option.map_eq_some_iff.mp hk
        have := ih hm
        simp only [List.length_cons]
        omega
      cases escaped with
      | true =>
          simp only [closing?] at h
          split at h
          · cases h
          · exact step h
      | false =>
          simp only [closing?] at h
          split at h
          · cases h
            simp
          · split at h
            · cases h
            · exact step h

theorem length?_le {c : Char} {r : Text} {n : Nat} (h : length? c r = some n) :
    0 < n ∧ n ≤ (c :: r).length := by
  simp only [length?] at h
  split at h
  · cases h
    have := (List.takeWhile_sublist (l := r) (· ≠ '\n')).length_le
    simp only [List.length_cons]
    omega
  · split at h
    · obtain ⟨m, hm, rfl⟩ := Option.map_eq_some_iff.mp h
      have := closing?_le hm
      simp only [List.length_cons]
      omega
    · cases h

inductive Piece where
  | code (c : Char)
  | literal (t : Text)
  deriving DecidableEq, Repr

/-- `skip` counts the characters of the last literal that are still to be passed. -/
def piecesFrom : (skip : Nat) → Text → List Piece
  | _, [] => []
  | skip + 1, _ :: r => piecesFrom skip r
  | 0, c :: r =>
      match length? c r with
      | some n => .literal ((c :: r).take n) :: piecesFrom (n - 1) r
      | none => .code c :: piecesFrom 0 r

def pieces (code : Text) : List Piece := piecesFrom 0 code

def Piece.text : Piece → Text
  | code c => [c]
  | literal t => t

theorem piecesFrom_skip (n : Nat) (t : Text) : piecesFrom n t = piecesFrom 0 (t.drop n) := by
  induction t generalizing n with
  | nil => cases n <;> rfl
  | cons c r ih =>
      cases n with
      | zero => rfl
      | succ n => simp [piecesFrom, ih n]

/-- Nothing is lost: the pieces put together are the code. -/
theorem flatMap_text_pieces (t : Text) : (pieces t).flatMap Piece.text = t := by
  suffices h : ∀ n t, (piecesFrom n t).flatMap Piece.text = t.drop n from h 0 t
  intro n t
  induction t generalizing n with
  | nil => cases n <;> rfl
  | cons c r ih =>
      cases n with
      | succ n => simpa [piecesFrom] using ih n
      | zero =>
          simp only [piecesFrom, List.drop_zero]
          split
          · next n h =>
              have bounds := length?_le h
              obtain ⟨m, rfl⟩ : ∃ m, n = m + 1 := ⟨n - 1, by omega⟩
              simp [Piece.text, ih m]
          · simpa [Piece.text] using ih 0

def mark : Char := '\x00'

def placeholder (n : Nat) : Text := mark :: Text.ofNat n ++ [mark]

/-- Number the literals from `n` on. -/
def numbered : (n : Nat) → List Piece → Text
  | _, [] => []
  | n, .code c :: ps => c :: numbered n ps
  | n, .literal _ :: ps => placeholder n ++ numbered (n + 1) ps

def literals : List Piece → List Text
  | [] => []
  | .code _ :: ps => literals ps
  | .literal t :: ps => t :: literals ps

def mask (code : Text) : Text × List Text :=
  (numbered 0 (pieces code), literals (pieces code))

inductive Fault where
  | missing
  | indexTooLarge
  | numeralTooLong (digits : Nat)
  deriving DecidableEq, Repr

def Fault.message : Fault → String
  | missing => "list index out of range"
  | indexTooLarge => "cannot fit 'int' into an index-sized integer"
  | numeralTooLong digits => Text.unreadableNumeral digits

/-- No list has a place with a larger number. -/
def maxIndex : Nat := 9223372036854775807

/-- The literal that a numeral names. A numeral has a limited length, or as many
digits as the literals need. -/
def lookUp (ls : List Text) (digits : Text) : Except Fault Text :=
  if max Text.maxNumeral (Text.ofNat ls.length).length < digits.length then
    .error (.numeralTooLong digits.length)
  else
    let n := Text.numeralValue digits
    match ls[n]? with
    | some t => .ok t
    | none => .error (if n ≤ maxIndex then .missing else .indexTooLarge)

/-- The numeral of a placeholder whose first mark has just been passed. -/
def numeral? (ahead : Text) : Option Text :=
  match ahead.takeWhile Text.isDigit, ahead.dropWhile Text.isDigit with
  | d :: ds, c :: _ => if c = mark then some (d :: ds) else none
  | _, _ => none

/-- `skip` counts the characters of the last placeholder that are still to be passed. -/
def restoreFrom (ls : List Text) : (skip : Nat) → Text → Except Fault Text
  | _, [] => .ok []
  | skip + 1, _ :: r => restoreFrom ls skip r
  | 0, c :: r =>
      match if c = mark then numeral? r else none with
      | some digits => do
          let literal ← lookUp ls digits
          let rest ← restoreFrom ls (digits.length + 1) r
          return literal ++ rest
      | none => do
          let rest ← restoreFrom ls 0 r
          return c :: rest

theorem restoreFrom_skip (ls : List Text) (n : Nat) (t : Text) :
    restoreFrom ls n t = restoreFrom ls 0 (t.drop n) := by
  induction t generalizing n with
  | nil => cases n <;> rfl
  | cons c r ih =>
      cases n with
      | zero => rfl
      | succ n => simp [restoreFrom, ih n]

def restore (ls : List Text) (code : Text) : Except Fault Text := restoreFrom ls 0 code

end Literal

/-! One quote style for all strings. The body is kept as it is, escapes included,
and strings inside comments are changed too. -/

namespace Quote

def swap (style : QuoteStyle) : Text.Rule := fun _ ahead =>
  match ahead with
  | [] => none
  | c :: r =>
      if c = style.other.mark then
        (Literal.closing? c false false r).map fun n =>
          ⟨n + 1, style.mark :: r.take (n - 1) ++ [style.mark]⟩
      else none

def restyle (style : QuoteStyle) (source : Text) : Text := Text.substitute (swap style) source

end Quote

end MotionExpr
