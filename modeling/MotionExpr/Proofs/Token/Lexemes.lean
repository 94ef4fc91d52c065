import MotionExpr.Token.Lexer

/-!
The scan of a line without places: each token with the rest of the line behind
it. A token is settled by its first character and what follows it, so a line that
is a token and a rest has the token and the lexemes of the rest.
-/

namespace MotionExpr

structure Lexeme where
  kind : TokenKind
  text : Text
  behind : Text

namespace Token

/-- `skip` counts the characters of the last token that are still to be passed. -/
def lexemesFrom (p : Profile) : (skip : Nat) → Text → List Lexeme
  | _, [] => []
  | skip + 1, _ :: r => lexemesFrom p skip r
  | 0, c :: r =>
      match lexeme? p c r with
      | none => lexemesFrom p 0 r
      | some (kind, text) =>
          ⟨kind, text, (c :: r).drop text.length⟩ :: lexemesFrom p (text.length - 1) r

def lexemes (p : Profile) (line : Text) : List Lexeme := lexemesFrom p 0 line

variable {p : Profile}

theorem lexemesFrom_skip (n : Nat) (t : Text) : lexemesFrom p n t = lexemes p (t.drop n) := by
  induction t generalizing n with
  | nil => cases n <;> rfl
  | cons c r ih =>
      cases n with
      | zero => rfl
      | succ n => exact ih n

theorem lexemes_of_none {c : Char} {r : Text} (h : lexeme? p c r = none) :
    lexemes p (c :: r) = lexemes p r := by
  simp only [lexemes, lexemesFrom, h]

theorem lexemes_of_some {c : Char} {r : Text} {kind : TokenKind} {text behind : Text}
    (h : lexeme? p c r = some (kind, text)) (hr : c :: r = text ++ behind) :
    lexemes p (c :: r) = ⟨kind, text, behind⟩ :: lexemes p behind := by
  obtain ⟨w, rest, rfl, rfl⟩ := lexeme?_append h
  obtain ⟨-, hrest⟩ := List.cons_eq_cons.mp hr
  obtain rfl := List.append_cancel_left hrest
  rw [lexemes, lexemesFrom, h]
  simp only [List.length_cons, Nat.add_sub_cancel, List.drop_succ_cons,
    lexemesFrom_skip, List.drop_left]

/-- Induction along the scan of a line: over blanks and over tokens. -/
@[elab_as_elim]
theorem scan_induction {motive : Text → Prop} (p : Profile) (nil : motive [])
    (blank : ∀ c r, lexeme? p c r = none → motive r → motive (c :: r))
    (token : ∀ c kind w behind, lexeme? p c (w ++ behind) = some (kind, c :: w) →
      motive behind → motive (c :: (w ++ behind))) (t : Text) : motive t := by
  induction hk : t.length using Nat.strongRecOn generalizing t with
  | ind k ih =>
  cases t with
  | nil => exact nil
  | cons c r =>
      cases h : lexeme? p c r with
      | none => exact blank c r h (ih r.length (by simp [← hk]) r rfl)
      | some found =>
          obtain ⟨kind, text⟩ := found
          obtain ⟨w, behind, rfl, rfl⟩ := lexeme?_append h
          have shorter : behind.length < k := by
            rw [← hk, List.length_cons, List.length_append]
            omega
          exact token c kind w behind h (ih behind.length shorter behind rfl)

theorem scanLine_of_none {c : Char} {r : Text} (h : lexeme? p c r = none) (line column : Int) :
    scanLine p line column 0 (c :: r) = scanLine p line (column + 1) 0 r := by
  simp only [scanLine, h]

theorem scanLine_of_some {c : Char} {kind : TokenKind} {w behind : Text}
    (h : lexeme? p c (w ++ behind) = some (kind, c :: w)) (line column : Int) :
    scanLine p line column 0 (c :: (w ++ behind)) =
      ⟨kind, c :: w, line, column⟩ ::
        scanLine p line (column + (c :: w).length) 0 behind := by
  have place : column + 1 + w.length = column + (c :: w).length := by
    rw [List.length_cons]
    omega
  rw [scanLine, h]
  simp only [List.length_cons, Nat.add_sub_cancel]
  rw [scanLine_skip, List.drop_left, place]
  rfl

/-- What a token is, apart from its place. -/
def spelling (t : Token) : TokenKind × Text := (t.kind, t.text)

/-- What the tokens of a scan are, apart from their places. -/
def spell (xs : List Lexeme) : List (TokenKind × Text) := xs.map fun x => (x.kind, x.text)

@[simp] theorem spell_nil : spell [] = [] := rfl

theorem spell_cons (x : Lexeme) (xs : List Lexeme) :
    spell (x :: xs) = (x.kind, x.text) :: spell xs := rfl

theorem spell_append (xs ys : List Lexeme) : spell (xs ++ ys) = spell xs ++ spell ys :=
  List.map_append

theorem map_spelling_scanLine (line column : Int) (t : Text) :
    (scanLine p line column 0 t).map spelling = spell (lexemes p t) := by
  induction t using scan_induction p generalizing column with
  | nil => rfl
  | blank c r h ih => rw [scanLine_of_none h, lexemes_of_none h, ih]
  | token c kind w behind h ih =>
      rw [scanLine_of_some h, lexemes_of_some h rfl, List.map_cons, spell_cons, ih]
      rfl

theorem map_spelling_tokenize (source : Text) :
    (tokenize p source).map spelling = spell ((Text.lines source).flatMap (lexemes p)) := by
  suffices step : ∀ (line : Int) (ls : List Text), (scanLines p line ls).map spelling =
      spell (ls.flatMap (lexemes p)) from step 1 _
  intro line ls
  induction ls generalizing line with
  | nil => rfl
  | cons l ls ih =>
      rw [scanLines, List.map_append, map_spelling_scanLine, ih, List.flatMap_cons, spell_append]

end Token
end MotionExpr
