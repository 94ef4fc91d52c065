import MotionExpr.Proofs.Format.Lines
import MotionExpr.Proofs.Token.Order
import MotionExpr.Proofs.Token.Shape

/-!
Tokens and blanks make up the text. Each token is the piece of its line that
begins at its column, and what no token takes is blank. The scan passes each
character of a line once, so both follow along it.
-/

namespace MotionExpr
namespace Token

/-- The token is the piece of the text that begins at its line and column. -/
def StandsIn (t : Token) (source : Text) : Prop :=
  ∃ (row : Nat) (line front behind : Text), (Text.lines source)[row]? = some line ∧
    line = front ++ t.text ++ behind ∧ t.line = row + 1 ∧ t.column = front.length + 1

/-- A place, with row and column counted from zero, lies within the token. -/
def Covers (t : Token) (row column : Nat) : Prop :=
  t.line = row + 1 ∧ t.column ≤ column + 1 ∧ column + 1 < t.endColumn

variable {p : Profile} {line : Int} {t : Token}

theorem of_mem_scanLine_append {front l : Text} (h : t ∈ scanLine p line (front.length + 1) 0 l) :
    ∃ before behind, front ++ l = before ++ t.text ++ behind ∧ t.column = before.length + 1 := by
  induction l using scan_induction p generalizing front with
  | nil => cases h
  | blank c r hc ih =>
      have place : (front.length + 1 + 1 : Int) = (front ++ [c]).length + 1 := by simp
      rw [scanLine_of_none hc, place] at h
      obtain ⟨before, behind, whole, column⟩ := ih h
      exact ⟨before, behind, by rw [← whole, List.append_assoc, List.singleton_append], column⟩
  | token c kind w behind hc ih =>
      have place : (front.length + 1 + (c :: w).length : Int) = (front ++ c :: w).length + 1 := by
        rw [List.length_append]
        omega
      rw [scanLine_of_some hc, place] at h
      rcases List.mem_cons.mp h with rfl | h
      · exact ⟨front, behind, by simp, rfl⟩
      · obtain ⟨before, rest, whole, column⟩ := ih h
        exact ⟨before, rest, by rw [← whole, List.append_assoc, List.cons_append], column⟩

/-- What shows is taken by a token. -/
theorem exists_mem_scanLine {l : Text} {i : Nat} {c : Char} (hi : l[i]? = some c)
    (hc : Text.isBlank c = false) (column : Int) :
    ∃ t ∈ scanLine p line column 0 l, t.column ≤ column + i ∧ column + i < t.endColumn := by
  induction l using scan_induction p generalizing i column with
  | nil => cases hi
  | blank d r hd ih =>
      rw [scanLine_of_none hd]
      cases i with
      | zero =>
          cases hi
          rw [lexeme?_eq_none_iff.mp hd] at hc
          cases hc
      | succ i =>
          obtain ⟨t, ht, start, stop⟩ := ih (i := i) hi (column + 1)
          exact ⟨t, ht, by omega, by omega⟩
  | token d kind w behind hd ih =>
      rw [scanLine_of_some hd]
      by_cases inside : i < (d :: w).length
      · refine ⟨_, List.mem_cons_self .., by simp only; omega, ?_⟩
        simp only [endColumn]
        omega
      · have later : behind[i - (d :: w).length]? = some c := by
          rw [← List.getElem?_append_right (by omega)]
          exact hi
        obtain ⟨t, ht, start, stop⟩ := ih later (column + (d :: w).length)
        exact ⟨t, List.mem_cons_of_mem _ ht, by omega, by omega⟩

theorem mem_scanLines_iff {first : Int} {ls : List Text} :
    t ∈ scanLines p first ls ↔
      ∃ (row : Nat) (l : Text), ls[row]? = some l ∧ t ∈ scanLine p (first + row) 1 0 l := by
  induction ls generalizing first with
  | nil => simp [scanLines]
  | cons l ls ih =>
      rw [scanLines, List.mem_append, ih]
      constructor
      · rintro (h | ⟨row, k, hk, h⟩)
        · exact ⟨0, l, rfl, by simpa using h⟩
        · refine ⟨row + 1, k, hk, ?_⟩
          rwa [show first + (row + 1 : Nat) = first + 1 + row by omega]
      · rintro ⟨row, k, hk, h⟩
        cases row with
        | zero =>
            cases hk
            exact .inl (by simpa using h)
        | succ row =>
            refine .inr ⟨row, k, hk, ?_⟩
            rwa [show first + 1 + row = first + (row + 1 : Nat) by omega]

theorem mem_tokenize_iff {source : Text} :
    t ∈ tokenize p source ↔
      ∃ (row : Nat) (l : Text), (Text.lines source)[row]? = some l ∧
        t ∈ scanLine p (1 + row) 1 0 l :=
  mem_scanLines_iff

theorem tokenize_of_not_newline {l : Text} (h : '\n' ∉ l) :
    tokenize p l = scanLine p 1 1 0 l := by
  rw [tokenize, Text.lines_of_not_newline h, scanLines, scanLines, List.append_nil]

theorem standsIn_of_mem_tokenize {source : Text} (h : t ∈ tokenize p source) :
    t.StandsIn source := by
  obtain ⟨row, l, hl, ht⟩ := mem_tokenize_iff.mp h
  obtain ⟨front, behind, whole, column⟩ := @of_mem_scanLine_append p (1 + row) t [] l ht
  refine ⟨row, l, front, behind, hl, whole, ?_, column⟩
  rw [(of_mem_scanLine ht).1]
  omega

theorem StandsIn.not_newline {source : Text} (h : t.StandsIn source) : '\n' ∉ t.text := by
  obtain ⟨row, l, front, behind, hl, rfl, -, -⟩ := h
  have noNewline := Text.not_newline_of_mem_lines (List.mem_of_getElem? hl)
  simp only [List.mem_append, not_or] at noNewline
  exact noNewline.1.2

theorem exists_covers {source l : Text} {row column : Nat} {c : Char}
    (hl : (Text.lines source)[row]? = some l) (hi : l[column]? = some c)
    (hc : Text.isBlank c = false) : ∃ t ∈ tokenize p source, t.Covers row column := by
  obtain ⟨t, ht, start, stop⟩ : ∃ t ∈ scanLine p (1 + row) 1 0 l,
      t.column ≤ 1 + column ∧ 1 + column < t.endColumn := exists_mem_scanLine hi hc 1
  refine ⟨t, mem_tokenize_iff.mpr ⟨row, l, hl, ht⟩, ?_, by omega, by omega⟩
  rw [(of_mem_scanLine ht).1]
  omega

/-- The tokens of a text in their order: each has a text of its own, stands on one line at
its place, and begins where the one in front has ended. The lines are the text, and outside
the tokens they are blank. -/
theorem tokenize_tiles (p : Profile) (source : Text) :
    (tokenize p source).Pairwise Before ∧
      (∀ t ∈ tokenize p source, t.text ≠ [] ∧ '\n' ∉ t.text ∧ t.StandsIn source) ∧
      Text.unlines (Text.lines source) = source ∧
      ∀ row column l c, (Text.lines source)[row]? = some l → l[column]? = some c →
        Text.isBlank c = true ∨ ∃ t ∈ tokenize p source, t.Covers row column := by
  refine ⟨pairwise_tokenize p source, fun t ht => ?_, Text.unlines_lines source, ?_⟩
  · have stands := standsIn_of_mem_tokenize ht
    exact ⟨ne_nil_of_mem_tokenize ht, stands.not_newline, stands⟩
  · intro row column l c hl hi
    cases hc : Text.isBlank c with
    | true => exact .inl rfl
    | false => exact .inr (exists_covers hl hi hc)

end Token
end MotionExpr
