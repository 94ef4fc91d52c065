import MotionExpr.Proofs.Token.Lexemes

/-!
The order of the tokens of a text: each has a text of its own and stands on a
later line than those in front of it, or behind them on the same one.
-/

namespace MotionExpr
namespace Token

/-- A token without its column. -/
def mark (t : Token) : Int × TokenKind × Text := (t.line, spelling t)

/-- One token begins in front of the other and ends where that one begins or earlier. -/
def Before (a b : Token) : Prop :=
  a.line < b.line ∨ a.line = b.line ∧ a.column < b.column ∧ a.endColumn ≤ b.column

variable {p : Profile}

theorem of_mem_scanLine {line column : Int} {l : Text} {t : Token}
    (h : t ∈ scanLine p line column 0 l) :
    t.line = line ∧ column ≤ t.column ∧ t.text ≠ [] := by
  induction l using scan_induction p generalizing column with
  | nil => cases h
  | blank c r hc ih =>
      rw [scanLine_of_none hc] at h
      obtain ⟨hline, hcolumn, hne⟩ := ih h
      exact ⟨hline, by omega, hne⟩
  | token c kind w behind hc ih =>
      rw [scanLine_of_some hc] at h
      rcases List.mem_cons.mp h with rfl | h
      · exact ⟨rfl, Int.le_refl _, List.cons_ne_nil c w⟩
      · obtain ⟨hline, hcolumn, hne⟩ := ih h
        exact ⟨hline, by omega, hne⟩

theorem pairwise_scanLine (line column : Int) (l : Text) :
    (scanLine p line column 0 l).Pairwise Before := by
  induction l using scan_induction p generalizing column with
  | nil => exact .nil
  | blank c r hc ih =>
      rw [scanLine_of_none hc]
      exact ih _
  | token c kind w behind hc ih =>
      rw [scanLine_of_some hc]
      refine .cons (fun t ht => ?_) (ih _)
      obtain ⟨hline, hcolumn, -⟩ := of_mem_scanLine ht
      have longer : 0 < (c :: w).length := Nat.succ_pos _
      exact .inr ⟨hline.symm, by simp only; omega, hcolumn⟩

theorem of_mem_scanLines {line : Int} {ls : List Text} {t : Token}
    (h : t ∈ scanLines p line ls) : line ≤ t.line ∧ t.text ≠ [] := by
  induction ls generalizing line with
  | nil => cases h
  | cons l ls ih =>
      rcases List.mem_append.mp h with h | h
      · obtain ⟨hline, -, hne⟩ := of_mem_scanLine h
        exact ⟨Int.le_of_eq hline.symm, hne⟩
      · obtain ⟨hline, hne⟩ := ih h
        exact ⟨by omega, hne⟩

theorem pairwise_scanLines (line : Int) (ls : List Text) :
    (scanLines p line ls).Pairwise Before := by
  induction ls generalizing line with
  | nil => exact .nil
  | cons l ls ih =>
      refine List.pairwise_append.mpr ⟨pairwise_scanLine line 1 l, ih _, fun a ha b hb => ?_⟩
      have here := (of_mem_scanLine ha).1
      have there := (of_mem_scanLines hb).1
      exact .inl (by omega)

theorem pairwise_tokenize (p : Profile) (source : Text) :
    (tokenize p source).Pairwise Before := pairwise_scanLines 1 _

theorem ne_nil_of_mem_tokenize {source : Text} {t : Token} (h : t ∈ tokenize p source) :
    t.text ≠ [] := (of_mem_scanLines h).2

theorem map_mark_scanLine (line column : Int) (l : Text) :
    (scanLine p line column 0 l).map mark = (spell (lexemes p l)).map fun x => (line, x) := by
  rw [← map_spelling_scanLine line column, List.map_map]
  refine List.map_congr_left fun t ht => ?_
  rw [mark, (of_mem_scanLine ht).1]
  rfl

theorem column_lt_endColumn {t : Token} (h : t.text ≠ []) : t.column < t.endColumn := by
  have := List.length_pos_iff.mpr h
  rw [endColumn]
  omega

end Token
end MotionExpr
