import MotionExpr.Proofs.Text.Characters
import MotionExpr.Proofs.Format.Lines
import MotionExpr.Format.Literal

/-!
What formatting has to keep: the characters that show, in their order, with the
two quotes taken for one. Semicolons may be added, so they are the only
difference that is allowed.
-/

namespace MotionExpr
namespace Text

/-- Both quotes as one. -/
def plainQuote (c : Char) : Char := if c = '\'' then '"' else c

theorem isInk_plainQuote (c : Char) : isInk (plainQuote c) = isInk c := by
  simp only [plainQuote]
  split
  · next h => rw [h]; rfl
  · rfl

/-- The characters that show, without a difference between quotes. -/
def essence (t : Text) : Text := (t.map plainQuote).filter isInk

theorem essence_eq (t : Text) : essence t = (t.filter isInk).map plainQuote := by
  rw [essence, List.filter_map]
  congr 2
  funext c
  exact isInk_plainQuote c

theorem essence_append (a b : Text) : essence (a ++ b) = essence a ++ essence b := by
  rw [essence, List.map_append, List.filter_append]
  rfl

theorem essence_unlines (ls : List Text) : essence (unlines ls) = ls.flatMap essence := by
  rw [essence_eq, filter_unlines (by decide), List.map_flatMap]
  congr 1
  funext l
  exact (essence_eq l).symm

theorem mem_essence_mark (t : Text) : Literal.mark ∈ essence t ↔ Literal.mark ∈ t := by
  rw [essence_eq, List.mem_map]
  constructor
  · rintro ⟨c, hc, hmark⟩
    have same : c = Literal.mark := by
      simp only [plainQuote] at hmark
      split at hmark
      · exact absurd hmark (by decide)
      · exact hmark
    exact same ▸ (List.mem_filter.mp hc).1
  · intro h
    exact ⟨_, List.mem_filter.mpr ⟨h, by decide⟩, rfl⟩

/-- All that shows comes back, in its order; only semicolons are added. -/
structure Preserves (source result : Text) : Prop where
  sublist : (essence source).Sublist (essence result)
  onlySemicolons : (essence source).filter (· ≠ ';') = (essence result).filter (· ≠ ';')

namespace Preserves

theorem ofEssence {source result : Text} (h : essence result = essence source) :
    Preserves source result where
  sublist := h ▸ .refl _
  onlySemicolons := by rw [h]

theorem ofInk {source result : Text} (h : result.filter isInk = source.filter isInk) :
    Preserves source result :=
  ofEssence (by rw [essence_eq, essence_eq, h])

theorem refl (t : Text) : Preserves t t := ofEssence rfl

theorem trans {source middle result : Text} (first : Preserves source middle)
    (second : Preserves middle result) : Preserves source result where
  sublist := first.sublist.trans second.sublist
  onlySemicolons := first.onlySemicolons.trans second.onlySemicolons

theorem insert (front back : Text) : Preserves (front ++ back) (front ++ ';' :: back) := by
  have semicolon : essence (';' :: back) = ';' :: essence back := essence_append [';'] back
  constructor
  · rw [essence_append, essence_append, semicolon]
    exact (List.Sublist.refl _).append (List.sublist_cons_self ..)
  · simp [essence_append, semicolon]

theorem unlines {ls us : List Text} (h : List.Forall₂ Preserves ls us) :
    Preserves (Text.unlines ls) (Text.unlines us) := by
  suffices both : (ls.flatMap essence).Sublist (us.flatMap essence) ∧
      (ls.flatMap essence).filter (· ≠ ';') = (us.flatMap essence).filter (· ≠ ';') by
    rw [← essence_unlines, ← essence_unlines] at both
    exact ⟨both.1, both.2⟩
  induction h with
  | nil => exact ⟨.refl _, rfl⟩
  | cons hl _ ih =>
      simp only [List.flatMap_cons, List.filter_append]
      exact ⟨hl.sublist.append ih.1, by rw [hl.onlySemicolons, ih.2]⟩

theorem unmarked {source result : Text} (h : Preserves source result)
    (hm : Literal.mark ∉ source) : Literal.mark ∉ result := by
  have through (t : Text) :
      Literal.mark ∈ (essence t).filter (· ≠ ';') ↔ Literal.mark ∈ t := by
    rw [List.mem_filter, mem_essence_mark]
    exact and_iff_left (by decide)
  rw [← through, ← h.onlySemicolons, through]
  exact hm

end Preserves
end Text
end MotionExpr
