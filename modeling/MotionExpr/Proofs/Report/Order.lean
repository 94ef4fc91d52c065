import Mathlib.Data.Char
import Mathlib.Data.List.Lex
import Mathlib.Data.Prod.Lex
import MotionExpr.Proofs.Fix.Simultaneous
import MotionExpr.Report.Issue

/-!
The order of a report. Issues are compared by file, line and column, texts by their code points. That
is a linear order of places, so the issues of a report go from place to place, and those at one place
stand as they were found.
-/

namespace MotionExpr

theorem Text.le_iff {a b : Text} : Text.le a b = true ↔ a ≤ b := by
  rw [le_iff_lt_or_eq]
  induction a generalizing b with
  | nil =>
      cases b with
      | nil => exact iff_of_true rfl (.inr rfl)
      | cons d s => exact iff_of_true rfl (.inl (List.nil_lt_cons d s))
  | cons c r ih =>
      cases b with
      | nil => exact iff_of_false Bool.false_ne_true (by simp)
      | cons d s =>
          have codes : c.toNat < d.toNat ↔ c < d := Iff.rfl
          rw [Text.le, List.cons_lt_cons_iff, List.cons.injEq, Bool.or_eq_true, Bool.and_eq_true, ih,
            decide_eq_true_eq, beq_iff_eq, codes, or_assoc, and_or_left]

namespace Issue

/-- The file, the line and the column, in this order. -/
def place (i : Issue) : Text ×ₗ Int ×ₗ Int :=
  toLex (i.path, toLex (i.finding.line, i.finding.column))

theorem path_of_place {i j : Issue} (h : i.place = j.place) : i.path = j.path :=
  congrArg (fun x => (ofLex x).1) h

theorem le_iff_place {i j : Issue} : i.le j = true ↔ i.place ≤ j.place := by
  rw [place, place, Prod.Lex.toLex_le_toLex, Prod.Lex.toLex_le_toLex, le]
  dsimp only
  split
  · next same =>
      rw [Bool.or_eq_true, Bool.and_eq_true, decide_eq_true_eq, beq_iff_eq, decide_eq_true_eq, same]
      simp
  · next other =>
      rw [Text.le_iff, le_iff_lt_or_eq]
      simp [other]

/-- Sorted issues go from place to place. -/
theorem pairwise_place_stableSort (issues : List Issue) :
    (stableSort le issues).Pairwise fun i j => i.place ≤ j.place := by
  refine (pairwise_stableSort (fun i j h => ?_) (fun i j k h h' => ?_) issues).imp le_iff_place.mp
  · rw [← Bool.not_eq_true, le_iff_place] at h
    exact le_iff_place.mpr (le_of_not_ge h)
  · exact le_iff_place.mpr ((le_iff_place.mp h).trans (le_iff_place.mp h'))

/-- The issues at one place keep their order. -/
theorem filter_place_stableSort (issues : List Issue) (x : Text ×ₗ Int ×ₗ Int) :
    (stableSort le issues).filter (fun i => i.place = x) = issues.filter fun i => i.place = x := by
  refine filter_stableSort (fun i j hi hj => le_iff_place.mpr (le_of_eq ?_)) issues
  exact (of_decide_eq_true hi).trans (of_decide_eq_true hj).symm

/-- Where the issues at each place are those of another list, what holds there of issues in one file
holds here of issues at one place. -/
theorem pairwise_of_filter_place {R : Issue → Issue → Prop} {shown due : List Issue}
    (stable : ∀ x, (shown.filter fun i => i.place = x) = due.filter fun i => i.place = x)
    (h : due.Pairwise fun i j => i.path = j.path → R i j) :
    shown.Pairwise fun i j => i.place = j.place → R i j := by
  refine List.pairwise_iff_forall_sublist.mpr fun {i j} both same => ?_
  have here : (due.filter fun k => k.place = i.place).Pairwise R := by
    rw [List.pairwise_filter]
    refine h.imp fun related hk hm => related (path_of_place ?_)
    exact (of_decide_eq_true hk).trans (of_decide_eq_true hm).symm
  rw [← stable, List.pairwise_filter] at here
  exact List.pairwise_iff_forall_sublist.mp here both (decide_eq_true rfl) (decide_eq_true same.symm)

end Issue
end MotionExpr
