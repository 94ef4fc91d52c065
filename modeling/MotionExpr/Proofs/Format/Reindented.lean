import MotionExpr.Proofs.Format.Indented
import MotionExpr.Proofs.Format.Outcome

/-!
Indentation reads the bodies of lines: what stands in front of them does not count. Behind the
pass each body stands behind units of indentation, and a text that has been indented stays as
it is.
-/

namespace MotionExpr

open Text

theorem Text.trimStart_trimStart (l : Text) : trimStart (trimStart l) = trimStart l :=
  List.dropWhile_idempotent (p := isBlank) l

namespace Indentation

/-- A line indented anew: its body behind a whole number of units, or nothing if it is blank. -/
inductive Reindented (unit : IndentUnit) (l : Text) : Text → Prop
  | blank : trimStart l = [] → Reindented unit l []
  | level (n : Nat) : trimStart l ≠ [] → Reindented unit l (unit.atLevel n ++ trimStart l)

variable {unit : IndentUnit}

/-- The bodies are all that is read. -/
theorem indentFrom_map_trimStart (s : State) (ls : List Text) :
    indentFrom unit s (ls.map trimStart) = indentFrom unit s ls := by
  induction ls generalizing s with
  | nil => rfl
  | cons l ls ih =>
      rw [List.map_cons, indentFrom, indentFrom, trimStart_trimStart]
      dsimp only
      rw [ih, ih]

theorem trimEnd_trimStart_eq_nil_iff {l : Text} : trimEnd (trimStart l) = [] ↔ trimStart l = [] := by
  refine ⟨fun h => ?_, fun h => by rw [h]; rfl⟩
  cases hbody : trimStart l with
  | nil => rfl
  | cons c r =>
      have ink := unindented_trimStart l c r hbody
      rw [hbody, show c :: r = [c] ++ r from rfl,
        trimEnd_append_ink (List.forall_mem_singleton.mpr ink)] at h
      exact absurd h (List.cons_ne_nil _ _)

theorem reindented_indentFrom (s : State) (ls : List Text) :
    List.Forall₂ (Reindented unit) ls (indentFrom unit s ls) := by
  induction ls generalizing s with
  | nil => exact .nil
  | cons l ls ih =>
      rw [indentFrom]
      dsimp only
      split
      · next empty =>
          have none := trimEnd_trimStart_eq_nil_iff.mp (List.isEmpty_iff.mp empty)
          rw [none]
          exact .cons (.blank none) (ih _)
      · next full =>
          have some : trimStart l ≠ [] := fun none =>
            full (List.isEmpty_iff.mpr (trimEnd_trimStart_eq_nil_iff.mpr none))
          exact .cons (.level _ some) (ih _)

/-- Indentation brings no characters but those of the unit. -/
theorem Reindented.not_mem {c : Char} (other : unit.char ≠ c) {l u : Text} (h : Reindented unit l u)
    (hl : c ∉ l) : c ∉ u := by
  cases h with
  | blank => exact List.not_mem_nil
  | level n =>
      exact List.not_mem_append (fun hm => other (List.eq_of_mem_replicate hm).symm) fun hm =>
        hl ((List.dropWhile_sublist _).subset hm)

theorem lines_apply (hu : isSpaceOrTab unit.char = true) (t : Text) :
    lines (apply unit t) = indentFrom unit {} (lines t) := by
  have related := @reindented_indentFrom unit {} (lines t)
  refine lines_unlines ?_ fun u hm => ?_
  · intro none
    rw [none] at related
    exact lines_ne_nil t (List.forall₂_nil_right_iff.mp related)
  · have other : unit.char ≠ '\n' := fun same => by
      rw [same] at hu
      cases hu
    exact Line.forall_of_forall₂ related (fun l hl => not_newline_of_mem_lines hl)
      (fun hl h => h.not_mem other hl) u hm

theorem apply_apply (hu : isSpaceOrTab unit.char = true) (t : Text) :
    apply unit (apply unit t) = apply unit t := by
  obtain ⟨rows, hrows, -, aligned⟩ := @exists_aligned unit {} (lines t)
  rw [apply, lines_apply hu, hrows, aligned.indentFrom hu, apply, hrows]

end Indentation

namespace FormatSettings

open Indentation

/-- Two texts with the same bodies get the same indentation, which a second time changes nothing.
Whether there is one depends on the settings only. -/
theorem indentation_reads_bodies (s : FormatSettings) :
    (∀ t u, (lines t).map trimStart = (lines u).map trimStart → s.indentation t = s.indentation u) ∧
      (∀ t, (s.indentation t >>= s.indentation) = s.indentation t) ∧
      ((∃ fault, s.indentUnit = .error fault ∧ ∀ t, s.indentation t = .error fault) ∨
        ∃ unit, s.indentUnit = .ok unit ∧ ∀ t, ∃ u, s.indentation t = .ok u ∧
          List.Forall₂ (Reindented unit) (lines t) (lines u)) := by
  cases hunit : s.indentUnit with
  | error fault =>
      have fails : s.indentation = Plan.failing fault := by rw [indentation, hunit]
      rw [fails]
      exact ⟨fun _ _ _ => rfl, fun _ => rfl, .inl ⟨fault, rfl, fun _ => rfl⟩⟩
  | ok unit =>
      have hu := isSpaceOrTab_of_indentUnit hunit
      have indents : s.indentation = fun t => .ok (Indentation.apply unit t) := by
        rw [indentation, hunit]
      rw [indents]
      refine ⟨fun t u bodies => congrArg Except.ok ?_, fun t => congrArg Except.ok (apply_apply hu t),
        .inr ⟨unit, rfl, fun t => ⟨_, rfl, ?_⟩⟩⟩
      · rw [Indentation.apply, Indentation.apply, ← indentFrom_map_trimStart, bodies,
          indentFrom_map_trimStart]
      · rw [lines_apply hu]
        exact reindented_indentFrom {} (lines t)

/-- A header without braces, a blank line and other indentation in front of the same bodies. -/
theorem indentation_reads_bodies_header :
    (lines "if (a)\n\t b\n  \n".toList).map trimStart =
        (lines "\u00a0if (a)\nb\n\u3000\n \t".toList).map trimStart ∧
      FormatSettings.indentation {} "if (a)\n\t b\n  \n".toList =
        FormatSettings.indentation {} "\u00a0if (a)\nb\n\u3000\n \t".toList :=
  ⟨by decide, (indentation_reads_bodies {}).1 _ _ (by decide)⟩

end FormatSettings
end MotionExpr
