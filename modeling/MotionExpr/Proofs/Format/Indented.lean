import MotionExpr.Proofs.Format.Blanks

/-!
What the passes on the ends of lines and on indentation make of a text, row by row: lines
without trailing blanks, and bodies behind the indentation of their level. Rows that are indented
so already stay as they are.
-/

namespace MotionExpr

open Text

namespace LineEnd

theorem unify_eq_self {t : Text} (h : '\r' ∉ t) : unify t = t := by
  rw [unify]
  induction t with
  | nil => rfl
  | cons c r ih =>
      simp only [List.mem_cons, not_or] at h
      rw [unifyFrom, if_neg (Ne.symm h.1), Bool.and_false, if_neg (by decide), ih h.2]

theorem lines_trim (t : Text) : lines (trim t) = (lines t).map (dropEndWhile isTrailing) := by
  refine lines_unlines (by simpa using lines_ne_nil t) fun l hl hn => ?_
  obtain ⟨k, hk, rfl⟩ := List.mem_map.mp hl
  exact not_newline_of_mem_lines hk ((isPrefix_dropEndWhile isTrailing k).mem hn)

theorem not_return_unify (t : Text) : '\r' ∉ unify t := by
  suffices step : ∀ behind, '\r' ∉ unifyFrom behind t from step false
  induction t with
  | nil => exact fun _ => List.not_mem_nil
  | cons c t ih =>
      intro behind
      rw [unifyFrom]
      split
      · exact List.not_mem_cons_of_ne_of_not_mem (by decide) (ih true)
      · next other =>
          split
          · exact ih false
          · exact List.not_mem_cons_of_ne_of_not_mem (Ne.symm other) (ih false)

end LineEnd

theorem Text.not_return_unlines {ls : List Text} (h : ∀ l ∈ ls, '\r' ∉ l) : '\r' ∉ unlines ls := by
  induction ls with
  | nil => exact List.not_mem_nil
  | cons l ls ih =>
      obtain ⟨here, rest⟩ := List.forall_mem_cons.mp h
      by_cases hnil : ls = []
      · rw [hnil]
        exact here
      · rw [unlines_cons l hnil, List.mem_append, not_or]
        exact ⟨here, List.not_mem_cons_of_ne_of_not_mem (by decide) (ih rest)⟩

namespace Indentation

/-- The rows are indented as they are from this state on. -/
def Aligned (unit : IndentUnit) : State → List Row → Prop
  | _, [] => True
  | s, r :: rs =>
      Unindented r.body ∧
        if (trimEnd r.body).isEmpty then r.indent = [] ∧ Aligned unit s rs
        else r.indent = unit.atLevel (step s (trimEnd r.body)).1 ∧
          Aligned unit (step s (trimEnd r.body)).2 rs

variable {unit : IndentUnit}

/-- Indentation puts lines in rows. -/
theorem exists_aligned (s : State) (ls : List Text) :
    ∃ rows : List Row, indentFrom unit s ls = rows.map Row.text ∧
      rows.map Row.body = ls.map trimStart ∧ Aligned unit s rows := by
  induction ls generalizing s with
  | nil => exact ⟨[], rfl, rfl, trivial⟩
  | cons l ls ih =>
      rw [indentFrom]
      dsimp only
      split
      · next empty =>
          obtain ⟨rows, hrows, bodies, aligned⟩ := ih s
          refine ⟨⟨[], trimStart l⟩ :: rows, ?_, ?_, unindented_trimStart l, ?_⟩
          · rw [hrows]
            rfl
          · rw [List.map_cons, List.map_cons, bodies]
          · rw [if_pos empty]
            exact ⟨rfl, aligned⟩
      · next full =>
          obtain ⟨rows, hrows, bodies, aligned⟩ := ih (step s (trimEnd (trimStart l))).2
          refine ⟨⟨unit.atLevel (step s (trimEnd (trimStart l))).1, trimStart l⟩ :: rows, ?_, ?_,
            unindented_trimStart l, ?_⟩
          · rw [hrows]
            rfl
          · rw [List.map_cons, List.map_cons, bodies]
          · rw [if_neg full]
            exact ⟨rfl, aligned⟩

theorem Aligned.front {s : State} {rows : List Row} (h : Aligned unit s rows) :
    ∀ r ∈ rows, Unindented r.body := by
  induction rows generalizing s with
  | nil => exact fun r hr => absurd hr List.not_mem_nil
  | cons r rows ih =>
      obtain ⟨front, rest⟩ := h
      refine List.forall_mem_cons.mpr ⟨front, ?_⟩
      split at rest
      · exact ih rest.2
      · exact ih rest.2

/-- What stands in front of an aligned body. -/
theorem Aligned.level {s : State} {rows : List Row} (h : Aligned unit s rows) :
    ∀ r ∈ rows, ∃ n, r.indent = unit.atLevel n := by
  induction rows generalizing s with
  | nil => exact fun r hr => absurd hr List.not_mem_nil
  | cons r rows ih =>
      obtain ⟨-, rest⟩ := h
      split at rest
      · refine List.forall_mem_cons.mpr ⟨⟨0, ?_⟩, ih rest.2⟩
        rw [rest.1, IndentUnit.atLevel, Nat.zero_mul, List.replicate_zero]
      · exact List.forall_mem_cons.mpr ⟨⟨_, rest.1⟩, ih rest.2⟩

theorem Aligned.blank (hu : isSpaceOrTab unit.char = true) {s : State} {rows : List Row}
    (h : Aligned unit s rows) : ∀ r ∈ rows, ∀ c ∈ r.indent, isSpaceOrTab c = true := by
  intro r hr c hc
  obtain ⟨n, level⟩ := h.level r hr
  rw [level] at hc
  exact List.eq_of_mem_replicate hc ▸ hu

/-- Nothing stands in front of an empty body. -/
theorem Aligned.bare {s : State} {rows : List Row} (h : Aligned unit s rows) :
    ∀ r ∈ rows, r.body = [] → r.indent = [] := by
  induction rows generalizing s with
  | nil => exact fun r hr => absurd hr List.not_mem_nil
  | cons r rows ih =>
      obtain ⟨-, rest⟩ := h
      split at rest
      · exact List.forall_mem_cons.mpr ⟨fun _ => rest.1, ih rest.2⟩
      · next full =>
          refine List.forall_mem_cons.mpr ⟨fun empty => ?_, ih rest.2⟩
          rw [empty] at full
          exact absurd rfl full

/-- Aligned rows are indented as they are. -/
theorem Aligned.indentFrom (hu : isSpaceOrTab unit.char = true) {s : State} {rows : List Row}
    (h : Aligned unit s rows) :
    indentFrom unit s (rows.map Row.text) = rows.map Row.text := by
  have blank := h.blank hu
  induction rows generalizing s with
  | nil => rfl
  | cons r rows ih =>
      obtain ⟨here, others⟩ := List.forall_mem_cons.mp blank
      obtain ⟨front, rest⟩ := h
      have body : trimStart r.text = r.body :=
        dropWhile_append_stop (fun c hc => isBlank_of_isSpaceOrTab (here c hc)) front
      rw [List.map_cons, Indentation.indentFrom, body]
      dsimp only
      split
      · next empty =>
          rw [if_pos empty] at rest
          rw [ih rest.2 others, Row.text, rest.1]
          rfl
      · next full =>
          rw [if_neg full] at rest
          rw [ih rest.2 others, Row.text, rest.1]

/-- The empty line behind a newline at the end. -/
theorem Aligned.concat {s : State} {rows : List Row} (h : Aligned unit s rows) :
    Aligned unit s (rows ++ [⟨[], []⟩]) := by
  induction rows generalizing s with
  | nil => exact ⟨unindented_nil, (if_pos rfl).mpr ⟨rfl, trivial⟩⟩
  | cons r rows ih =>
      obtain ⟨front, rest⟩ := h
      refine ⟨front, ?_⟩
      split
      · next empty =>
          rw [if_pos empty] at rest
          exact ⟨rest.1, ih rest.2⟩
      · next full =>
          rw [if_neg full] at rest
          exact ⟨rest.1, ih rest.2⟩

end Indentation
end MotionExpr
