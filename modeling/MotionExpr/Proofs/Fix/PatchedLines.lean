import Mathlib.Data.List.Infix
import MotionExpr.Lint.Engine
import MotionExpr.Proofs.Fix.Retokenize

/-!
The lines of a patched text. What stands in the place of a token stays in its line, and a word
that no new name meets occurs in a patched line only where it was.
-/

namespace MotionExpr

open Token

variable {p : Profile} {new : Token → Option Text}

/-- What stands in the place of a token, in its line. -/
def expandMark (p : Profile) (new : Token → Option Text) (t : Token) :
    List (Int × TokenKind × Text) :=
  (expand p new t).map fun x => (t.line, x)

theorem map_mark_patchLines (h : Renames p new) (line : Int) (ls : List Text) :
    (scanLines p line (patchLines p new line ls)).map mark =
      (scanLines p line ls).flatMap (expandMark p new) := by
  induction ls generalizing line with
  | nil => rfl
  | cons l ls ih =>
      have here : ((scanLine p line 1 0 l).flatMap (expand p new)).map (fun x => (line, x)) =
          (scanLine p line 1 0 l).flatMap (expandMark p new) := by
        rw [List.map_flatMap]
        refine List.flatMap_congr fun t ht => ?_
        rw [expandMark, (of_mem_scanLine ht).1]
      rw [patchLines, scanLines, List.map_append, ih, map_mark_scanLine, spell_patchFrom h, here,
        scanLines, List.flatMap_append]

/-- A patched text has the tokens of the text line by line. -/
theorem map_mark_patch (h : Renames p new) (source : Text) :
    (tokenize p (patch p new source)).map mark =
      (tokenize p source).flatMap (expandMark p new) := by
  rw [tokenize, lines_patch h, map_mark_patchLines h]
  rfl

theorem getElem?_patchLines (line : Int) (ls : List Text) (row : Nat) :
    (patchLines p new line ls)[row]? = (ls[row]?).map (patchFrom p new (line + row) 1 0) := by
  induction ls generalizing line row with
  | nil => rfl
  | cons l ls ih =>
      rw [patchLines]
      cases row with
      | zero => simp
      | succ row =>
          have next : line + 1 + row = line + (row + 1 : Nat) := by omega
          rw [List.getElem?_cons_succ, List.getElem?_cons_succ, ih, next]

theorem lineText_patch (h : Renames p new) (o : LintOptions) (source : Text) (line : Int) :
    (Linter.context p o (patch p new source)).lineText line =
      patchFrom p new line 1 0 ((Linter.context p o source).lineText line) := by
  rw [LintContext.lineText, LintContext.lineText]
  split
  · have lines : (Linter.context p o (patch p new source)).lines =
        patchLines p new 1 (Linter.context p o source).lines := lines_patch h source
    have place : 1 + ((line - 1).toNat : Int) = line := by omega
    rw [lines, getElem?_patchLines, place]
    cases ((Linter.context p o source).lines)[(line - 1).toNat]? <;> rfl
  · rfl

/-! Words in patched lines. -/

theorem isPrefix_append_of {u m x y : Text} (h : u <+: m ++ x)
    (behind : ∀ v, v <:+ u → v <+: x → v <+: y) : u <+: m ++ y := by
  induction m generalizing u with
  | nil => exact behind u List.suffix_rfl h
  | cons c m ih =>
      cases u with
      | nil => exact List.nil_prefix
      | cons d u =>
          obtain ⟨same, rest⟩ := List.cons_prefix_cons.mp h
          exact List.cons_prefix_cons.mpr
            ⟨same, ih rest fun v hv => behind v (hv.trans (List.suffix_cons d u))⟩

theorem isInfix_append_of {word m x y : Text} (h : word <:+: m ++ x)
    (across : ∀ v, v <:+ word → v <+: x → v <+: y) (behind : word <:+: x → word <:+: y) :
    word <:+: m ++ y := by
  induction m with
  | nil => exact behind h
  | cons c m ih =>
      rcases List.infix_cons_iff.mp h with front | later
      · exact List.IsPrefix.isInfix (isPrefix_append_of front across)
      · exact List.infix_cons_iff.mpr (.inr (ih later))

/-- No occurrence of the word meets the name: none begins in it, goes through it or ends in it. -/
def Misses (word n : Text) : Prop :=
  (∀ c ∈ word.head?, c ∉ n) ∧ ∀ u, u <:+ word → u ≠ [] → ¬u <+: n ∧ ¬n <+: u

theorem Misses.isInfix_of_append {word n x : Text} (h : Misses word n) (hword : word ≠ [])
    (found : word <:+: n ++ x) : word <:+: x := by
  obtain ⟨c, w, rfl⟩ := List.exists_cons_of_ne_nil hword
  have first : c ∉ n := h.1 c rfl
  clear h
  induction n with
  | nil => exact found
  | cons d n ih =>
      rcases List.infix_cons_iff.mp found with front | later
      · exact absurd (List.cons_prefix_cons.mp front).1 fun same => first (same ▸ List.mem_cons_self ..)
      · exact ih later fun mem => first (List.mem_cons_of_mem _ mem)

theorem isPrefix_of_patchFrom {word : Text} (misses : ∀ t n, new t = some n → Misses word n)
    {u : Text} (hu : u <:+ word) {line column : Int} {t : Text}
    (h : u <+: patchFrom p new line column 0 t) : u <+: t := by
  induction t using scan_induction p generalizing u column with
  | nil => exact h
  | blank c r hc ih =>
      rw [patchFrom_of_none hc] at h
      exact isPrefix_append_of (m := [c]) h fun v hv => ih (hv.trans hu)
  | token c kind w behind hc ih =>
      rw [patchFrom_of_some hc] at h
      cases hn : new ⟨kind, c :: w, line, column⟩ with
      | none =>
          rw [hn, Option.getD_none] at h
          exact isPrefix_append_of (m := c :: w) h fun v hv => ih (hv.trans hu)
      | some n =>
          rw [hn, Option.getD_some] at h
          by_cases empty : u = []
          · exact empty ▸ List.nil_prefix
          · obtain ⟨notIn, notThrough⟩ := (misses _ n hn).2 u hu empty
            rcases List.prefix_or_prefix_of_prefix h (List.prefix_append n _) with inside | through
            · exact absurd inside notIn
            · exact absurd through notThrough

/-- A word that misses the new names occurs in a patched line only if it did before. -/
theorem isInfix_of_patchFrom {word : Text} (hword : word ≠ [])
    (misses : ∀ t n, new t = some n → Misses word n) {line column : Int} {t : Text}
    (h : word <:+: patchFrom p new line column 0 t) : word <:+: t := by
  induction t using scan_induction p generalizing column with
  | nil => exact h
  | blank c r hc ih =>
      rw [patchFrom_of_none hc] at h
      exact isInfix_append_of (m := [c]) h (fun v hv => isPrefix_of_patchFrom misses hv) ih
  | token c kind w behind hc ih =>
      rw [patchFrom_of_some hc] at h
      cases hn : new ⟨kind, c :: w, line, column⟩ with
      | none =>
          rw [hn, Option.getD_none] at h
          exact isInfix_append_of (m := c :: w) h (fun v hv => isPrefix_of_patchFrom misses hv) ih
      | some n =>
          rw [hn, Option.getD_some] at h
          exact (ih ((misses _ n hn).isInfix_of_append hword h)).trans
            (List.suffix_append (c :: w) behind).isInfix

end MotionExpr
