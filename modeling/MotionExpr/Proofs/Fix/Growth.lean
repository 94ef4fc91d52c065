import MotionExpr.Proofs.Fix.Automatic
import MotionExpr.Proofs.Format.Indented

/-!
Fixing makes texts grow. What is put in the place of a token is the text of the token, or it has
more characters other than `v`: the new names are longer than the deprecated ones, and `var` is the
only word with another one of its length. So a text that is changed does not come back, however
often it is fixed again.
-/

namespace MotionExpr

namespace Text

/-- The number of characters that are no `v`. In this count `let` is longer than `var`. -/
def bulk (t : Text) : Nat := t.countP (· != 'v')

theorem bulk_append (a b : Text) : bulk (a ++ b) = bulk a + bulk b := List.countP_append

/-- A text stays as it is, or it grows. -/
def Grows (t n : Text) : Prop := n = t ∨ bulk t < bulk n

theorem Grows.refl (t : Text) : Grows t t := .inl rfl

theorem Grows.bulk_le {t n : Text} (h : Grows t n) : bulk t ≤ bulk n := by
  cases h with
  | inl same => rw [same]
  | inr more => exact Nat.le_of_lt more

theorem Grows.append {a b c d : Text} (front : Grows a b) (back : Grows c d) :
    Grows (a ++ c) (b ++ d) := by
  have least := front.bulk_le
  have least' := back.bulk_le
  rw [Grows, bulk_append, bulk_append]
  rcases front with rfl | more
  · exact back.imp (congrArg (b ++ ·)) (Nat.add_lt_add_left · _)
  · exact .inr (by omega)

theorem grows_unlines {ls us : List Text} (h : List.Forall₂ Grows ls us) :
    Grows (unlines ls) (unlines us) := by
  induction h with
  | nil => exact .refl _
  | cons first rest ih =>
      cases rest with
      | nil => exact first
      | cons => exact first.append ((Grows.refl ['\n']).append ih)

end Text

open Text Token

section Patch

variable {p : Profile} {new : Token → Option Text}

theorem grows_patchFrom (grow : ∀ t n, new t = some n → Grows t.text n) (line column : Int)
    (l : Text) : Grows l (patchFrom p new line column 0 l) := by
  induction l using scan_induction p generalizing column with
  | nil => exact .refl _
  | blank c r hc ih =>
      rw [patchFrom_of_none hc]
      exact (Grows.refl [c]).append (ih _)
  | token c kind w behind hc ih =>
      rw [patchFrom_of_some hc]
      refine Grows.append (a := c :: w) ?_ (ih _)
      cases hn : new ⟨kind, c :: w, line, column⟩ with
      | none => exact .refl _
      | some n => exact grow _ n hn

theorem forall₂_patchLines (grow : ∀ t n, new t = some n → Grows t.text n) (line : Int)
    (ls : List Text) : List.Forall₂ Grows ls (patchLines p new line ls) := by
  induction ls generalizing line with
  | nil => exact .nil
  | cons l ls ih => exact .cons (grows_patchFrom grow line 1 l) (ih (line + 1))

theorem grows_patch (grow : ∀ t n, new t = some n → Grows t.text n) (source : Text) :
    Grows source (patch p new source) := by
  have whole := grows_unlines (forall₂_patchLines (p := p) grow 1 (lines source))
  rwa [unlines_lines] at whole

theorem not_return_patch (hnew : ∀ t n, new t = some n → '\r' ∉ n) {source : Text}
    (h : '\r' ∉ source) : '\r' ∉ patch p new source :=
  not_return_unlines (not_mem_patchLines hnew 1 fun _ hl hc => h (mem_of_mem_lines hl hc))

end Patch

/-- The new text of a token where the deprecated names are those of the language. -/
theorem grows_of_replaces {p : Profile} (names : p.deprecated = Language.deprecated) {t : Token}
    {n : Text} (h : Replaces p t n) : Grows t.text n ∧ '\n' ∉ n ∧ '\r' ∉ n := by
  cases h with
  | renamed _ hd =>
      have checked : ∀ e ∈ Language.deprecated,
          (e.2.replacement = e.1 ∨ bulk e.1 < bulk e.2.replacement) ∧
            '\n' ∉ e.2.replacement ∧ '\r' ∉ e.2.replacement := by decide
      exact checked _ (names ▸ of_deprecation? hd)
  | declared var hn =>
      have checked : ∀ n ∈ ["let".toList, "const".toList],
          bulk "var".toList < bulk n ∧ '\n' ∉ n ∧ '\r' ∉ n := by decide
      have text : t.text = "var".toList := congrArg Prod.snd (isVar_iff.mp var)
      rw [text]
      exact (checked n hn).imp_left .inr

section Linter

variable {l : Linter} (names : l.profile.deprecated = Language.deprecated) (source : Text)

include names

theorem fixAll_eq_patch :
    fixAll source (l.lint source) = patch l.profile (autoText l source) source :=
  fixAll_lint fun _ _ hn => (grows_of_replaces names (replaces_of_autoText hn)).2.1

/-- To fix a text is to keep it or to make it grow. -/
theorem grows_fixAll : Grows source (fixAll source (l.lint source)) := by
  rw [fixAll_eq_patch names]
  exact grows_patch (fun _ _ hn => (grows_of_replaces names (replaces_of_autoText hn)).1) source

theorem not_return_fixAll (h : '\r' ∉ source) : '\r' ∉ fixAll source (l.lint source) := by
  rw [fixAll_eq_patch names]
  exact not_return_patch (fun _ _ hn => (grows_of_replaces names (replaces_of_autoText hn)).2.2) h

end Linter
end MotionExpr
