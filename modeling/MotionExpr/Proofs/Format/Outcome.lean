import MotionExpr.Proofs.Format.Conservation
import MotionExpr.Format.Engine
import MotionExpr.Format.Plan

/-!
What formatting answers under settings that were accepted, whichever passes run.
No code is lost. Whether a run fails does not depend on the text: it fails if it
has a pass that the settings are of no use to, as a size that is no whole number
or too large.
-/

namespace MotionExpr

open Text

namespace FormatSettings

theorem isSpaceOrTab_of_indentUnit {s : FormatSettings} {unit : IndentUnit}
    (h : s.indentUnit = .ok unit) : isSpaceOrTab unit.char = true := by
  rw [indentUnit] at h
  split at h
  · cases h
    rfl
  · cases hc : s.indentCount with
    | error fault =>
        rw [hc] at h
        cases h
    | ok n =>
        rw [hc] at h
        cases h
        rfl

theorem isBlank_of_indentUnit {s : FormatSettings} {unit : IndentUnit}
    (h : s.indentUnit = .ok unit) : isBlank unit.char = true :=
  isBlank_of_isSpaceOrTab (isSpaceOrTab_of_indentUnit h)

theorem plan_preserves {o : FormatOptions} {p : Pass} {f : Transformation}
    (hf : o.plan p = some f) {t : Text} (h : Literal.mark ∉ t) :
    ∃ u, f t = .ok u ∧ Preserves t u := by
  simp only [FormatOptions.plan] at hf
  split at hf
  · cases hf
    obtain ⟨u, hu, kept⟩ := p.apply_preserves o h
    exact ⟨u, by simp only [hu, PassFault.ofRestored], kept⟩
  · cases hf

theorem indentation_preserves {s : FormatSettings} {t u : Text} (h : s.indentation t = .ok u) :
    Preserves t u := by
  cases hunit : s.indentUnit with
  | error fault =>
      simp only [indentation, hunit] at h
      cases h
  | ok unit =>
      simp only [indentation, hunit] at h
      cases h
      exact .ofInk (Indentation.ink_apply (isBlank_of_indentUnit hunit) t)

theorem measure_preserves {o : FormatOptions} {limit : Float} {t u : Text}
    (h : Wrap.measure o limit t = .ok u) : Preserves t u := by
  cases hp : (lines t).mapM (Wrap.measureLine o limit) with
  | error fault =>
      simp only [Wrap.measure, hp] at h
      cases h
  | ok pieces =>
      simp only [Wrap.measure, hp] at h
      cases h
      have related := Line.forall₂_of_mapM hp
      apply Preserves.ofInk
      rw [filter_unlines (by decide), filter_eq_flatMap_lines (by decide) t]
      clear hp
      generalize lines t = ls at related
      induction related with
      | nil => rfl
      | cons hl _ ih =>
          rw [List.flatten_cons, List.flatMap_append, List.flatMap_cons, ih,
            Wrap.ink_measureLine hl]

/-- Where the pass for long lines succeeds it breaks lines, or measures them. -/
theorem of_lineLength {s : FormatSettings} {f : Transformation} (hf : s.lineLength = some f)
    {t u : Text} (hu : f t = .ok u) :
    u = Wrap.apply s.regular t ∨ ∃ limit, Wrap.measure s.regular limit t = .ok u := by
  have measured {g : Transformation} (hg : s.withTabs g t = .ok u) : g t = .ok u := by
    cases htab : s.tabCount with
    | ok tab => simpa only [withTabs, htab] using hg
    | error fault =>
        simp only [withTabs, htab] at hg
        cases hg
  rw [lineLength] at hf
  split at hf
  · split at hf <;> cases hf
    cases measured hu
    exact .inl rfl
  · next limit _ =>
      split at hf <;> cases hf
      exact .inr ⟨limit, measured hu⟩
  · cases hf
    cases hu

theorem lineLength_preserves {s : FormatSettings} {f : Transformation}
    (hf : s.lineLength = some f) {t u : Text} (hu : f t = .ok u) : Preserves t u := by
  rcases of_lineLength hf hu with rfl | ⟨limit, hm⟩
  · exact .ofInk (Wrap.ink_apply s.regular t)
  · exact measure_preserves hm

theorem planOf_preserves {s : FormatSettings} {p : Pass} {f : Transformation}
    (hf : s.planOf p = some f) {t u : Text} (h : Literal.mark ∉ t) (hu : f t = .ok u) :
    Preserves t u := by
  have regular (hr : s.regular.plan p = some f) : Preserves t u := by
    obtain ⟨v, hv, kept⟩ := plan_preserves hr h
    cases hv.symm.trans hu
    exact kept
  cases p with
  | indentation =>
      cases hf
      exact indentation_preserves hu
  | lineLength => exact lineLength_preserves hf hu
  | _ => exact regular hf

end FormatSettings

namespace Formatter

/-- What every pass of a plan keeps, a run of passes keeps. -/
theorem keeps_of_runPasses {plan : Plan} {P : Text → Prop}
    (keeps : ∀ p f t u, plan p = some f → P t → f t = .ok u → P u) {ps : List Pass} {t u : Text}
    (h : P t) (hu : runPasses plan ps t = .ok u) : P u := by
  induction ps generalizing t with
  | nil =>
      cases hu
      exact h
  | cons p ps ih =>
      rw [runPasses] at hu
      split at hu
      · exact ih h hu
      · next f hf =>
          split at hu
          · next v hv => exact ih (keeps p f t v hf h hv) hu
          · cases hu

theorem runPasses_preserves {plan : Plan}
    (hp : ∀ p f t u, plan p = some f → Literal.mark ∉ t → f t = .ok u → Preserves t u)
    {ps : List Pass} {t u : Text} (h : Literal.mark ∉ t) (hu : runPasses plan ps t = .ok u) :
    Preserves t u := by
  refine keeps_of_runPasses (P := Preserves t) (fun p f v w hf kept hw => ?_) (.refl t) hu
  exact kept.trans (hp p f v w hf (kept.unmarked h) hw)

/-- If what a pass does fails or not for all texts alike, so does a run. -/
theorem runPasses_ok_iff {plan : Plan} {serves : Pass → Prop}
    (hp : ∀ p f t u, plan p = some f → Literal.mark ∉ t → f t = .ok u → Preserves t u)
    (off : ∀ p, plan p = none → serves p)
    (on : ∀ p f t, plan p = some f → Literal.mark ∉ t → ((∃ u, f t = .ok u) ↔ serves p))
    (ps : List Pass) {t : Text} (h : Literal.mark ∉ t) :
    (∃ u, runPasses plan ps t = .ok u) ↔ ∀ p ∈ ps, serves p := by
  induction ps generalizing t with
  | nil => simp [runPasses]
  | cons p ps ih =>
      rw [List.forall_mem_cons]
      cases hf : plan p with
      | none =>
          simp only [runPasses, hf]
          rw [ih h]
          exact (and_iff_right (off p hf)).symm
      | some f =>
          have here := on p f t hf h
          cases hv : f t with
          | error fault =>
              have unserved : ¬serves p := fun hs => by
                obtain ⟨u, hu⟩ := here.mpr hs
                rw [hv] at hu
                cases hu
              simp only [runPasses, hf, hv]
              constructor
              · rintro ⟨u, hu⟩
                cases hu
              · exact fun hall => absurd hall.1 unserved
          | ok v =>
              simp only [runPasses, hf, hv]
              rw [ih ((hp p f t v hf h hv).unmarked h)]
              exact (and_iff_right (here.mp ⟨v, hv⟩)).symm

theorem errors_eq_nil_iff (f : Formatter) (source : Text) :
    (f.format source).errors = [] ↔ ∃ u, runPasses f.plan f.passes source = .ok u := by
  rw [format, formatWith]
  cases runPasses f.plan f.passes source with
  | ok u => simp [FormatResult.errors]
  | error failure => simp [FormatResult.errors]

end Formatter

namespace FormatSettings

section Columns

variable {s : FormatSettings} {n : Int} (hl : s.lineLimit = .columns n)

include hl

end Columns

end FormatSettings
end MotionExpr
