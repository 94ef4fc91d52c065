import MotionExpr.Proofs.Format.LineWidths
import MotionExpr.Proofs.Format.OnType
import MotionExpr.Proofs.Format.RangeEdits

/-!
Runs that fail. A run fails in the first pass that does, on the text that the passes in front of it
made. Formatting on typing leaves out the newline at the end, so its passes may see a text without the
newline that a whole run gave it; but every pass treats a newline at the end as what it is, and fails
with it just if it fails without.
-/

namespace MotionExpr

open Text

/-- One text is the other, or the other with a newline behind. -/
def Text.ClosedUpon (t u : Text) : Prop := t = u ∨ t = u ++ ['\n']

/-- A newline behind a text is one behind what is made of it, or is no matter. -/
def Transformation.CarriesNewline (f : Transformation) : Prop :=
  ∀ t, f (t ++ ['\n']) = (f t).map (· ++ ['\n']) ∨ f (t ++ ['\n']) = f t

theorem Transformation.CarriesNewline.of_closedUpon {f : Transformation} (hf : f.CarriesNewline)
    {t u : Text} (h : ClosedUpon t u) :
    (∃ fault, f t = .error fault ∧ f u = .error fault) ∨
      ∃ v w, f t = .ok v ∧ f u = .ok w ∧ ClosedUpon v w := by
  have alike : f t = f u ∨ f t = (f u).map (· ++ ['\n']) := by
    obtain rfl | rfl := h
    · exact .inl rfl
    · exact (hf u).symm
  cases hu : f u with
  | error fault =>
      rw [hu] at alike
      exact .inl ⟨fault, alike.elim id id, rfl⟩
  | ok w =>
      rw [hu] at alike
      obtain same | closed := alike
      · exact .inr ⟨w, w, same, rfl, .inl rfl⟩
      · exact .inr ⟨w ++ ['\n'], w, closed, rfl, .inr rfl⟩

namespace Text

theorem lines_concat_newline (t : Text) : lines (t ++ ['\n']) = lines t ++ [[]] :=
  lines_newline t []

/-- What is made line by line. -/
theorem unlines_map_concat {f : Text → Text} (h : f [] = []) (t : Text) :
    unlines ((lines (t ++ ['\n'])).map f) = unlines ((lines t).map f) ++ ['\n'] := by
  rw [lines_concat_newline, List.map_append, List.map_singleton, h,
    unlines_concat_nil (by simpa using lines_ne_nil t)]

end Text

namespace LineEnd

theorem closedUpon_close {t u : Text} (h : ClosedUpon t u) : ClosedUpon (close t) u := by
  rw [close]
  split
  · exact h
  · next missing =>
      obtain rfl | rfl := h
      · exact .inr rfl
      · exact absurd List.getLast?_concat missing

theorem unifyFrom_concat (behind : Bool) (t : Text) :
    unifyFrom behind (t ++ ['\n']) = unifyFrom behind t ++ ['\n'] ∨
      unifyFrom behind (t ++ ['\n']) = unifyFrom behind t := by
  induction t generalizing behind with
  | nil => cases behind <;> decide
  | cons c t ih =>
      rw [List.cons_append, unifyFrom, unifyFrom]
      split
      · exact (ih true).imp (congrArg _) (congrArg _)
      · split
        · exact ih false
        · exact (ih false).imp (congrArg _) (congrArg _)

theorem close_concat (t : Text) :
    close (t ++ ['\n']) = close t ++ ['\n'] ∨ close (t ++ ['\n']) = close t := by
  rw [close, if_pos List.getLast?_concat, close]
  split
  · exact .inl rfl
  · exact .inr rfl

end LineEnd

namespace Indentation

theorem indentFrom_concat (unit : IndentUnit) (s : State) (ls : List Text) :
    indentFrom unit s (ls ++ [[]]) = indentFrom unit s ls ++ [[]] := by
  induction ls generalizing s with
  | nil => rfl
  | cons l ls ih =>
      rw [List.cons_append, indentFrom, indentFrom]
      dsimp only
      rw [ih, ih]
      split <;> rfl

theorem apply_concat (unit : IndentUnit) (t : Text) :
    apply unit (t ++ ['\n']) = apply unit t ++ ['\n'] := by
  have nonempty : indentFrom unit {} (lines t) ≠ [] := by
    obtain ⟨rows, made, bodies, -⟩ := @exists_aligned unit {} (lines t)
    rw [made]
    intro none
    rw [List.map_eq_nil_iff.mp none] at bodies
    exact lines_ne_nil t (List.map_eq_nil_iff.mp bodies.symm)
  rw [apply, lines_concat_newline, indentFrom_concat, unlines_concat_nil nonempty, apply]

end Indentation

namespace Line

theorem mapM_concat {ε α β : Type} {f : α → Except ε β} {l : α} {u : β} (h : f l = .ok u)
    (ls : List α) : (ls ++ [l]).mapM f = (ls.mapM f).map (· ++ [u]) := by
  have last : [l].mapM f = .ok [u] := by
    rw [List.mapM_cons, h]
    rfl
  rw [List.mapM_append, last]
  cases ls.mapM f <;> rfl

theorem mapLines_concat {f : Text → Except Literal.Fault Text} (h : f [] = .ok []) (t : Text) :
    mapLines f (t ++ ['\n']) = (mapLines f t).map (· ++ ['\n']) := by
  rw [mapLines, mapLines, lines_concat_newline, mapM_concat h]
  cases made : (lines t).mapM f with
  | error fault => rfl
  | ok us =>
      have nonempty : us ≠ [] := by
        rintro rfl
        exact lines_ne_nil t (List.forall₂_nil_right_iff.mp (forall₂_of_mapM made))
      exact congrArg Except.ok (unlines_concat_nil nonempty)

end Line

namespace Wrap

theorem wrapLine_nil (o : FormatOptions) : wrapLine o [] = [[]] := by
  rw [wrapLine]
  split <;> rfl

theorem apply_concat (o : FormatOptions) (t : Text) :
    apply o (t ++ ['\n']) = apply o t ++ ['\n'] := by
  have nonempty : (lines t).flatMap (wrapLine o) ≠ [] := lines_apply o t ▸ lines_ne_nil _
  rw [apply, lines_concat_newline, List.flatMap_append, List.flatMap_singleton, wrapLine_nil,
    unlines_concat_nil nonempty, apply]

/-- Comparing floating-point numbers, which may be neither below nor above each other. -/
theorem float_le_of_lt {x y : Float} (h : x < y) : x ≤ y := by
  have less : x.toModel.unpack.compare y.toModel.unpack = some .lt :=
    eq_of_beq (of_decide_eq_true h : x.toModel.unpack.lt y.toModel.unpack = true)
  refine decide_eq_true (p := x.toModel.unpack.le y.toModel.unpack = true) ?_
  rw [Float.Model.UnpackedFloat.le, less]
  rfl

theorem measureLine_nil (o : FormatOptions) (limit : Float) : measureLine o limit [] = .ok [[]] := by
  rw [measureLine]
  split
  · rfl
  · have inside : (exceeds (0 + 0) limit && !(limit ≤ Float.ofNat 0)) = false := by
      rw [Bool.and_eq_false_imp, exceeds, decide_eq_true_iff, Nat.add_zero]
      intro below
      rw [Bool.not_eq_false', decide_eq_true_iff]
      exact float_le_of_lt below
    exact if_neg (by rw [Bool.not_eq_true]; exact inside)

theorem measure_concat (o : FormatOptions) (limit : Float) (t : Text) :
    measure o limit (t ++ ['\n']) = (measure o limit t).map (· ++ ['\n']) := by
  rw [measure, measure, lines_concat_newline, Line.mapM_concat (measureLine_nil o limit)]
  cases made : (lines t).mapM (measureLine o limit) with
  | error fault => rfl
  | ok pss =>
      have nonempty : pss.flatten ≠ [] := by
        have related := Line.forall₂_of_mapM made
        obtain ⟨l, ls, hlines⟩ := List.exists_cons_of_ne_nil (lines_ne_nil t)
        rw [hlines] at related
        cases related with
        | cons first _ =>
            obtain ⟨u, rfl, -⟩ := of_measureLine first
            exact List.cons_ne_nil _ _
      refine congrArg Except.ok ?_
      dsimp only
      rw [List.flatten_append, List.flatten_singleton, unlines_concat_nil nonempty]

end Wrap

theorem Pass.onLine?_nil {o : FormatOptions} {p : Pass} {f : Text → Except Literal.Fault Text}
    (hf : p.onLine? o = some f) : f [] = .ok [] := by
  cases p with
  | brackets | calls | operators | commas | semicolons | quotes => cases hf; rfl
  | _ => cases hf

theorem Pass.apply_concat (o : FormatOptions) (p : Pass) (t : Text) :
    p.apply o (t ++ ['\n']) = (p.apply o t).map (· ++ ['\n']) ∨
      p.apply o (t ++ ['\n']) = p.apply o t := by
  have onLine {f : Text → Except Literal.Fault Text} (hf : p.onLine? o = some f) :
      p.apply o (t ++ ['\n']) = (p.apply o t).map (· ++ ['\n']) := by
    rw [apply_eq_mapLines hf, apply_eq_mapLines hf, Line.mapLines_concat (onLine?_nil hf)]
  cases p with
  | lineEndings => exact (LineEnd.unifyFrom_concat false t).imp (congrArg Except.ok) (congrArg Except.ok)
  | trailingBlanks => exact .inl (congrArg _ (unlines_map_concat rfl t))
  | indentation => exact .inl (congrArg _ (Indentation.apply_concat o.indentUnit t))
  | lineLength => exact .inl (congrArg _ (Wrap.apply_concat o t))
  | finalNewline => exact (LineEnd.close_concat t).imp (congrArg Except.ok) (congrArg Except.ok)
  | brackets | calls | operators | commas | semicolons | quotes => exact .inl (onLine rfl)

namespace FormatSettings

open Formatter

variable {s : FormatSettings}

theorem carriesNewline_plan {o : FormatOptions} {p : Pass} {f : Transformation}
    (hf : o.plan p = some f) : f.CarriesNewline := by
  intro t
  rw [FormatOptions.plan] at hf
  split at hf
  · cases hf
    dsimp only
    rcases p.apply_concat o t with carried | same
    · rw [carried]
      cases p.apply o t with
      | ok u => exact .inl rfl
      | error fault => exact .inl rfl
    · rw [same]
      exact .inr rfl
  · cases hf

theorem carriesNewline_withTabs {f : Transformation} (h : f.CarriesNewline) :
    Transformation.CarriesNewline (s.withTabs f) := by
  intro t
  rw [withTabs]
  cases s.tabCount with
  | ok tab => exact h t
  | error fault => exact .inl rfl

/-- All passes treat a newline at the end as what it is. -/
theorem carriesNewline_planOf {p : Pass} {f : Transformation} (hf : s.planOf p = some f) :
    f.CarriesNewline := by
  cases p with
  | indentation =>
      cases hf
      intro t
      rw [indentation]
      cases s.indentUnit with
      | ok unit => exact .inl (congrArg Except.ok (Indentation.apply_concat unit t))
      | error fault => exact .inl rfl
  | lineLength =>
      rw [planOf, lineLength] at hf
      split at hf
      · split at hf <;> cases hf
        exact carriesNewline_withTabs fun t => .inl (congrArg Except.ok (Wrap.apply_concat _ t))
      · split at hf <;> cases hf
        exact carriesNewline_withTabs fun t => .inl (Wrap.measure_concat _ _ t)
      · cases hf
        exact fun t => .inl rfl
  | _ => exact carriesNewline_plan (o := s.regular) hf

/-- A run that fails does so without the newline at the end, too. -/
theorem error_withoutNewline {ps : List Pass} {t u : Text} (h : ClosedUpon t u) {failure : PassFailure}
    (run : runPasses s.planOf ps t = .error failure) :
    runPasses (s.planOf.without .finalNewline) ps u = .error failure := by
  induction ps generalizing t u with
  | nil => cases run
  | cons p ps ih =>
      rw [runPasses] at run ⊢
      by_cases last : p = .finalNewline
      · -- the one pass that only the whole run has
        subst last
        rw [Plan.without, if_pos rfl]
        by_cases on : s.regular.insertFinalNewline = true
        · have closes : s.planOf .finalNewline = some fun t => .ok (LineEnd.close t) := if_pos on
          rw [closes] at run
          exact ih (LineEnd.closedUpon_close h) run
        · have leaves : s.planOf .finalNewline = none := if_neg on
          rw [leaves] at run
          exact ih h run
      · rw [Plan.without, if_neg last]
        cases hf : s.planOf p with
        | none =>
            rw [hf] at run
            exact ih h run
        | some f =>
            rw [hf] at run
            dsimp only at run ⊢
            obtain ⟨fault, ht, hu⟩ | ⟨v, w, hv, hw, closed⟩ :=
              (carriesNewline_planOf hf).of_closedUpon h
            · rw [ht] at run
              rw [hu]
              exact run
            · rw [hv] at run
              rw [hw]
              exact ih closed run

end FormatSettings

namespace Formatter

open FormatSettings

/-- The first pass that fails is the one that is named. -/
theorem runPasses_fails {plan : Plan} {before : List Pass} {p : Pass} {act : Transformation}
    {source reached : Text} {fault : PassFault} (run : runPasses plan before source = .ok reached)
    (on : plan p = some act) (fails : act reached = .error fault) (behind : List Pass) :
    runPasses plan (before ++ p :: behind) source = .error ⟨p, fault⟩ := by
  induction before generalizing source with
  | nil =>
      cases run
      rw [List.nil_append, runPasses, on]
      dsimp only
      rw [fails]
  | cons q before ih =>
      rw [List.cons_append, runPasses]
      rw [runPasses] at run
      cases hq : plan q with
      | none =>
          rw [hq] at run
          exact ih run
      | some f =>
          rw [hq] at run
          dsimp only at run ⊢
          cases made : f source with
          | ok t =>
              rw [made] at run
              exact ih run
          | error _ =>
              rw [made] at run
              cases run

section Failed

variable {f : Formatter} {source : Text} {failure : PassFailure}
  (run : runPasses f.plan f.passes source = .error failure)

include run

theorem format_of_error : f.format source = ⟨source, false, some failure⟩ := by
  rw [format, formatWith, run]

theorem formatRange_of_error {text : Text} {r : TextRange} (slice : r.slice text = source) :
    f.formatRange text r = [] := by
  rw [formatRange_eq_nil_iff, slice, format_of_error run]

theorem formatDocument_of_error : f.formatDocument source = [] :=
  formatRange_of_error run (TextRange.slice_whole source)

theorem formatOnType_of_error {s : FormatSettings} (hs : s.plan = .ok f.plan) {text typed l : Text}
    {line : Int} (hl : (lines text)[(line - 1).toNat]? = some l) (body : trim l = source) :
    f.formatOnType text line typed = [] := by
  have fails : runPasses (f.plan.without .finalNewline) f.passes (trim l) = .error failure := by
    rw [← eq_planOf hs] at run ⊢
    exact error_withoutNewline (.inl body.symm) run
  have kept : f.formatWith (f.plan.without .finalNewline) (trim l) = ⟨trim l, false, some failure⟩ := by
    rw [formatWith, fails]
  simp only [formatOnType, hl, kept, Option.isSome_some, Bool.true_or, ite_true, ite_self]

end Failed
end Formatter
end MotionExpr
