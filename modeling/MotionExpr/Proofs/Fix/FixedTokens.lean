import MotionExpr.Proofs.Fix.ErrorCount
import MotionExpr.Proofs.Lint.Spans

/-!
The tokens after all fixes. A token that rules flag gives way to the tokens of one new text,
that of the first rule with a quick fix for it; the others stay as they are, in their lines.
-/

namespace MotionExpr

open Token

/-- The finding spans just the token. -/
def Diagnostic.flags (d : Diagnostic) (t : Token) : Bool :=
  d.line == t.line && d.column == t.column && d.endLine == t.line && d.endColumn == t.endColumn

/-- The fix for a token: of the rules that fix unattended, in the order of the catalogue, the
first decides that flags the token and offers a quick fix, and its first quick fix is taken. -/
def fixFor? (found : List Diagnostic) (t : Token) : Option QuickFix :=
  (Rule.all.filter (·.autoFixable)).findSome? fun r =>
    ((found.filter fun d => d.rule == r.id && d.flags t).flatMap (·.quickFixes)).head?

/-- What the fixes for some findings put in the place of a token, in its line. -/
def replacement (found : List Diagnostic) (t : Token) : List (Int × TokenKind × Text) :=
  match fixFor? found t with
  | none => [mark t]
  | some f => (tokenize .standard f.newText).map fun u => (t.line, spelling u)

/-- A fix spans just the token. -/
def QuickFix.isAt (t : Token) (f : QuickFix) : Bool :=
  f.line == t.line && f.column == t.column && f.endLine == t.line && f.endColumn == t.endColumn

theorem findSome?_of_mem {α β : Type} [DecidableEq α] {a : α} {as : List α} (h : a ∈ as)
    (y : Option β) : (as.findSome? fun b => if b = a then y else none) = y := by
  cases y with
  | none => exact List.findSome?_eq_none_iff.mpr fun b _ => by split <;> rfl
  | some y =>
      induction as with
      | nil => cases h
      | cons b bs ih =>
          rw [List.findSome?_cons]
          by_cases hb : b = a
          · rw [if_pos hb]
          · rw [if_neg hb]
            exact ih ((List.mem_cons.mp h).resolve_left fun e => hb e.symm)

section Rules

variable {p : Profile} {o : LintOptions} {source : Text} {r : Rule} {t : Token}

theorem isAt_fixAt {s : Token} (hs : s ∈ tokenize p source) (ht : t ∈ tokenize p source)
    (n : Text) : (fixAt s n).isAt t = decide (s = t) := by
  rw [Bool.eq_iff_iff, decide_eq_true_eq]
  simp only [QuickFix.isAt, Bool.and_eq_true, beq_iff_eq]
  constructor
  · exact fun h => eq_of_place hs ht h.1.1.1 h.1.1.2
  · rintro rfl
    exact ⟨⟨⟨rfl, rfl⟩, rfl⟩, rfl⟩

/-- A fix stands where its finding does. -/
theorem isAt_of_autoFix? {d : Diagnostic} {f : QuickFix} (h : d.autoFix? = some f) :
    f.isAt t = d.flags t := by
  rw [Diagnostic.autoFix?] at h
  split at h
  · obtain ⟨n, -, rfl⟩ := List.mem_map.mp (List.mem_of_head? h)
    rfl
  · cases h

theorem findSome?_congr {α β : Type} {f g : α → Option β} {as : List α}
    (h : ∀ a ∈ as, f a = g a) : as.findSome? f = as.findSome? g := by
  rw [← List.head?_filterMap, ← List.head?_filterMap, List.filterMap_congr h]

theorem filterMap_autoFix?_filter_flags (found : List Diagnostic) :
    (found.filter (·.flags t)).filterMap (·.autoFix?) =
      (found.filterMap (·.autoFix?)).filter (·.isAt t) := by
  rw [List.filterMap_filter, List.filter_filterMap]
  refine List.filterMap_congr fun d _ => ?_
  cases h : d.autoFix? with
  | none => simp
  | some f => simp [Option.filter, isAt_of_autoFix? h]

/-- The fix that a rule has for a token. -/
theorem head?_quickFixes_report (auto : r.autoFixable = true) (ht : t ∈ tokenize p source) :
    ((((r.report (Linter.context p o source)).map o.finish).filter (·.flags t)).flatMap
        (·.quickFixes)).head? =
      (r.newText p o (tokenize p source) t).map (fixAt t) := by
  have offers : ∀ d ∈ ((r.report (Linter.context p o source)).map o.finish).filter (·.flags t),
      d.quickFixes.head? = d.autoFix? := by
    intro d hd
    have rule : d.rule = r.id := LintOptions.rule_of_mem_finished (List.mem_filter.mp hd).1
    rw [Diagnostic.autoFix?, Diagnostic.isAutoFixable, rule, Rule.ofId?_id]
    exact (if_pos auto).symm
  have finished : ((r.report (Linter.context p o source)).map o.finish).filterMap (·.autoFix?) =
      (r.report (Linter.context p o source)).filterMap (·.autoFix?) := by
    rw [List.filterMap_map]
    refine List.filterMap_congr fun d _ => ?_
    obtain ⟨severity, h⟩ := Linter.finish_finding o d
    rw [Function.comp_apply, h]
    rfl
  have single : ∀ s ∈ tokenize p source,
      Option.filter (·.isAt t) ((r.newText p o (tokenize p source) s).map (fixAt s)) =
        if s = t then (r.newText p o (tokenize p source) t).map (fixAt t) else none := by
    intro s hs
    by_cases h : s = t
    · subst h
      cases r.newText p o (tokenize p source) s with
      | none => simp
      | some n => simp [Option.filter, isAt_fixAt ht ht]
    · cases r.newText p o (tokenize p source) s with
      | none => simp [h]
      | some n => simp [Option.filter, isAt_fixAt hs ht, h]
  rw [List.head?_flatMap, findSome?_congr offers, ← List.head?_filterMap,
    filterMap_autoFix?_filter_flags, finished, autoFixes_report, List.filter_filterMap,
    List.filterMap_congr single, List.head?_filterMap, findSome?_of_mem ht]

end Rules

variable {o : LintOptions} {source : Text} {t : Token}

/-- A rule sees the findings of its own among those of a run. -/
theorem head?_quickFixes_lint {r : Rule} (auto : r.autoFixable = true)
    (ht : t ∈ tokenize .standard source) :
    ((((Linter.standard o).lint source).filter fun d => d.rule == r.id && d.flags t).flatMap
        (·.quickFixes)).head? =
      if o.isEnabled r.id then (r.newText .standard o (tokenize .standard source) t).map (fixAt t)
      else none := by
  have own : (((Linter.standard o).lint source).filter fun d => d.rule == r.id && d.flags t) =
      (((Linter.standard o).lintWith o source).filter (·.rule == r.id)).filter (·.flags t) := by
    rw [List.filter_filter]
    exact List.filter_congr fun d _ => Bool.and_comm ..
  rw [own, Linter.filter_lintWith]
  split
  · exact head?_quickFixes_report auto ht
  · rfl

theorem fixFor?_lint (ht : t ∈ tokenize .standard source) :
    fixFor? ((Linter.standard o).lint source) t =
      (autoText (Linter.standard o) source t).map (fixAt t) := by
  have found : fixFor? ((Linter.standard o).lint source) t =
      (Rule.all.filter (·.autoFixable)).findSome? fun r =>
        if o.isEnabled r.id then (r.newText .standard o (tokenize .standard source) t).map (fixAt t)
        else none :=
    findSome?_congr fun r hr => head?_quickFixes_lint (List.mem_filter.mp hr).2 ht
  rw [found, autoText, QuickFix.chosenText, offered, List.filterMap_map, ← List.head?_map,
    List.map_filterMap, ← List.head?_filterMap, List.filterMap_filter, Linter.enabledRules,
    List.filterMap_filter]
  congr 2
  funext r
  by_cases auto : r.autoFixable = true
  · rw [if_pos auto]
    rfl
  · rw [if_neg auto]
    split
    · exact (congrArg (Option.map (fixAt t)) (Rule.newText_of_not_autoFixable
        (Bool.eq_false_iff.mpr auto) ..)).symm
    · rfl

/-- All fixes of a run replace tokens by tokens. -/
theorem tokens_fixAll (o : LintOptions) (source : Text) :
    (tokenize .standard (fixAll source ((Linter.standard o).lint source))).map mark =
      (tokenize .standard source).flatMap (replacement ((Linter.standard o).lint source)) := by
  change (tokenize .standard (fixed o source)).map mark = _
  rw [map_mark_fixed]
  refine List.flatMap_congr fun t ht => ?_
  rw [replacement, fixFor?_lint ht, expandMark, expand]
  cases h : autoText (Linter.standard o) source t with
  | none => rfl
  | some n =>
      have line := ((renames_autoText o source).fresh t n h).oneLine
      have spelled : (tokenize .standard n).map spelling = spell (lexemes .standard n) := by
        rw [map_spelling_tokenize, Text.lines_of_not_newline line, List.flatMap_singleton]
      simp only [Option.map_some, ← spelled, List.map_map]
      rfl

end MotionExpr
