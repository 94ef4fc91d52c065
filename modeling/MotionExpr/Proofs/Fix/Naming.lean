import MotionExpr.Proofs.Fix.OneIdentifier
import MotionExpr.Proofs.Fix.Spelling
import MotionExpr.Proofs.Lint.CamelCase

/-!
Naming fixes. The fix for a misnamed identifier puts the camel-case form of the name in its place. The
findings on other names are carried along. What is reported in the place of the old name depends on
the form only: on what stands behind the digits that it may begin with.
-/

namespace MotionExpr

open Token

/-- What is reported of a misnamed token. -/
def namingFinding (x : LintContext) (t : Token) : Diagnostic :=
  x.finding .naming t ("'" ++ String.ofList t.text ++ "' should use camelCase naming convention")
    [Naming.toCamelCase t.text]

theorem QuickFix.carry_finish (f : QuickFix) (o : LintOptions) (d : Diagnostic) :
    f.carry (o.finish d) = o.finish (f.carry d) := by
  rw [LintOptions.finish, LintOptions.finish]
  split <;> rfl

/-- The misnamed identifiers of a text. -/
def misnamed (p : Profile) (source : Text) : List Token :=
  (tokenize p source).filter (Check.isMisnamed p)

theorem naming_eq (p : Profile) (o : LintOptions) (source : Text) :
    Check.naming (Linter.context p o source) =
      (misnamed p source).map (namingFinding (Linter.context p o source)) := rfl

section Names

variable {p : Profile} {source n : Text} {t : Token}

theorem filter_isMisnamed (p : Profile) (ts : List Token) :
    (ts.filter (·.isIdentifier)).filter (Check.isMisnamed p) = ts.filter (Check.isMisnamed p) := by
  rw [List.filter_filter]
  refine List.filter_congr fun t _ => ?_
  rw [Check.isMisnamed]
  cases t.isIdentifier <;> simp

/-- Identifiers are no names of the host, so only their form counts. -/
theorem isMisnamed_of_classify (ident : t.isIdentifier = true)
    (kind : classify p t.text = .identifier) :
    Check.isMisnamed p t = !Naming.isCamelCase t.text := by
  rw [classify] at kind
  repeat' split at kind
  all_goals simp_all [Check.isMisnamed]

theorem word_of_misnamed (ht : t ∈ misnamed p source) :
    t ∈ tokenize p source ∧ t.isIdentifier = true ∧ isWord t.text = true := by
  obtain ⟨ht, wrong⟩ := List.mem_filter.mp ht
  rw [Check.isMisnamed, Bool.and_eq_true, Bool.and_eq_true, Bool.and_eq_true] at wrong
  exact ⟨ht, wrong.1.1.1, isWord_of_identifier ht wrong.1.1.1⟩

/-- Where one name is replaced, the others that are misnamed are moved along. -/
theorem exists_misnamed_fixed (ht : t ∈ misnamed p source) (fresh : ∀ c ∈ n, continuesWord c = true)
    (nonempty : n ≠ []) : ∃ front back, misnamed p source = front ++ t :: back ∧
      t ∉ front ∧ t ∉ back ∧ misnamed p ((fixAt t n).apply source) = front.map (t.respelled p n) ++
        ((identifiersIn p t.line t.column n).filter (Check.isMisnamed p) ++
          back.map (t.respelled p n)) := by
  have wrong : Check.isMisnamed p t = true := (List.mem_filter.mp ht).2
  obtain ⟨ht, ident, word⟩ := word_of_misnamed ht
  have now := identifiers_reread ident word fresh nonempty ht
  have distinct := (nodup_tokenize p source).filter (·.isIdentifier)
  obtain ⟨front, back, whole⟩ := List.append_of_mem (List.mem_filter.mpr ⟨ht, ident⟩)
  rw [whole] at now distinct
  have absent : t ∉ front ∧ t ∉ back := by
    rw [← not_or, ← List.mem_append]
    exact (List.nodup_cons.mp (List.perm_middle.nodup_iff.mp distinct)).1
  have moved {us : List Token} (others : t ∉ us) :
      (us.flatMap (t.reread p n)).filter (Check.isMisnamed p) =
        (us.filter (Check.isMisnamed p)).map (t.respelled p n) := by
    rw [flatMap_reread others, List.filter_map]
    refine congrArg (List.map _) (List.filter_congr fun u hu => ?_)
    have differ : u ≠ t := fun same => others (same ▸ hu)
    rw [Function.comp_apply, respelled_of_ne p n differ]
    rfl
  refine ⟨front.filter (Check.isMisnamed p), back.filter (Check.isMisnamed p), ?_,
    fun h => absent.1 (List.mem_of_mem_filter h), fun h => absent.2 (List.mem_of_mem_filter h), ?_⟩
  · rw [misnamed, ← filter_isMisnamed, whole, List.filter_append, List.filter_cons_of_pos wrong]
  · rw [misnamed, ← filter_isMisnamed, now, List.flatMap_append, List.flatMap_cons, reread_self,
      List.filter_append, List.filter_append, moved absent.1, moved absent.2]

/-- What is left of the new text to be reported. -/
theorem filter_identifiersIn_eq_nil_iff (fresh : ∀ c ∈ n, continuesWord c = true) (line column : Int) :
    let rest := n.dropWhile Text.isAsciiDigit
    (identifiersIn p line column n).filter (Check.isMisnamed p) = [] ↔
      rest = [] ∨ Naming.isCamelCase rest = true ∨ classify p rest ≠ .identifier := by
  obtain ⟨digits, rest, whole, hd, behind, kind⟩ := exists_digits fresh
  intro rest'
  rw [show rest' = rest from behind.symm, whole]
  rcases kind with rfl | word
  · rw [List.append_nil, identifiersIn_digits hd]
    exact iff_of_true rfl (.inl rfl)
  · have nonempty : rest ≠ [] := by
      rintro rfl
      cases word
    rw [identifiersIn_digits_word hd word, or_iff_right nonempty]
    split
    · next ident =>
        rw [or_iff_left (not_not.mpr ident), List.filter_singleton,
          isMisnamed_of_classify rfl ident]
        cases Naming.isCamelCase rest <;> simp
    · next other => exact iff_of_true rfl (.inr other)

end Names

section Standard

variable {o : LintOptions} {source : Text} {t u : Token} {n : Text}

/-- What is reported of names that are not in camel case. -/
def namingFindings (o : LintOptions) (source : Text) : List Diagnostic :=
  ((Linter.standard o).lint source).filter (·.rule == Rule.naming.id)

/-- What a run has of a misnamed token. -/
def finishedNaming (o : LintOptions) (source : Text) (t : Token) : Diagnostic :=
  o.finish (namingFinding (Linter.context .standard o source) t)

theorem namingFindings_eq (o : LintOptions) (source : Text) :
    namingFindings o source = if o.isEnabled Rule.naming.id then
      (misnamed .standard source).map (finishedNaming o source) else [] := by
  change ((Linter.standard o).lintWith o source).filter (·.rule == Rule.naming.id) = _
  rw [Linter.filter_lintWith]
  split
  · exact (congrArg (List.map o.finish) (naming_eq .standard o source)).trans List.map_map
  · rfl

theorem quickFixes_finishedNaming (o : LintOptions) (source : Text) (t : Token) :
    (finishedNaming o source t).quickFixes = [fixAt t (Naming.toCamelCase t.text)] := by
  rw [finishedNaming, LintOptions.finish]
  split <;> rfl

/-- No two tokens are reported alike. -/
theorem eq_of_finishedNaming (ht : t ∈ tokenize .standard source) (hu : u ∈ tokenize .standard source)
    (same : finishedNaming o source t = finishedNaming o source u) : t = u := by
  have place (t : Token) : (finishedNaming o source t).line = t.line ∧
      (finishedNaming o source t).column = t.column := by
    rw [finishedNaming, LintOptions.finish]
    split <;> exact ⟨rfl, rfl⟩
  refine eq_of_place ht hu ?_ ?_
  · rw [← (place t).1, same, (place u).1]
  · rw [← (place t).2, same, (place u).2]

/-- What is reported of another name is carried along. -/
theorem finishedNaming_respelled (ht : t ∈ tokenize .standard source)
    (hu : u ∈ tokenize .standard source) (differ : u ≠ t) (clean : '\n' ∉ n) :
    finishedNaming o ((fixAt t n).apply source) (t.respelled .standard n u) =
      (fixAt t n).carry (finishedNaming o source u) := by
  have text : (t.respelled .standard n u).text = u.text := by rw [respelled_of_ne _ n differ]
  rw [finishedNaming, finishedNaming, QuickFix.carry_finish, namingFinding, namingFinding, text,
    finding_respelled o ht hu differ clean]

/-- The findings go on as they were, but for the one that is fixed: in its place stand those on what is
left of the new text. -/
theorem exists_namingFindings_fixed (on : o.isEnabled Rule.naming.id = true)
    (ht : t ∈ misnamed .standard source) (fresh : ∀ c ∈ n, continuesWord c = true) (nonempty : n ≠ []) :
    ∃ front back, namingFindings o source = front ++ finishedNaming o source t :: back ∧
      finishedNaming o source t ∉ front ∧
      namingFindings o ((fixAt t n).apply source) = front.map (fixAt t n).carry ++
        (((identifiersIn .standard t.line t.column n).filter (Check.isMisnamed .standard)).map
            (finishedNaming o ((fixAt t n).apply source)) ++
          back.map (fixAt t n).carry) := by
  obtain ⟨front, back, whole, inFront, inBack, now⟩ := exists_misnamed_fixed ht fresh nonempty
  have member : t ∈ tokenize .standard source := List.mem_of_mem_filter ht
  have sub : ∀ u ∈ front ++ t :: back, u ∈ tokenize .standard source := fun u hu =>
    List.mem_of_mem_filter (whole ▸ hu : u ∈ misnamed .standard source)
  have carried {us : List Token} (others : t ∉ us) (hus : ∀ u ∈ us, u ∈ tokenize .standard source) :
      (us.map (t.respelled .standard n)).map (finishedNaming o ((fixAt t n).apply source)) =
        (us.map (finishedNaming o source)).map (fixAt t n).carry := by
    rw [List.map_map, List.map_map]
    refine List.map_congr_left fun u hu => ?_
    exact finishedNaming_respelled member (hus u hu) (fun same => others (same ▸ hu))
      (not_newline_of_continuesWord fresh)
  refine ⟨front.map (finishedNaming o source), back.map (finishedNaming o source), ?_, ?_, ?_⟩
  · rw [namingFindings_eq, if_pos on, whole, List.map_append, List.map_cons]
  · intro again
    obtain ⟨u, hu, same⟩ := List.mem_map.mp again
    have here := sub u (List.mem_append_left _ hu)
    exact inFront (eq_of_finishedNaming member here same.symm ▸ hu)
  · rw [namingFindings_eq, if_pos on, now, List.map_append, List.map_append,
      carried inFront fun u hu => sub u (List.mem_append_left _ hu),
      carried inBack fun u hu => sub u (List.mem_append_right _ (List.mem_cons_of_mem t hu))]

/-- The naming fix puts the form that the converter gives in the place of the name. This is camel case
just if the name begins with a lower-case letter and is separated. The fix settles the finding, and
carries the others along, just if nothing stands behind the digits of the form, or a name that is in
camel case or known. -/
theorem naming_fix_settles_iff {d : Diagnostic} {f : QuickFix}
    (hd : d ∈ (Linter.standard o).lint source) (hr : d.rule = Rule.naming.id) (hf : f ∈ d.quickFixes) :
    ∃ t ∈ tokenize .standard source, d.Spans t source ∧ f = fixAt t (Naming.toCamelCase t.text) ∧
      (Naming.isCamelCase f.newText = true ↔
        t.text.head?.any Naming.isLowerLetter = true ∧ Naming.Separated t.text) ∧
      let rest := f.newText.dropWhile Text.isAsciiDigit
      (namingFindings o (f.apply source) = ((namingFindings o source).erase d).map f.carry ↔
        rest = [] ∨ Naming.isCamelCase rest = true ∨ classify .standard rest ≠ .identifier) := by
  have member : d ∈ namingFindings o source := List.mem_filter.mpr ⟨hd, beq_iff_eq.mpr hr⟩
  rw [namingFindings_eq] at member
  split at member
  · next on =>
      obtain ⟨t, ht, rfl⟩ := List.mem_map.mp member
      rw [quickFixes_finishedNaming] at hf
      obtain rfl := List.mem_singleton.mp hf
      obtain ⟨here, -, word⟩ := word_of_misnamed ht
      have fresh := Naming.continuesWord_toCamelCase (continuesWord_of_isWord word)
      have nonempty : Naming.toCamelCase t.text ≠ [] :=
        Naming.toCamelCase_ne_nil (continuesWord_of_isWord word) (ne_nil_of_mem_tokenize here)
      refine ⟨t, here, Linter.spans_finish_finding (l := {}) here .., rfl,
        Naming.isCamelCase_toCamelCase_iff word, ?_⟩
      obtain ⟨front, back, before, inFront, after⟩ := exists_namingFindings_fixed on ht fresh nonempty
      have left := filter_identifiersIn_eq_nil_iff (p := .standard) fresh t.line t.column
      refine Iff.trans ?_ left
      rw [before, after, List.erase_append_right _ inFront, List.erase_cons_head, List.map_append,
        List.append_cancel_left_eq, List.append_left_eq_self, List.map_eq_nil_iff]
  · cases member

/-- A capital letter at the front stays where it is, so the fix changes nothing. -/
theorem naming_fix_settles_iff_capital :
    let source := "MyVar".toList
    ∃ d ∈ (Linter.standard {}).lint source, ∃ f ∈ d.quickFixes, d.rule = Rule.naming.id ∧
      f.apply source = source ∧
      namingFindings {} (f.apply source) ≠ ((namingFindings {} source).erase d).map f.carry := by
  intro source
  obtain ⟨d, hd, f, hf, hr, same, text⟩ : ∃ d ∈ (Linter.standard {}).lint source,
      ∃ f ∈ d.quickFixes, d.rule = Rule.naming.id ∧ f.apply source = source ∧
        f.newText = "MyVar".toList := by decide +kernel
  refine ⟨d, hd, f, hf, hr, same, fun settled => ?_⟩
  obtain ⟨t, -, -, -, -, settles⟩ := naming_fix_settles_iff hd hr hf
  have remedy := settles.mp settled
  rw [text] at remedy
  exact absurd remedy (by decide +kernel)

end Standard

end MotionExpr
