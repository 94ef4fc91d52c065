import MotionExpr.Proofs.Fix.ErrorCount
import MotionExpr.Proofs.Fix.OneName
import MotionExpr.Proofs.Lint.Spans

/-!
Spelling fixes. The fix for a name that nothing defines puts a defined name in its place. The
token was no declared name, so the text declares the same names as before, and of the identifiers
that nothing defines just this one is gone; the findings on the others are carried along.
-/

namespace MotionExpr

open Token

/-- A finding after a fix of one line. -/
def QuickFix.carry (f : QuickFix) (d : Diagnostic) : Diagnostic :=
  { d with
    column := f.columnAfter d.line d.column
    endColumn := f.columnAfter d.endLine d.endColumn
    source := if d.line = f.line then f.replaceInLine d.source else d.source }

/-- What is reported of a token whose name is not defined. -/
def undefinedFinding (x : LintContext) (t : Token) : Diagnostic :=
  x.finding .undefinedNames t ("'" ++ String.ofList t.text ++ "' is not defined")
    (Spelling.similar t.text (Check.definedNames x.profile x.tokens))

/-- An identifier that nothing defines. -/
def isUndefinedIn (p : Profile) (defined : List Text) (t : Token) : Bool :=
  t.isIdentifier && !Check.isKnown p defined t.text

theorem undefinedNames_eq (x : LintContext) : Check.undefinedNames x =
    (x.tokens.filter (isUndefinedIn x.profile (Check.definedNames x.profile x.tokens))).map
      (undefinedFinding x) := rfl

/-- What is made of one element less. -/
theorem map_filter_eq_erase {α β : Type} [DecidableEq α] [DecidableEq β] {as : List α} {a : α}
    {q r : α → Bool} {f : α → β} (distinct : ((as.filter q).map f).Nodup)
    (only : ∀ b ∈ as, f b = f a → b = a) (less : ∀ b ∈ as, r b = (b != a && q b)) :
    (as.filter r).map f = ((as.filter q).map f).erase (f a) := by
  rw [distinct.erase_eq_filter, List.filter_map, List.filter_filter, List.filter_congr]
  intro b hb
  have same : (f b != f a) = (b != a) := by
    rw [Bool.eq_iff_iff, bne_iff_ne, bne_iff_ne]
    exact not_congr ⟨only b hb, congrArg f⟩
  rw [less b hb, Function.comp_apply, same]

section Respelled

variable {p : Profile} {o : LintOptions} {source n : Text} {t u : Token}

/-- Start and end of another token are moved together. -/
theorem endColumn_respelled (ht : t ∈ tokenize p source) (hu : u ∈ tokenize p source)
    (differ : u ≠ t) :
    (t.respelled p n u).endColumn = (fixAt t n).columnAfter u.line u.endColumn := by
  have lengthT := column_lt_endColumn (ne_nil_of_mem_tokenize ht)
  have lengthU := column_lt_endColumn (ne_nil_of_mem_tokenize hu)
  have apart := before_or_before hu ht differ
  have together : (u.line = (fixAt t n).line ∧ (fixAt t n).column < u.column) ↔
      u.line = (fixAt t n).line ∧ (fixAt t n).column < u.endColumn := by
    simp only [fixAt_line, fixAt_column]
    rcases apart with (before | before) | (before | before) <;> omega
  rw [respelled_of_ne p n differ, QuickFix.columnAfter, QuickFix.columnAfter]
  by_cases behind : u.line = (fixAt t n).line ∧ (fixAt t n).column < u.column
  · rw [if_pos behind, if_pos (together.mp behind)]
    simp only [endColumn]
    omega
  · rw [if_neg behind, if_neg (mt together.mpr behind)]

theorem declares_respelled (ident : t.isIdentifier = true)
    (plain : (t.respelled p n t).declares = false) (u : Token) :
    (t.respelled p n u).declares = u.declares := by
  by_cases same : u = t
  · have none : t.declares = false := by
      simp_all [declares, isKeyword, isIdentifier]
    rw [same, plain, none]
  · rw [respelled_of_ne p n same]
    rfl

/-- A name that is declared stays so, if the token respelled declares nothing. -/
theorem definedNames_respelled (ident : t.isIdentifier = true)
    (plain : (t.respelled p n t).declares = false)
    (unknown : t.text ∉ Check.definedNames p (tokenize p source)) :
    Check.definedNames p ((tokenize p source).map (t.respelled p n)) =
      Check.definedNames p (tokenize p source) := by
  have undeclared : t ∉ Declaration.declaredAfter (tokenize p source) := fun declared =>
    unknown (List.contains_iff_mem.mp
      (Check.contains_definedNames.mpr (.inl (List.mem_map.mpr ⟨t, declared, rfl⟩))))
  have kept (u : Token) (differ : u ≠ t) : (t.respelled p n u).isIdentifier = u.isIdentifier := by
    rw [respelled_of_ne p n differ]
    rfl
  refine Check.definedNames_congr ?_
  rw [Declaration.declaredAfter_map (respelled_line p t n) kept ident
    (declares_respelled ident plain) undeclared, List.map_map]
  refine List.map_congr_left fun u hu => ?_
  have differ : u ≠ t := by
    rintro rfl
    exact undeclared hu
  rw [Function.comp_apply, respelled_of_ne p n differ]

/-- What is reported of another token is carried along. -/
theorem finding_respelled (o : LintOptions) (ht : t ∈ tokenize p source) (hu : u ∈ tokenize p source)
    (differ : u ≠ t) (clean : '\n' ∉ n) (r : Rule) (message : String) (suggestions : List Text) :
    (Linter.context p o ((fixAt t n).apply source)).finding r (t.respelled p n u) message suggestions =
      (fixAt t n).carry ((Linter.context p o source).finding r u message suggestions) := by
  have ends := endColumn_respelled (n := n) ht hu differ
  have line := lineText_respelled o ht clean u.line
  rw [respelled_of_ne p n differ] at ends ⊢
  simp only [LintContext.finding, QuickFix.carry, ends, line, fixAt_line]
  rfl

theorem undefinedFinding_respelled (o : LintOptions) (ht : t ∈ tokenize p source)
    (hu : u ∈ tokenize p source) (differ : u ≠ t) (fresh : isWord n = true)
    (names : Check.definedNames p (tokenize p ((fixAt t n).apply source)) =
      Check.definedNames p (tokenize p source)) :
    undefinedFinding (Linter.context p o ((fixAt t n).apply source)) (t.respelled p n u) =
      (fixAt t n).carry (undefinedFinding (Linter.context p o source) u) := by
  have text : (t.respelled p n u).text = u.text := by rw [respelled_of_ne p n differ]
  have context (source : Text) : (Linter.context p o source).tokens = tokenize p source := rfl
  have profile (source : Text) : (Linter.context p o source).profile = p := rfl
  rw [undefinedFinding, undefinedFinding, text, context, context, profile, profile, names]
  exact finding_respelled o ht hu differ (not_newline_of_isWord fresh) ..

/-- No two tokens are reported alike. -/
theorem eq_of_undefinedFinding {x : LintContext} (ht : t ∈ tokenize p source)
    (hu : u ∈ tokenize p source) (same : undefinedFinding x t = undefinedFinding x u) : t = u :=
  eq_of_place ht hu (congrArg Diagnostic.line same) (congrArg Diagnostic.column same)

theorem nodup_undefinedNames (p : Profile) (o : LintOptions) (source : Text) :
    (Check.undefinedNames (Linter.context p o source)).Nodup :=
  (pairwise_report (x := Linter.context p o source) (pairwise_tokenize p source)
    .undefinedNames).imp fun before same => by
      rcases before with before | before <;> simp [same] at before

/-- A name respelled as a defined one: what is reported of the others is carried along, and
nothing else is reported. -/
theorem undefinedNames_respelled (o : LintOptions) (ht : t ∈ tokenize p source)
    (ident : t.isIdentifier = true)
    (unknown : Check.isKnown p (Check.definedNames p (tokenize p source)) t.text = false)
    (defined : n ∈ Check.definedNames p (tokenize p source)) (fresh : isWord n = true)
    (plain : (t.respelled p n t).declares = false) :
    Check.undefinedNames (Linter.context p o ((fixAt t n).apply source)) =
      ((Check.undefinedNames (Linter.context p o source)).erase
        (undefinedFinding (Linter.context p o source) t)).map (fixAt t n).carry := by
  have tokens : tokenize p ((fixAt t n).apply source) = (tokenize p source).map (t.respelled p n) :=
    tokenize_respelled ht (isWord_of_identifier ht ident) fresh
  have names : Check.definedNames p (tokenize p ((fixAt t n).apply source)) =
      Check.definedNames p (tokenize p source) := by
    rw [tokens]
    refine definedNames_respelled ident plain fun member => ?_
    rw [Check.isKnown, List.contains_iff_mem.mpr member] at unknown
    cases unknown
  have eq (source : Text) : Check.undefinedNames (Linter.context p o source) =
      ((tokenize p source).filter
        (isUndefinedIn p (Check.definedNames p (tokenize p source)))).map
          (undefinedFinding (Linter.context p o source)) := undefinedNames_eq _
  generalize hd : Check.definedNames p (tokenize p source) = ds at *
  have less (u : Token) : isUndefinedIn p ds (t.respelled p n u) =
      (u != t && isUndefinedIn p ds u) := by
    by_cases same : u = t
    · simp [same, isUndefinedIn, Check.isKnown, defined]
    · rw [respelled_of_ne p n same, bne_iff_ne.mpr same]
      rfl
  have remaining : ((tokenize p source).filter fun u => isUndefinedIn p ds (t.respelled p n u)).map
      (undefinedFinding (Linter.context p o source)) =
        (Check.undefinedNames (Linter.context p o source)).erase
          (undefinedFinding (Linter.context p o source) t) := by
    have distinct := nodup_undefinedNames p o source
    rw [eq, hd] at distinct ⊢
    exact map_filter_eq_erase distinct (fun u hu => eq_of_undefinedFinding hu ht) fun u _ => less u
  rw [← remaining, eq, names, tokens, List.filter_map, List.map_map, List.map_map]
  refine List.map_congr_left fun u hu => ?_
  obtain ⟨hu, stays⟩ := List.mem_filter.mp hu
  rw [Function.comp_apply, less, Bool.and_eq_true, bne_iff_ne] at stays
  exact undefinedFinding_respelled o ht hu stays.1 fresh (names.trans hd.symm)

end Respelled

section Standard

variable {o : LintOptions} {source : Text}

/-- What is reported of names that nothing defines. -/
def undefinedFindings (o : LintOptions) (source : Text) : List Diagnostic :=
  ((Linter.standard o).lint source).filter (·.rule == Rule.undefinedNames.id)

theorem undefinedFindings_eq (o : LintOptions) (source : Text) :
    undefinedFindings o source = if o.isEnabled Rule.undefinedNames.id then
      Check.undefinedNames (Linter.context .standard o source) else [] := by
  have finished : ∀ d ∈ Rule.undefinedNames.report (Linter.context .standard o source),
      o.finish d = d := by
    intro d hd
    have error := severity_of_mem_report hd
    cases d
    simp_all [LintOptions.finish, Diagnostic.promote, Severity.promote, Rule.severity]
  change ((Linter.standard o).lintWith o source).filter (·.rule == Rule.undefinedNames.id) = _
  rw [Linter.filter_lintWith]
  split
  · exact (List.map_congr_left finished).trans (List.map_id _)
  · rfl

/-- Defined names are words and no keywords. -/
theorem of_mem_definedNames {n : Text}
    (h : n ∈ Check.definedNames .standard (tokenize .standard source)) :
    isWord n = true ∧ classify .standard n ≠ .keyword := by
  rcases Check.contains_definedNames.mp (List.contains_iff_mem.mpr h) with declared | builtin
  · obtain ⟨u, hu, rfl⟩ := List.mem_map.mp declared
    obtain ⟨hu, ident⟩ := Declaration.of_mem_declaredAfter hu
    obtain ⟨word, kind⟩ := word_of_identifier hu ident
    exact ⟨word, by simp [kind]⟩
  · have checked : (Profile.standard.builtins.all fun n =>
        isWord n && classify .standard n != .keyword) = true := by decide +kernel
    have here := List.all_eq_true.mp checked n builtin
    simp_all

/-- A spelling fix puts a defined name in the place of the token that is reported. -/
theorem exists_respelling {d : Diagnostic} {f : QuickFix} {ds : List Text}
    (hds : Check.definedNames .standard (tokenize .standard source) = ds)
    (hd : d ∈ Check.undefinedNames (Linter.context .standard o source)) (hf : f ∈ d.quickFixes) :
    ∃ t ∈ tokenize .standard source, ∃ n ∈ ds,
      t.isIdentifier = true ∧ Check.isKnown .standard ds t.text = false ∧
      d = undefinedFinding (Linter.context .standard o source) t ∧ f = fixAt t n := by
  subst hds
  rw [undefinedNames_eq] at hd
  obtain ⟨t, ht, rfl⟩ := List.mem_map.mp hd
  obtain ⟨ht, undefined⟩ := List.mem_filter.mp ht
  rw [isUndefinedIn, Bool.and_eq_true, Bool.not_eq_true'] at undefined
  obtain ⟨n, hn, rfl⟩ := List.mem_map.mp hf
  have similar : n ∈ Spelling.similar t.text
      (Check.definedNames .standard (tokenize .standard source)) := List.mem_of_mem_filter hn
  exact ⟨t, ht, n, List.mem_of_mem_filter (List.mem_of_mem_take similar), undefined.1, undefined.2,
    rfl, rfl⟩

/-- A spelling fix settles the finding it is offered for. The others stay, with their messages and
suggestions, and are carried along with the text behind the name; no new one comes. -/
theorem spelling_fix_settles_its_finding {d : Diagnostic} {f : QuickFix}
    (hd : d ∈ (Linter.standard o).lint source) (hr : d.rule = Rule.undefinedNames.id)
    (hf : f ∈ d.quickFixes) :
    undefinedFindings o (f.apply source) = ((undefinedFindings o source).erase d).map f.carry := by
  have member : d ∈ undefinedFindings o source := List.mem_filter.mpr ⟨hd, beq_iff_eq.mpr hr⟩
  rw [undefinedFindings_eq] at member
  split at member
  · next on =>
      obtain ⟨t, ht, n, hn, ident, unknown, rfl, rfl⟩ := exists_respelling rfl member hf
      obtain ⟨fresh, kind⟩ := of_mem_definedNames hn
      have plain : (t.respelled .standard n t).declares = false := by
        simp [declares, isKeyword, kind]
      rw [undefinedFindings_eq, undefinedFindings_eq, if_pos on, if_pos on]
      exact undefinedNames_respelled o ht ident unknown hn fresh plain
  · cases member

/-- The second of two misspelt names stands further left afterwards. -/
theorem spelling_fix_settles_its_finding_first_of_two :
    let source := "let speed = 5;\nspeeed * sped".toList
    ∃ d ∈ (Linter.standard {}).lint source, ∃ f ∈ d.quickFixes,
      d.rule = Rule.undefinedNames.id ∧ f.apply source = "let speed = 5;\nspeed * sped".toList ∧
      (undefinedFindings {} source).map (fun e => (e.line, e.column)) = [(2, 1), (2, 10)] ∧
      undefinedFindings {} (f.apply source) = ((undefinedFindings {} source).erase d).map f.carry ∧
      (undefinedFindings {} (f.apply source)).map (fun e => (e.line, e.column)) = [(2, 9)] := by
  intro source
  obtain ⟨d, hd, f, hf, hr, applied, before, after⟩ :
      ∃ d ∈ (Linter.standard {}).lint source, ∃ f ∈ d.quickFixes,
        d.rule = Rule.undefinedNames.id ∧ f.apply source = "let speed = 5;\nspeed * sped".toList ∧
        (undefinedFindings {} source).map (fun e => (e.line, e.column)) = [(2, 1), (2, 10)] ∧
        (undefinedFindings {} (f.apply source)).map (fun e => (e.line, e.column)) = [(2, 9)] := by
    decide +kernel
  exact ⟨d, hd, f, hf, hr, applied, before, spelling_fix_settles_its_finding hd hr hf, after⟩

end Standard

end MotionExpr
