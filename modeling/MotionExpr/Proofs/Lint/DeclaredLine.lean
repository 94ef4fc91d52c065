import MotionExpr.Proofs.Lint.Declared
import MotionExpr.Proofs.Lint.Reassigned
import MotionExpr.Proofs.Lint.Spans

/-!
The two readings of what a text declares. An identifier directly behind a declarator is the first one
behind it, so the readings agree where both stand in one line. Where the line ends between them, just
one of the two takes the name to be declared.
-/

namespace MotionExpr

open Token

namespace Declaration

/-- An identifier stands directly behind a declarator, on its line or on a later one. -/
structure Introduces (ts : List Token) (d u : Token) : Prop where
  adjacent : (d, u) ∈ ts.zip ts.tail
  declares : d.declares = true
  ident : u.isIdentifier = true

theorem directlyBehind_eq (ts : List Token) : directlyBehind ts =
    ((ts.zip ts.tail).filter fun y => y.1.declares && y.2.isIdentifier).map Prod.snd := by
  induction ts with
  | nil => rfl
  | cons t ts ih =>
      cases ts with
      | nil => rfl
      | cons u us =>
          have step : (t :: u :: us).zip (t :: u :: us).tail =
              (t, u) :: (u :: us).zip (u :: us).tail := rfl
          rw [directlyBehind, ih, step, List.filter_cons]
          split <;> rfl

theorem mem_directlyBehind_iff {ts : List Token} {u : Token} :
    u ∈ directlyBehind ts ↔ ∃ d, Introduces ts d u := by
  rw [directlyBehind_eq, List.mem_map]
  constructor
  · rintro ⟨⟨d, u⟩, hy, rfl⟩
    obtain ⟨adjacent, both⟩ := List.mem_filter.mp hy
    obtain ⟨declares, ident⟩ := Bool.and_eq_true_iff.mp both
    exact ⟨d, adjacent, declares, ident⟩
  · rintro ⟨d, adjacent, declares, ident⟩
    exact ⟨(d, u), List.mem_filter.mpr ⟨adjacent, Bool.and_eq_true_iff.mpr ⟨declares, ident⟩⟩, rfl⟩

/-- To put a token among others adds its text at most. -/
theorem mem_map_text_put {ts : List Token} {t : Token} {name : Text} :
    name ∈ (put ts t).map (·.text) ↔ name = t.text ∨ name ∈ ts.map (·.text) := by
  induction ts with
  | nil => rw [put, List.map_singleton, List.mem_singleton, List.map_nil, or_iff_left List.not_mem_nil]
  | cons u us ih =>
      rw [put]
      split
      · next same => rw [List.map_cons, List.map_cons, List.mem_cons, List.mem_cons, same, or_self_left]
      · rw [List.map_cons, List.map_cons, List.mem_cons, List.mem_cons, ih, or_left_comm]

theorem mem_map_text_foldl_put {us ts : List Token} {name : Text} :
    name ∈ (us.foldl put ts).map (·.text) ↔ name ∈ ts.map (·.text) ∨ name ∈ us.map (·.text) := by
  induction us generalizing ts with
  | nil => rw [List.foldl_nil, List.map_nil, or_iff_left List.not_mem_nil]
  | cons u us ih =>
      rw [List.foldl_cons, ih, mem_map_text_put, List.map_cons, List.mem_cons, or_assoc, or_left_comm]

/-- That a name is put again does not lose it. -/
theorem mem_map_text_immediate_iff {ts : List Token} {name : Text} :
    name ∈ (immediate ts).map (·.text) ↔ ∃ d u, Introduces ts d u ∧ u.text = name := by
  rw [immediate, mem_map_text_foldl_put, List.map_nil, or_iff_right List.not_mem_nil, List.mem_map]
  simp only [mem_directlyBehind_iff]
  exact ⟨fun ⟨u, ⟨d, h⟩, name⟩ => ⟨d, u, h, name⟩, fun ⟨d, u, h, name⟩ => ⟨u, ⟨d, h⟩, name⟩⟩

theorem declares_of_isVar {t : Token} (h : isVar t = true) : t.declares = true := by
  have among : Language.names ["var"] ⊆ Language.declarators := by decide
  rw [isVar, isKeyword, Bool.and_eq_true, List.contains_iff_mem] at h
  rw [declares, isKeyword, h.1, Bool.true_and, List.contains_iff_mem]
  exact among h.2

namespace Introduces

variable {ts : List Token} {d u : Token}

theorem exists_split (h : Introduces ts d u) : ∃ before rest, ts = before ++ d :: u :: rest := by
  obtain ⟨i, hd, hu⟩ := mem_zip_tail_iff.mp h.adjacent
  obtain ⟨hi, rfl⟩ := List.getElem?_eq_some_iff.mp hd
  obtain ⟨hj, rfl⟩ := List.getElem?_eq_some_iff.mp hu
  exact ⟨ts.take i, ts.drop (i + 2), by
    rw [List.getElem_cons_drop, List.getElem_cons_drop, List.take_append_drop]⟩

/-- Nothing stands between the two, so no other identifier is found. -/
theorem mem_declaredAfter (h : Introduces ts d u) (same : d.line = u.line) : u ∈ declaredAfter ts := by
  obtain ⟨before, rest, rfl⟩ := h.exists_split
  refine mem_declaredAfter_iff.mpr ⟨before, d, u :: rest, rfl, h.declares, ?_⟩
  exact firstIdentifier?_eq_some_iff.mpr ⟨[], rest, rfl, fun v hv => absurd hv List.not_mem_nil,
    same.symm, h.ident⟩

theorem line_le (h : Introduces ts d u) (ordered : ts.Pairwise Before) : d.line ≤ u.line := by
  obtain ⟨before, rest, rfl⟩ := h.exists_split
  have inside := (List.pairwise_append.mp ordered).2.1
  rcases (List.pairwise_cons.mp inside).1 u (List.mem_cons_self ..) with later | ⟨same, -⟩
  · exact Int.le_of_lt later
  · exact Int.le_of_eq same

theorem mem_names_onLine (h : Introduces ts d u) (same : d.line = u.line) :
    u.text ∈ (onLine ts).map (·.text) := by
  rw [onLine, map_text_keepFirst, Profile.mem_distinct]
  exact List.mem_map_of_mem (h.mem_declaredAfter same)

end Introduces
end Declaration

namespace Linter

open Declaration

variable {l : Linter} {o : LintOptions} {source : Text}

/-- What is reported as undefined is not among the defined names. -/
theorem of_undefined {e : Diagnostic} (he : e ∈ l.lintWith o source)
    (hr : e.rule = Rule.undefinedNames.id) : ∃ t ∈ tokenize l.profile source, e.Spans t source ∧
      t.text ∉ (declaredAfter (tokenize l.profile source)).map (·.text) := by
  obtain ⟨r, -, e, found, rfl⟩ := mem_run.mp he
  rw [LintOptions.rule_finish, rule_of_mem_report found] at hr
  obtain rfl := Rule.id_inj.mp hr
  obtain ⟨t, ht, rfl⟩ := List.mem_map.mp found
  obtain ⟨ht, unknown⟩ := List.mem_filter.mp ht
  refine ⟨t, ht, spans_finish_finding ht .., fun declared => ?_⟩
  have known := Check.contains_definedNames (p := l.profile).mpr (.inl declared)
  have hidden := (Bool.and_eq_true_iff.mp unknown).2
  rw [Check.isKnown, context, known] at hidden
  cases hidden

/-- What is reported as constant is a `var` with an identifier behind it. -/
theorem of_constant {c : Diagnostic} (hc : c ∈ l.lintWith o source)
    (hr : c.rule = Rule.constants.id) :
    ∃ d u, Introduces (tokenize l.profile source) d u ∧ isVar d = true ∧ c.Spans d source := by
  obtain ⟨r, -, c, found, rfl⟩ := mem_run.mp hc
  rw [LintOptions.rule_finish, rule_of_mem_report found] at hr
  obtain rfl := Rule.id_inj.mp hr
  have pairs : c ∈ Check.constantsFrom (context l.profile o source) (tokenize l.profile source) := found
  rw [constantsFrom_eq, List.mem_filterMap] at pairs
  obtain ⟨⟨d, u⟩, adjacent, made⟩ := pairs
  rw [constantFinding?, Option.ite_none_right_eq_some, Bool.and_eq_true, Bool.and_eq_true] at made
  obtain ⟨⟨⟨var, ident⟩, -⟩, made⟩ := made
  obtain rfl := Option.some_inj.mp made
  exact ⟨d, u, ⟨adjacent, declares_of_isVar var, ident⟩, var,
    spans_finish_finding (List.of_mem_zip adjacent).1 ..⟩

/-- A name with a declarator directly in front of it is declared in both readings, unless every such
declarator stands on an earlier line than the name. What is reported as constant is declared that way;
on the line of its declarator it is never reported as undefined. -/
theorem introduced_names_on_line (l : Linter) (o : LintOptions) (source : Text) :
    let ts := tokenize l.profile source
    (∀ name ∈ (immediate ts).map (·.text), (∃ d u, Introduces ts d u ∧ u.text = name) ∧
      (name ∈ (onLine ts).map (·.text) ∨
        ∀ d u, Introduces ts d u → u.text = name → d.line < u.line)) ∧
    (∀ c ∈ l.lintWith o source, c.rule = Rule.constants.id →
      ∃ d u, Introduces ts d u ∧ isVar d = true ∧ c.Spans d source) ∧
    ∀ d u, Introduces ts d u → d.line = u.line →
      ∀ e ∈ l.lintWith o source, e.rule = Rule.undefinedNames.id →
        ∀ t ∈ ts, e.Spans t source → t.text ≠ u.text := by
  intro ts
  refine ⟨fun name immediately => ⟨mem_map_text_immediate_iff.mp immediately, ?_⟩,
    fun c hc hr => of_constant hc hr, fun d u h same e he hr t ht spans => ?_⟩
  · rw [or_iff_not_imp_left]
    rintro undeclared d u h rfl
    refine Int.lt_iff_le_and_ne.mpr
      ⟨h.line_le (pairwise_tokenize l.profile source), fun same => undeclared ?_⟩
    exact h.mem_names_onLine same
  · obtain ⟨t', ht', spans', undeclared⟩ := of_undefined he hr
    obtain rfl := eq_of_place ht ht' (spans.line.symm.trans spans'.line)
      (spans.column.symm.trans spans'.column)
    exact fun name => undeclared (name ▸ List.mem_map_of_mem (h.mem_declaredAfter same))

/-- The second declarator stands in the line of its name, the first one does not. -/
theorem introduced_names_on_line_two :
    let source := "var\nx = 1; var y = 2".toList
    let ts := tokenize Profile.standard source
    let x : Token := ⟨.identifier, ['x'], 2, 1⟩
    let y : Token := ⟨.identifier, ['y'], 2, 12⟩
    immediate ts = [x, y] ∧ onLine ts = [y] ∧
      (∀ d u, Introduces ts d u → u.text = ['x'] → d.line < u.line) ∧
      ∀ e ∈ lintWith {} {} source, e.rule = Rule.undefinedNames.id → ∀ t ∈ ts, e.Spans t source →
        t.text ≠ ['y'] := by
  intro source ts x y
  obtain ⟨adjacent, names⟩ : (⟨.keyword, "var".toList, 2, 8⟩, y) ∈ ts.zip ts.tail ∧
      immediate ts = [x, y] ∧ onLine ts = [y] := by decide +kernel
  obtain ⟨agree, -, silent⟩ := introduced_names_on_line {} {} source
  have later := (agree ['x'] (names.1 ▸ List.mem_cons_self ..)).2.resolve_left fun onLine => by
    rw [names.2] at onLine
    exact absurd onLine (by decide)
  exact ⟨names.1, names.2, later, silent ⟨.keyword, "var".toList, 2, 8⟩ y
    ⟨adjacent, by decide, by decide⟩ rfl⟩

/-- The line ends behind the declarator. Its name is reported both as constant and as undefined. -/
theorem introduced_name_on_next_line :
    let source := "var\nx = 1;".toList
    let ts := tokenize Profile.standard source
    ¬(∀ name ∈ (immediate ts).map (·.text), name ∈ (onLine ts).map (·.text)) ∧
      (∃ c ∈ lintWith {} {} source, c.rule = Rule.constants.id ∧
        c.message = "'x' is never reassigned. Use 'const' instead of 'var'") ∧
      ∃ e ∈ lintWith {} {} source, e.rule = Rule.undefinedNames.id ∧
        e.message = "'x' is not defined" := by
  decide +kernel

end Linter
end MotionExpr
