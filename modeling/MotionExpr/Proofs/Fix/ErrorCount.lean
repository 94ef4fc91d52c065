import MotionExpr.Proofs.Fix.Idempotence
import MotionExpr.Proofs.Fix.PatchedLines
import MotionExpr.Proofs.Lint.Declared
import MotionExpr.Proofs.Lint.Independence

/-!
Errors before and after all fixes, with the standard names. Fixing keeps every name that is
declared and is not replaced itself, and makes no endless loop. One new name has a part that
nothing defines: the one for `seedRandom`. So fixing adds no more errors than there are
identifiers of that name. A fix may also take errors away; how many is not said.
-/

namespace MotionExpr

open Token

/-- The findings of a run that are errors. -/
def errorCount (o : LintOptions) (source : Text) : Nat :=
  ((Linter.standard o).lint source).countP fun d => d.severity = .error

theorem Severity.promote_eq_error_iff {s : Severity} : s.promote = .error ↔ s = .error := by
  cases s <;> decide

/-- The errors of a rule: all that it reports, or none. -/
def Rule.errors (r : Rule) (x : LintContext) : Nat :=
  if r.severity = .error then (r.report x).length else 0

theorem countP_finish (o : LintOptions) (r : Rule) (x : LintContext) :
    ((r.report x).map o.finish).countP (fun d => d.severity = .error) = r.errors x := by
  have kept (d : Diagnostic) : (o.finish d).severity = .error ↔ d.severity = .error := by
    rw [LintOptions.finish]
    split
    · exact Severity.promote_eq_error_iff
    · exact Iff.rfl
  rw [List.countP_map, Rule.errors]
  split
  · next error =>
      refine List.countP_eq_length.mpr fun d hd => ?_
      exact decide_eq_true ((kept d).mpr ((severity_of_mem_report hd).trans error))
  · next other =>
      refine List.countP_eq_zero.mpr fun d hd error => ?_
      exact other ((severity_of_mem_report hd).symm.trans ((kept d).mp (of_decide_eq_true error)))

variable {o : LintOptions} {source : Text}

theorem shape_of_mem_scanLine {p : Profile} {line column : Int} {l : Text} {t : Token}
    (h : t ∈ scanLine p line column 0 l) : ∃ c r, Shape p c r t.kind t.text := by
  induction l using scan_induction p generalizing column with
  | nil => cases h
  | blank c r hc ih =>
      rw [scanLine_of_none hc] at h
      exact ih h
  | token c kind w behind hc ih =>
      rw [scanLine_of_some hc] at h
      rcases List.mem_cons.mp h with rfl | h
      · exact ⟨c, w ++ behind, shape_of_lexeme? hc⟩
      · exact ih h

/-! What stands in the place of a token that is no identifier. -/

theorem rewritten_of_not_identifier (o : LintOptions) (source : Text) {t : Token} (other : t.isIdentifier = false) :
    rewritten o source t = [spelling t] ∨
      t.declares = true ∧ ∃ w ∈ ["let".toList, "const".toList], rewritten o source t = [(.keyword, w)] := by
  cases h : autoText (Linter.standard o) source t with
  | none => exact .inl (rewritten_of_none h)
  | some n =>
      rw [rewritten_of_some h]
      cases replaces_of_standard h with
      | renamed ident _ => rw [other] at ident; cases ident
      | declared var hn =>
          refine .inr ⟨?_, n, hn, ?_⟩
          · obtain ⟨kind, text⟩ := Prod.mk.inj (isVar_iff.mp var)
            rw [declares, isKeyword, kind, text]
            decide
          · simp only [List.mem_cons, List.not_mem_nil, or_false] at hn
            obtain rfl | rfl := hn
            · exact spell_word rfl
            · exact spell_word rfl

/-! Declared names stay declared. -/

theorem map_mark_fixed (o : LintOptions) (source : Text) :
    (tokenize .standard (fixed o source)).map mark =
      (tokenize .standard source).flatMap
        (expandMark .standard (autoText (Linter.standard o) source)) := by
  rw [fixed_eq_patch]
  exact map_mark_patch (renames_autoText o source) source

/-- A declarator stays one, in its line. -/
theorem mark_declarator (o : LintOptions) (source : Text) {d : Token} (declares : d.declares = true) :
    ∃ w ∈ Language.declarators,
      expandMark .standard (autoText (Linter.standard o) source) d = [(d.line, .keyword, w)] := by
  rw [Token.declares, isKeyword, Bool.and_eq_true, decide_eq_true_eq, List.contains_iff_mem] at declares
  have other : d.isIdentifier = false := by
    rw [isIdentifier, declares.1]
    rfl
  rcases rewritten_of_not_identifier o source other with kept | ⟨-, w, hw, new⟩
  · refine ⟨d.text, declares.2, ?_⟩
    rw [← declares.1]
    exact congrArg (List.map fun x => (d.line, x)) kept
  · refine ⟨w, ?_, congrArg (List.map fun x => (d.line, x)) new⟩
    simp only [List.mem_cons, List.not_mem_nil, or_false] at hw
    obtain rfl | rfl := hw <;> decide

/-- What is no identifier stays none, in its line. -/
theorem mark_between {line : Int} {ts : List Token}
    (passed : ∀ v ∈ ts, v.line = line ∧ v.isIdentifier = false) :
    ∀ m ∈ ts.flatMap (expandMark .standard (autoText (Linter.standard o) source)),
      m.1 = line ∧ m.2.1 ≠ .identifier := by
  intro m hm
  obtain ⟨v, hv, hm⟩ := List.mem_flatMap.mp hm
  obtain ⟨here, other⟩ := passed v hv
  obtain ⟨x, hx, rfl⟩ := List.mem_map.mp hm
  change x ∈ rewritten o source v at hx
  refine ⟨here, ?_⟩
  rcases rewritten_of_not_identifier o source other with kept | ⟨-, w, -, new⟩
  · rw [kept, List.mem_singleton] at hx
    rw [hx]
    exact of_decide_eq_false other
  · rw [new, List.mem_singleton] at hx
    rw [hx]
    exact TokenKind.noConfusion

theorem declaredAfter_fixed {u : Token}
    (h : u ∈ Declaration.declaredAfter (tokenize .standard source))
    (kept : autoText (Linter.standard o) source u = none) :
    ∃ u' ∈ Declaration.declaredAfter (tokenize .standard (fixed o source)), u'.text = u.text := by
  obtain ⟨before, d, rest, whole, declares, found⟩ := Declaration.mem_declaredAfter_iff.mp h
  obtain ⟨between, after, rfl, passed, line, ident⟩ :=
    Declaration.firstIdentifier?_eq_some_iff.mp found
  obtain ⟨w, hw, declarator⟩ := mark_declarator o source declares
  have name : expandMark .standard (autoText (Linter.standard o) source) u = [mark u] := by
    rw [expandMark, expand, kept]
    rfl
  have marks := map_mark_fixed o source
  rw [whole, List.flatMap_append, List.flatMap_cons, List.flatMap_append, List.flatMap_cons,
    declarator, name, List.singleton_append, List.singleton_append] at marks
  obtain ⟨before', rest', whole', -, marks⟩ := List.map_eq_append_iff.mp marks
  obtain ⟨d', rest', rfl, hd', marks⟩ := List.map_eq_cons_iff.mp marks
  obtain ⟨between', rest', rfl, hbetween, marks⟩ := List.map_eq_append_iff.mp marks
  obtain ⟨u', after', rfl, hu', -⟩ := List.map_eq_cons_iff.mp marks
  obtain ⟨line', spelled'⟩ := Prod.mk.inj hd'
  obtain ⟨place, spelled⟩ := Prod.mk.inj hu'
  obtain ⟨kind', text'⟩ := Prod.mk.inj spelled'
  obtain ⟨kind, text⟩ := Prod.mk.inj spelled
  refine ⟨u', Declaration.mem_declaredAfter_iff.mpr ⟨before', d', _, whole', ?_,
    Declaration.firstIdentifier?_eq_some_iff.mpr ⟨between', after', rfl, ?_, ?_, ?_⟩⟩, text⟩
  · rw [Token.declares, isKeyword, kind', text', List.contains_iff_mem.mpr hw]
    rfl
  · intro v hv
    have here := mark_between passed (mark v) (hbetween ▸ List.mem_map_of_mem hv)
    exact ⟨here.1.trans line'.symm, decide_eq_false here.2⟩
  · exact place.trans (line.trans line'.symm)
  · rw [isIdentifier, kind]
    exact ident

/-! Undefined names. -/

/-- A spelling that is reported as undefined. -/
def isUndefined (tokens : List Token) (x : TokenKind × Text) : Bool :=
  x.1 = .identifier &&
    !Check.isKnown .standard (Check.definedNames .standard tokens) x.2

theorem length_undefinedNames (o : LintOptions) (source : Text) :
    (Check.undefinedNames (Linter.context .standard o source)).length =
      (tokenize .standard source).countP fun t => isUndefined (tokenize .standard source) (spelling t) := by
  rw [Check.undefinedNames, List.length_map, ← List.countP_eq_length_filter]
  rfl

/-- An identifier that is kept is undefined only if it was. -/
theorem isUndefined_of_fixed {t : Token} (kept : autoText (Linter.standard o) source t = none)
    (h : isUndefined (tokenize .standard (fixed o source)) (spelling t) = true) :
    isUndefined (tokenize .standard source) (spelling t) = true := by
  rw [isUndefined, Bool.and_eq_true] at h ⊢
  refine ⟨h.1, ?_⟩
  have ident : t.isIdentifier = true := h.1
  have unknown := h.2
  rw [Bool.not_eq_true', ← Bool.not_eq_true] at unknown ⊢
  refine mt (fun known => ?_) unknown
  rw [Check.isKnown, Bool.or_assoc, Bool.or_eq_true] at known ⊢
  refine known.imp (fun defined => ?_) id
  rw [Check.contains_definedNames] at defined ⊢
  refine defined.imp (fun declared => ?_) id
  obtain ⟨u, hu, same⟩ := List.mem_map.mp declared
  -- all identifiers of one name are kept or replaced together
  have identU : u.isIdentifier = true := (Declaration.of_mem_declaredAfter hu).2
  have keptU : autoText (Linter.standard o) source u = none := by
    rw [autoText_name identU, show u.text = t.text from same, ← autoText_name ident, kept]
  obtain ⟨u', hu', text⟩ := declaredAfter_fixed hu keptU
  exact List.mem_map.mpr ⟨u', hu', text.trans same⟩

/-- Identifiers are the words that the profile does not know. -/
theorem word_of_identifier {p : Profile} {t : Token} (ht : t ∈ tokenize p source)
    (ident : t.isIdentifier = true) : isWord t.text = true ∧ classify p t.text = .identifier := by
  obtain ⟨row, l, -, ht⟩ := mem_tokenize_iff.mp ht
  obtain ⟨c, r, shape⟩ := shape_of_mem_scanLine ht
  rw [isIdentifier, decide_eq_true_eq] at ident
  generalize t.kind = kind at shape ident
  generalize t.text = text at shape
  cases shape with
  | word hc =>
      rw [isWord, hc, Bool.true_and, List.all_eq_true]
      exact ⟨fun d hd => List.mem_takeWhile_imp hd, ident⟩
  | comment => cases ident
  | string => cases ident
  | number => cases ident
  | operator => cases ident
  | punctuation => cases ident

theorem isWord_of_identifier {p : Profile} {t : Token} (ht : t ∈ tokenize p source)
    (ident : t.isIdentifier = true) : isWord t.text = true := (word_of_identifier ht ident).1

/-- A token whose new name has a part that nothing defines. -/
def isSeedRandom (t : Token) : Bool := t.isIdentifier && t.text == "seedRandom".toList

/-- The identifiers in a new name that are no deprecated names. -/
def strays (n : Text) : Nat :=
  (spell (lexemes .standard n)).countP fun x =>
    x.1 = .identifier && (Profile.standard.deprecation? x.2).isNone

/-- The deprecated name `Math.round` is no word, so no identifier has it. -/
theorem strays_deprecated {e : Text × Deprecation} (h : e ∈ Language.deprecated)
    (word : isWord e.1 = true) :
    strays e.2.replacement ≤ if e.1 == "seedRandom".toList then 1 else 0 := by
  have checked : (Language.deprecated.all fun e => !isWord e.1 ||
      decide (strays e.2.replacement ≤ if e.1 == "seedRandom".toList then 1 else 0)) = true := by
    decide +kernel
  have here := List.all_eq_true.mp checked e h
  rw [word] at here
  exact of_decide_eq_true here

theorem strays_replaces {t : Token} {n : Text} (ht : t ∈ tokenize .standard source)
    (h : Replaces .standard t n) : strays n ≤ if isSeedRandom t then 1 else 0 := by
  cases h with
  | renamed ident hd =>
      rw [isSeedRandom, ident, Bool.true_and]
      exact strays_deprecated (of_deprecation? hd) (isWord_of_identifier ht ident)
  | declared _ hn =>
      simp only [List.mem_cons, List.not_mem_nil, or_false] at hn
      obtain rfl | rfl := hn
      · exact Nat.zero_le _
      · exact Nat.zero_le _

theorem countP_rewritten_isUndefined {t : Token} (ht : t ∈ tokenize .standard source) :
    (rewritten o source t).countP (isUndefined (tokenize .standard (fixed o source))) ≤
      (if isUndefined (tokenize .standard source) (spelling t) then 1 else 0) +
        if isSeedRandom t then 1 else 0 := by
  cases h : autoText (Linter.standard o) source t with
  | none =>
      rw [rewritten_of_none h, List.countP_singleton]
      split
      · next undefined =>
          rw [if_pos (isUndefined_of_fixed h undefined)]
          exact Nat.le_add_right 1 _
      · exact Nat.zero_le _
  | some n =>
      rw [rewritten_of_some h]
      refine Nat.le_trans (List.countP_mono_left fun x _ undefined => ?_)
        (Nat.le_trans (strays_replaces ht (replaces_of_standard h)) (Nat.le_add_left ..))
      rw [isUndefined, Check.isKnown, Bool.not_or, Bool.and_eq_true, Bool.and_eq_true] at undefined
      rw [Bool.and_eq_true]
      exact ⟨undefined.1, by simpa using undefined.2.2⟩

/-- What is counted after a replacement, counted token by token. -/
theorem countP_flatMap_le {α : Type} {f : Token → List α} {q : α → Bool} {old extra : Token → Bool}
    {ts : List Token}
    (each : ∀ t ∈ ts, (f t).countP q ≤ (if old t then 1 else 0) + if extra t then 1 else 0) :
    (ts.flatMap f).countP q ≤ ts.countP old + ts.countP extra := by
  induction ts with
  | nil => exact Nat.zero_le _
  | cons t ts ih =>
      have here := each t (List.mem_cons_self ..)
      have later := ih fun u hu => each u (List.mem_cons_of_mem _ hu)
      rw [List.flatMap_cons, List.countP_append, List.countP_cons, List.countP_cons]
      omega

theorem length_undefinedNames_fixed (o : LintOptions) (source : Text) :
    (Check.undefinedNames (Linter.context .standard o (fixed o source))).length ≤
      (Check.undefinedNames (Linter.context .standard o source)).length +
        (tokenize .standard source).countP isSeedRandom := by
  have spelled (q : TokenKind × Text → Bool) (ts : List Token) :
      (ts.countP fun t => q (spelling t)) = (ts.map spelling).countP q := by
    rw [List.countP_map]
    rfl
  rw [length_undefinedNames, length_undefinedNames, spelled, map_spelling_fixed]
  exact countP_flatMap_le fun t ht => countP_rewritten_isUndefined ht

/-! Endless loops. -/

/-- The tokens that are reported where the lines are as `lineText` says. -/
def inEndlessLoop (lineText : Int → Text) (m : Int × TokenKind × Text) : Bool :=
  (m.2.1 = .keyword && Language.loopKeywords.contains m.2.2) && Check.hasEndlessLoop (lineText m.1)

theorem length_infiniteLoops (o : LintOptions) (source : Text) :
    (Check.infiniteLoops (Linter.context .standard o source)).length =
      (tokenize .standard source).countP fun t =>
        inEndlessLoop (Linter.context .standard o source).lineText (mark t) := by
  rw [Check.infiniteLoops, List.length_map, ← List.countP_eq_length_filter]
  rfl

/-- A computed form of `Misses`. -/
def misses (word n : Text) : Bool :=
  word.head?.all (!n.contains ·) &&
    word.tails.all fun u => u.isEmpty || !u.isPrefixOf n && !n.isPrefixOf u

theorem misses_of_misses {word n : Text} (h : misses word n = true) : Misses word n := by
  rw [misses, Bool.and_eq_true, List.all_eq_true] at h
  refine ⟨fun c hc mem => ?_, fun u hu nonempty => ?_⟩
  · have first := h.1
    rw [Option.mem_def.mp hc, Option.all_some, List.contains_iff_mem.mpr mem] at first
    cases first
  · have here := h.2 u ((List.mem_tails u word).mpr hu)
    rw [Bool.or_eq_true, or_iff_right (fun empty => nonempty (List.isEmpty_iff.mp empty)),
      Bool.and_eq_true, Bool.not_eq_true', Bool.not_eq_true'] at here
    rw [← List.isPrefixOf_iff_prefix, ← List.isPrefixOf_iff_prefix, here.1, here.2]
    exact ⟨Bool.false_ne_true, Bool.false_ne_true⟩

/-- The two spellings of a loop without an end. -/
def endlessLoops : List Text := ["while(true)".toList, "while (true)".toList]

theorem misses_replaces {word : Text} (hw : word ∈ endlessLoops) {t : Token} {n : Text}
    (h : Replaces .standard t n) : Misses word n := by
  have declarators : (endlessLoops.all fun word =>
      misses word "let".toList && misses word "const".toList) = true := by decide +kernel
  have names : (endlessLoops.all fun word => Language.deprecated.all fun e =>
      misses word e.2.replacement) = true := by decide +kernel
  apply misses_of_misses
  cases h with
  | renamed _ hd => exact List.all_eq_true.mp (List.all_eq_true.mp names word hw) _ (of_deprecation? hd)
  | declared _ hn =>
      have both := List.all_eq_true.mp declarators word hw
      rw [Bool.and_eq_true] at both
      simp only [List.mem_cons, List.not_mem_nil, or_false] at hn
      obtain rfl | rfl := hn
      · exact both.1
      · exact both.2

theorem hasEndlessLoop_iff {l : Text} :
    Check.hasEndlessLoop l = true ↔ ∃ word ∈ endlessLoops, word <:+: l := by
  rw [Check.hasEndlessLoop, Bool.or_eq_true, Text.occursIn_iff, Text.occursIn_iff]
  simp [endlessLoops]

theorem hasEndlessLoop_of_fixed {line : Int}
    (h : Check.hasEndlessLoop ((Linter.context .standard o (fixed o source)).lineText line) = true) :
    Check.hasEndlessLoop ((Linter.context .standard o source).lineText line) = true := by
  rw [fixed_eq_patch, lineText_patch (renames_autoText o source)] at h
  obtain ⟨word, hw, found⟩ := hasEndlessLoop_iff.mp h
  have nonempty : word ≠ [] := by
    rintro rfl
    exact absurd hw (by decide)
  exact hasEndlessLoop_iff.mpr ⟨word, hw, isInfix_of_patchFrom nonempty
    (fun t n hn => misses_replaces hw (replaces_of_standard hn)) found⟩

theorem not_loop_of_replaces {t : Token} {n : Text} (h : Replaces .standard t n)
    {x : TokenKind × Text} (hx : x ∈ spell (lexemes .standard n)) :
    ¬((decide (x.1 = .keyword) = true) ∧ Language.loopKeywords.contains x.2 = true) := by
  have declarators : (["let".toList, "const".toList].all fun n => (spell (lexemes .standard n)).all
      fun x => !(x.1 = .keyword && Language.loopKeywords.contains x.2)) = true := by decide +kernel
  have names : (Language.deprecated.all fun e => (spell (lexemes .standard e.2.replacement)).all
      fun x => !(x.1 = .keyword && Language.loopKeywords.contains x.2)) = true := by decide +kernel
  rw [← Bool.and_eq_true_iff, Bool.not_eq_true, ← Bool.not_eq_true']
  cases h with
  | renamed _ hd => exact List.all_eq_true.mp (List.all_eq_true.mp names _ (of_deprecation? hd)) x hx
  | declared _ hn => exact List.all_eq_true.mp (List.all_eq_true.mp declarators n hn) x hx

/-- A loop keyword is an old one in the same line. -/
theorem countP_expandMark_inEndlessLoop (o : LintOptions) (source : Text) (t : Token) :
    (expandMark .standard (autoText (Linter.standard o) source) t).countP
        (inEndlessLoop (Linter.context .standard o (fixed o source)).lineText) ≤
      if inEndlessLoop (Linter.context .standard o source).lineText (mark t) then 1 else 0 := by
  cases h : autoText (Linter.standard o) source t with
  | none =>
      have kept : expandMark .standard (autoText (Linter.standard o) source) t = [mark t] := by
        rw [expandMark, expand, h]
        rfl
      rw [kept, List.countP_singleton]
      split
      · next flagged =>
          rw [inEndlessLoop, Bool.and_eq_true] at flagged
          have before : inEndlessLoop (Linter.context .standard o source).lineText (mark t) = true := by
            rw [inEndlessLoop, Bool.and_eq_true]
            exact ⟨flagged.1, hasEndlessLoop_of_fixed flagged.2⟩
          rw [if_pos before]
      · exact Nat.zero_le _
  | some n =>
      have none : (expandMark .standard (autoText (Linter.standard o) source) t).countP
          (inEndlessLoop (Linter.context .standard o (fixed o source)).lineText) = 0 := by
        refine List.countP_eq_zero.mpr fun m hm flagged => ?_
        rw [expandMark, expand, h] at hm
        obtain ⟨x, hx, rfl⟩ := List.mem_map.mp hm
        rw [inEndlessLoop, Bool.and_eq_true, Bool.and_eq_true] at flagged
        exact not_loop_of_replaces (replaces_of_standard h) hx flagged.1
      rw [none]
      exact Nat.zero_le _

theorem length_infiniteLoops_fixed (o : LintOptions) (source : Text) :
    (Check.infiniteLoops (Linter.context .standard o (fixed o source))).length ≤
      (Check.infiniteLoops (Linter.context .standard o source)).length := by
  have marked (q : Int × TokenKind × Text → Bool) (ts : List Token) :
      (ts.countP fun t => q (mark t)) = (ts.map mark).countP q := by
    rw [List.countP_map]
    rfl
  have none : (tokenize .standard source).countP (fun _ => false) = 0 :=
    List.countP_eq_zero.mpr fun _ _ => Bool.false_ne_true
  rw [length_infiniteLoops, length_infiniteLoops, marked, map_mark_fixed]
  have bound : ((tokenize .standard source).flatMap
        (expandMark .standard (autoText (Linter.standard o) source))).countP
          (inEndlessLoop (Linter.context .standard o (fixed o source)).lineText) ≤
      ((tokenize .standard source).countP fun t =>
        inEndlessLoop (Linter.context .standard o source).lineText (mark t)) +
      (tokenize .standard source).countP fun _ => false :=
    countP_flatMap_le fun t _ =>
      Nat.le_trans (countP_expandMark_inEndlessLoop o source t) (Nat.le_add_right ..)
  rwa [none, Nat.add_zero] at bound

/-! All errors. -/

theorem errors_fixed (o : LintOptions) (source : Text) (r : Rule) :
    r.errors (Linter.context .standard o (fixed o source)) ≤
      r.errors (Linter.context .standard o source) +
        if r = .undefinedNames then (tokenize .standard source).countP isSeedRandom else 0 := by
  cases r with
  | undefinedNames => exact length_undefinedNames_fixed o source
  | infiniteLoops => exact length_infiniteLoops_fixed o source
  | _ => exact Nat.zero_le _

/-- A count over different rules grows by what one of them adds. -/
theorem countP_flatMap_le_add {rs : List Rule} (distinct : rs.Nodup) {f g : Rule → List Diagnostic}
    {q : Diagnostic → Bool} (r : Rule) {k : Nat}
    (h : ∀ v, (f v).countP q ≤ (g v).countP q + if v = r then k else 0) :
    (rs.flatMap f).countP q ≤ (rs.flatMap g).countP q + k ∧
      (r ∉ rs → (rs.flatMap f).countP q ≤ (rs.flatMap g).countP q) := by
  induction rs with
  | nil => exact ⟨Nat.zero_le _, fun _ => Nat.zero_le _⟩
  | cons v rs ih =>
      obtain ⟨fresh, distinct⟩ := List.nodup_cons.mp distinct
      obtain ⟨rest, without⟩ := ih distinct
      have here := h v
      simp only [List.flatMap_cons, List.countP_append, List.mem_cons, not_or]
      by_cases same : v = r
      · have others := without (same ▸ fresh)
        rw [if_pos same] at here
        exact ⟨by omega, fun absent => absurd same.symm absent.1⟩
      · rw [if_neg same] at here
        refine ⟨by omega, fun absent => ?_⟩
        have others := without absent.2
        omega

/-- Fixing all adds an error for an identifier `seedRandom` at most, and no others. -/
theorem errorCount_fixStep_all (o : LintOptions) (source : Text) :
    errorCount o ((Linter.standard o).fixStep source .all) ≤
      errorCount o source + (tokenize .standard source).countP isSeedRandom := by
  change errorCount o (fixed o source) ≤ _
  have run (source : Text) : (Linter.standard o).lint source = (Linter.enabledRules o).flatMap fun r =>
      (r.report (Linter.context .standard o source)).map o.finish := Linter.run_eq o _
  rw [errorCount, errorCount, run, run]
  refine (countP_flatMap_le_add (Linter.nodup_enabledRules o) .undefinedNames fun r => ?_).1
  rw [countP_finish, countP_finish]
  exact errors_fixed o source r

end MotionExpr
