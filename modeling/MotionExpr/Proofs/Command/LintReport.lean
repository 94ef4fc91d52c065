import MotionExpr.Proofs.Command.LintFiles
import MotionExpr.Proofs.Config.Settings
import MotionExpr.Proofs.Report.Order

/-!
What a run reports. Where no two paths lead to one file, each file keeps what its turn left in it, so
the issues found are those of the files as they are in the end, file by file and rule by rule. The
report sorts them, leaves out what is below the severity that was asked for, and loses nothing else.
-/

namespace MotionExpr

open Token

/-- The place of a rule in the catalogue. -/
def Rule.position (id : String) : Nat := Rule.all.findIdx fun r => r.id == id

/-- The findings of a text come rule by rule. -/
theorem Linter.pairwise_position_lint (l : Linter) (source : Text) :
    (l.lint source).Pairwise fun d e => Rule.position d.rule ≤ Rule.position e.rule := by
  rw [lint, lintWith_eq, List.pairwise_flatMap]
  constructor
  · intro r _
    refine List.pairwise_of_forall_mem_list fun d hd e he => le_of_eq ?_
    rw [LintOptions.rule_of_mem_finished hd, LintOptions.rule_of_mem_finished he]
  · have order : Rule.all.Pairwise fun r q => Rule.position r.id ≤ Rule.position q.id := by decide
    refine (order.sublist List.filter_sublist).imp fun {r q} before d hd e he => ?_
    rw [LintOptions.rule_of_mem_finished hd, LintOptions.rule_of_mem_finished he]
    exact before

/-- At or above a severity, in whatever case it is written. What names no severity is below all. -/
def Issue.Reaches (severity : Text) (i : Issue) : Prop :=
  ∀ s ∈ Severity.all, s.heading.toList = Text.upper severity → s.rank ≤ i.finding.severity.rank

instance (severity : Text) : DecidablePred (Issue.Reaches severity) := fun _ =>
  inferInstanceAs (Decidable (∀ s ∈ Severity.all, _))

theorem Severity.mem_all (s : Severity) : s ∈ all := by cases s <;> decide

theorem Severity.heading_inj {s t : Severity} (h : s.heading.toList = t.heading.toList) : s = t := by
  cases s <;> cases t <;> first | rfl | exact absurd h (by decide)

namespace Command

theorem leastRank_le_iff {severity : Text} {i : Issue} :
    leastRank severity ≤ i.finding.severity.rank ↔ i.Reaches severity := by
  rw [leastRank]
  split
  · next s found =>
      have heading : s.heading.toList = Text.upper severity := by simpa using List.find?_some found
      refine ⟨fun least t _ ht => ?_, fun reaches => reaches s s.mem_all heading⟩
      rwa [← Severity.heading_inj (heading.trans ht.symm)]
  · next unknown =>
      have least : Severity.info.rank ≤ i.finding.severity.rank := by
        cases i.finding.severity <;> decide
      refine iff_of_true least fun s hs heading => absurd (beq_iff_eq.mpr heading) ?_
      exact List.find?_eq_none.mp unknown s hs

theorem reported_eq (severity : Text) (issues : List Issue) : reported severity issues =
    (stableSort Issue.le issues).filter fun i => i.Reaches severity := by
  simp only [reported, leastRank_le_iff]

/-- A report has the issues that reach the severity, sorted, and those at one place as they were found. -/
theorem of_reported (severity : Text) (issues : List Issue) :
    let shown := reported severity issues
    let due := issues.filter fun i => i.Reaches severity
    shown.Perm due ∧ shown.Pairwise (fun i j => i.place ≤ j.place) ∧
      ∀ x, (shown.filter fun i => i.place = x) = due.filter fun i => i.place = x := by
  intro shown due
  have same : shown = _ := reported_eq severity issues
  rw [same]
  refine ⟨(stableSort_perm Issue.le issues).filter _,
    (Issue.pairwise_place_stableSort issues).filter _, fun x => ?_⟩
  rw [List.filter_comm, Issue.filter_place_stableSort, List.filter_comm]

section Run

variable {l : Linter} {fix : Bool} {s s' : LintState} {paths : List Text}

/-- Where no path of a run leads, all is as before. -/
theorem Ran.read_of_apart (ran : Ran l fix s paths s') {other : Text}
    (apart : ∀ p ∈ paths, s.store.locate p ≠ s.store.locate other) :
    s'.store.read other = s.store.read other := by
  have never : turns s.store paths other = 0 :=
    List.countP_eq_zero.mpr fun p hp there => apart p hp (of_decide_eq_true there)
  rw [ran.reads, never]
  cases s.store.read other <;> rfl

/-- A run over files of their own: each has the text that was linted last, its findings are those of
that text, and it was fixed if its text is another one than before. -/
theorem Ran.found (names : l.profile.deprecated = Language.deprecated) (ran : Ran l fix s paths s')
    (distinct : paths.Pairwise fun p q => s.store.locate p ≠ s.store.locate q) :
    (∀ p ∈ paths, readText s'.store p = (readText s.store p).map (textAfter l fix)) ∧
    s'.issues = s.issues ++ paths.flatMap (issuesIn l s'.store) ∧
    s'.fixed = s.fixed ++ paths.filter fun p => readText s'.store p ≠ readText s.store p := by
  induction ran with
  | nil s => simp
  | @cons s s' path paths content here rest ih =>
      obtain ⟨first, later⟩ := List.pairwise_cons.mp distinct
      have before : readText s.store path = .ok (LineEnd.unify content) := by rw [readText, here]; rfl
      have after : readText s'.store path = .ok (textAfter l fix (LineEnd.unify content)) := by
        rw [readText, rest.read_of_apart, read_stateAfter_of_same here rfl]
        · exact congrArg Except.ok (unify_contentAfter names content)
        · intro q hq
          rw [Ne, FileStore.locate_eq_locate_congr (shape_stateAfter here)]
          exact (first q hq).symm
      have untouched : ∀ q ∈ paths,
          readText (stateAfter l fix s path content).store q = readText s.store q := by
        intro q hq
        rw [readText, readText, read_stateAfter_of_apart here (first q hq)]
      obtain ⟨texts, issues, fixed⟩ := ih (by simpa only [FileStore.locate_congr (shape_stateAfter here)])
      refine ⟨List.forall_mem_cons.mpr ⟨?_, fun q hq => ?_⟩, ?_, ?_⟩
      · rw [after, before]
        rfl
      · rw [texts q hq, untouched q hq]
      · rw [issues, List.flatMap_cons, issuesIn, after, ← List.append_assoc]
        rfl
      · rw [fixed, List.filter_cons, after, before,
          List.filter_congr fun q hq => by rw [untouched q hq], stateAfter]
        dsimp only
        split <;> simp [*]

end Run

theorem path_of_mem_issuesIn {l : Linter} {store : FileStore} {path : Text} {i : Issue}
    (h : i ∈ issuesIn l store path) : i.path = path := by
  rw [issuesIn] at h
  split at h
  · obtain ⟨d, -, rfl⟩ := List.mem_map.mp h
    rfl
  · cases h

/-- Of two issues in one file, the one that is found first is of an earlier rule, or of the same. -/
theorem pairwise_position_found (l : Linter) (store : FileStore) {paths : List Text}
    (distinct : paths.Nodup) : (paths.flatMap (issuesIn l store)).Pairwise fun i j =>
      i.path = j.path → Rule.position i.finding.rule ≤ Rule.position j.finding.rule := by
  rw [List.pairwise_flatMap]
  constructor
  · intro path _
    rw [issuesIn]
    split
    · next source _ =>
        refine List.pairwise_map.mpr ((l.pairwise_position_lint source).imp fun earlier _ => ?_)
        exact earlier
    · exact .nil
  · refine distinct.imp fun {p q} different i hi j hj same => absurd ?_ different
    rw [← path_of_mem_issuesIn hi, ← path_of_mem_issuesIn hj, same]

/-- A config that cannot be taken in, and is not passed over: its path is too long, its bytes are no
text, it has numbers with too many digits or values that nest too deep, or one of its names cannot be
written. -/
def Unloadable (store : FileStore) (path : Text) : Prop :=
  match store.read path with
  | .error fault => fault = .system .nameTooLong ∨ fault = .undecodable
  | .ok content =>
      match Toml.parse content with
      | .error fault => fault ≠ .malformed
      | .ok document => ∃ v ∈ ProjectConfig.customItems document, v.isWritable = false

theorem loadConfig_eq_error_iff {store : FileStore} {path : Text} :
    (∃ b, (loadConfig store path).result = .error b) ↔ Unloadable store path := by
  rw [loadConfig, Unloadable]
  cases store.read path with
  | error fault =>
      cases fault with
      | system fault => cases fault <;> simp [unreadable]
      | nulInPath | undecodable => simp
  | ok content =>
      dsimp only
      cases Toml.parse content with
      | error fault => cases fault <;> simp [unreadable]
      | ok document =>
          have broken (fault : ConfigFault) :=
            @ProjectConfig.ofDocument_eq_error_iff document (String.ofList path) fault
          dsimp only
          rw [brokenOn.eq_def]
          split
          · next c loads =>
              refine iff_of_false (by simp) fun unwritable => ?_
              have fails := (broken .unwritableName).mpr ⟨rfl, unwritable⟩
              rw [loads] at fails
              cases fails
          · next fault fails => exact iff_of_true ⟨_, rfl⟩ ((broken fault).mp fails).2

theorem projectLinter_eq_error_iff {store : FileStore} {path : Text} :
    (∃ b, (projectLinter store path).result = .error b) ↔ Unloadable store path := by
  rw [← loadConfig_eq_error_iff, projectLinter]
  cases (loadConfig store path).result <;> simp

/-- Files of their own that can be read are reported without loss. A config that cannot be taken in
gives the run up before it reads any of them. Otherwise the report has the findings of the files as
they are in the end, at or above the severity, each once and sorted by file, line and column; those at
one place stand as they were found, rule by rule. The counts of a report make up its length, and the
exit code tells whether there is an error in any of the files, reported or not. -/
theorem lint_reports_all {a : LintArguments} {store : FileStore}
    (readable : ∀ p ∈ a.files, ∃ content, store.read p = .ok content)
    (distinct : a.files.Pairwise fun p q => store.locate p ≠ store.locate q) :
    let outcome := lint a store
    (outcome.breakdown.isSome = true ↔ Unloadable store a.config) ∧
    (Unloadable store a.config → outcome.exit = 1 ∧ outcome.out = [] ∧ outcome.store = store) ∧
    (¬Unloadable store a.config → ∃ l, (projectLinter store a.config).result = .ok l ∧
      let found := a.files.flatMap (issuesIn l outcome.store)
      let due := found.filter fun i => i.Reaches a.severity
      let fixed := a.files.filter fun p => readText outcome.store p ≠ readText store p
      (∀ p ∈ a.files, readText outcome.store p = (readText store p).map (textAfter l a.fix)) ∧
      (∃ shown : List Issue,
        (shown.Perm due ∧ shown.Pairwise (fun i j => i.place ≤ j.place) ∧
          (∀ x, (shown.filter fun i => i.place = x) = due.filter fun i => i.place = x) ∧
          shown.Pairwise fun i j =>
            i.place = j.place → Rule.position i.finding.rule ≤ Rule.position j.finding.rule) ∧
        let report : Report := ⟨shown, if a.fix then some fixed else none⟩
        outcome.out = (if a.output = "json".toList then report.text (some 2) ++ ['\n']
          else lintText { store := outcome.store, issues := found, fixed } shown) ∧
        report.count .error + report.count .warning + report.count .info = shown.length) ∧
      outcome.exit = if ∃ i ∈ found, i.finding.severity = .error then 1 else 0) := by
  rw [← projectLinter_eq_error_iff]
  cases made : (projectLinter store a.config).result with
  | error b =>
      have outcome : lint a store = givenUp b (projectLinter store a.config).log store := by
        rw [lint, made]
      rw [outcome]
      exact ⟨iff_of_true rfl ⟨b, rfl⟩, fun _ => ⟨rfl, rfl, rfl⟩, fun loads => absurd ⟨b, rfl⟩ loads⟩
  | ok l =>
      have loads : ¬∃ b, (Except.ok l : Except Breakdown Linter) = .error b := by simp
      obtain ⟨s, ran⟩ := exists_ran l a.fix { store } readable
      obtain ⟨texts, issues, fixed⟩ := ran.found (deprecated_of_projectLinter made) distinct
      rw [List.nil_append] at issues fixed
      obtain ⟨perm, sorted, stable⟩ := of_reported a.severity s.issues
      have ties : s.issues.Pairwise fun i j =>
          i.path = j.path → Rule.position i.finding.rule ≤ Rule.position j.finding.rule := by
        rw [issues]
        exact pairwise_position_found l s.store (distinct.imp fun apart same => apart (congrArg _ same))
      rw [lint_of_ran made ran]
      refine ⟨iff_of_false Bool.false_ne_true loads, fun broken => absurd broken loads,
        fun _ => ⟨l, rfl, texts, ⟨reported a.severity s.issues, ?_, ?_, Report.count_add _⟩, ?_⟩⟩
      · rw [← issues]
        exact ⟨perm, sorted, stable, Issue.pairwise_of_filter_place stable (ties.filter _)⟩
      · dsimp only
        rw [← issues, ← fixed, lintOutput]
        rfl
      · dsimp only
        rw [← issues]
        simp [Issue.isError]

/-- Two files, one to be fixed and one with an error; and the same with a config of too long a name, and
with one that is no text. -/
theorem lint_reports_all_two :
    let store : FileStore :=
      [("a.jsx".toList, .file "y".toList), ("b.jsx".toList, .file "var x".toList),
        ("odd.toml".toList, .ofBytes [0xe9])]
    let a : LintArguments :=
      { files := ["b.jsx".toList, "a.jsx".toList], output := "json".toList, fix := true }
    let long : LintArguments := { a with config := List.replicate 256 'c' }
    let odd : LintArguments := { a with config := "odd.toml".toList }
    (∃ l, (projectLinter store a.config).result = .ok l ∧
      let found := a.files.flatMap (issuesIn l (lint a store).store)
      (∃ i ∈ found, i.finding.severity = .error) ∧ ∃ report : Report,
        (lint a store).out = report.text (some 2) ++ ['\n'] ∧
        report.issues.Perm (found.filter fun i => i.Reaches "INFO".toList)) ∧
    ((lint long store).breakdown.isSome = true ∧ (lint long store).out = []) ∧
    (lint odd store).breakdown.isSome = true ∧ (lint odd store).out = [] := by
  intro store a long odd
  have readable : ∀ p ∈ a.files, ∃ content, store.read p = .ok content := by
    intro p hp
    rcases List.mem_pair.mp hp with rfl | rfl <;> exact ⟨_, rfl⟩
  have distinct : a.files.Pairwise fun p q => store.locate p ≠ store.locate q := by decide +kernel
  have missing : store.read a.config = .error (.system .missing) := by decide +kernel
  have loads : ¬Unloadable store a.config := by
    rw [Unloadable, missing]
    decide
  have stops (config : Text) (unloadable : Unloadable store config) :
      (lint { a with config } store).breakdown.isSome = true ∧
        (lint { a with config } store).out = [] := by
    obtain ⟨broken, given, -⟩ := lint_reports_all (a := { a with config }) readable distinct
    exact ⟨broken.mpr unloadable, (given unloadable).2.1⟩
  have tooLong : store.read (List.replicate 256 'c') = .error (.system .nameTooLong) := by
    decide +kernel
  have noText : store.read "odd.toml".toList = .error .undecodable := by decide +kernel
  obtain ⟨-, -, reports⟩ := lint_reports_all (a := a) readable distinct
  obtain ⟨l, made, -, ⟨shown, ⟨perm, -⟩, out, -⟩, exit⟩ := reports loads
  rw [if_pos rfl] at out
  refine ⟨⟨l, made, ?_, _, out, perm⟩, stops _ (by rw [Unloadable, tooLong]; exact .inl rfl),
    stops _ (by rw [Unloadable, noText]; exact .inr rfl)⟩
  by_contra none
  rw [if_neg none] at exit
  revert exit
  decide +kernel

end Command
end MotionExpr
