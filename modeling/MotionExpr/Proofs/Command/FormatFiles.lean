import MotionExpr.Command.Format
import MotionExpr.Proofs.Command.FileStore
import MotionExpr.Proofs.Format.Failure

/-!
Formatting file after file. The turn of a file has a result, which depends on what is read, and leaves
the other files as they are; or it gives the run up. A pass that fails is seen by all who ask for
formatting: the text comes back, no edit is made, and a file with that text stays as it is. Over such a
file the others are formatted as if it were not there.
-/

namespace MotionExpr
namespace Command

open Text Formatter

/-- What is written over a file. -/
def FileResult.newText? : FileResult → Option Text
  | unreadable _ => none
  | formatted r => if (formatted r).isModified then some r.text else none

/-- The store after the turn of a file. -/
def FileResult.storeAfter (write : Bool) (store : FileStore) (path : Text) (r : FileResult) :
    FileStore :=
  if write then r.newText?.elim store (store.save path) else store

/-- What becomes of the file that a path leads to, unless it gives the run up. -/
def resultAt (f : Formatter) (store : FileStore) (path : Text) : Except Breakdown FileResult :=
  match readText store path with
  | .error fault => (fault.expected path).map .unreadable
  | .ok source => .ok (.formatted (f.format source))

/-- No other error than those that the commands are not prepared for. -/
theorem exists_expected_of_resultAt {f : Formatter} {store : FileStore} {path : Text} {b : Breakdown}
    (h : resultAt f store path = .error b) : ∃ fault : ReadFault, fault.expected path = .error b := by
  rw [resultAt] at h
  cases read : readText store path with
  | ok source =>
      rw [read] at h
      cases h
  | error fault =>
      rw [read] at h
      cases fault with
      | system fault => cases h
      | nulInPath =>
          cases h
          exact ⟨.nulInPath, rfl⟩
      | undecodable =>
          cases h
          exact ⟨.undecodable, rfl⟩

theorem newText?_eq_some_iff {f : Formatter} {store : FileStore} {path text : Text} :
    (∃ r, resultAt f store path = .ok r ∧ r.newText? = some text) ↔
      ∃ source, readText store path = .ok source ∧
        ((f.format source).failure = none ∧ (f.format source).modified = true) ∧
          (f.format source).text = text := by
  rw [resultAt]
  cases readText store path with
  | error fault => cases fault <;> simp [ReadFault.expected, Except.map, FileResult.newText?]
  | ok source => simp [FileResult.newText?, FileResult.isModified]

section Step

variable {f : Formatter} {store : FileStore} {path other : Text} {r : FileResult} (write : Bool)

theorem formatFile_eq : formatFile f write store path =
    (resultAt f store path).map fun r => (r, r.storeAfter write store path) := by
  rw [formatFile, resultAt]
  cases readText store path with
  | error fault => cases fault <;> cases write <;> rfl
  | ok source =>
      cases write with
      | false => rfl
      | true =>
          dsimp only [Except.map, FileResult.storeAfter, FileResult.newText?]
          rw [Bool.true_and, if_pos rfl]
          split <;> rfl

theorem formatFiles_cons_of_error {b : Breakdown} (h : resultAt f store path = .error b)
    (paths : List Text) :
    formatFiles f write store (path :: paths) = { results := .error b, store } := by
  rw [formatFiles, formatFile_eq, h]
  rfl

theorem formatFiles_cons_of_ok (h : resultAt f store path = .ok r) (paths : List Text) :
    formatFiles f write store (path :: paths) =
      let rest := formatFiles f write (r.storeAfter write store path) paths
      { results := rest.results.map (.add r), store := rest.store, log := r.notes ++ rest.log } := by
  rw [formatFiles, formatFile_eq, h]
  rfl

variable (hr : resultAt f store path = .ok r)

include hr

/-- The store stays as it is, or takes a text in place of a file that can be read. -/
theorem storeAfter_cases : r.storeAfter write store path = store ∨
    ∃ content, store.read path = .ok content ∧ (f.format (LineEnd.unify content)).failure = none ∧
      r.storeAfter write store path = store.save path (f.format (LineEnd.unify content)).text := by
  rw [FileResult.storeAfter]
  split
  · cases hnew : r.newText? with
    | none => exact .inl rfl
    | some text =>
        obtain ⟨source, hsource, ⟨succeeded, -⟩, rfl⟩ := newText?_eq_some_iff.mp ⟨r, hr, hnew⟩
        obtain ⟨content, hread, rfl⟩ := map_eq_ok_iff.mp hsource
        exact .inr ⟨content, hread, succeeded, rfl⟩
  · exact .inl rfl

theorem shape_storeAfter : (r.storeAfter write store path).shape = store.shape := by
  obtain same | ⟨content, hread, -, saved⟩ := storeAfter_cases write hr
  · rw [same]
  · rw [saved, FileStore.shape_save hread]

/-- A file that cannot be formatted is not written over, whatever path leads to it. -/
theorem read_storeAfter_of_failed {text : Text} {failure : PassFailure}
    (hread : store.read other = .ok text)
    (failed : (f.format (LineEnd.unify text)).failure = some failure) :
    (r.storeAfter write store path).read other = .ok text := by
  obtain same | ⟨content, hcontent, succeeded, saved⟩ := storeAfter_cases write hr
  · rw [same, hread]
  · rw [saved]
    refine (FileStore.read_save hcontent _ fun there => ?_).trans hread
    obtain rfl : text = content := by
      rw [FileStore.read_congr there, hcontent] at hread
      exact (Except.ok.inj hread).symm
    rw [succeeded] at failed
    cases failed

end Step

/-- Reading the file does not give the run up. -/
def Endures (store : FileStore) (path : Text) : Prop :=
  store.read path ≠ .error .nulInPath ∧ store.read path ≠ .error .undecodable

instance (store : FileStore) (path : Text) : Decidable (Endures store path) :=
  inferInstanceAs (Decidable (_ ∧ _))

/-- What is saved over files gives no run up that was not given up before. -/
theorem endures_congr {store store' : FileStore} (h : store'.shape = store.shape) {path : Text} :
    Endures store' path ↔ Endures store path := by
  rw [Endures, Endures, Ne, Ne, Ne, Ne, FileStore.read_eq_error_congr h, FileStore.read_eq_error_congr h]

theorem endures_iff {f : Formatter} {store : FileStore} {path : Text} :
    Endures store path ↔ ∃ r, resultAt f store path = .ok r := by
  rw [Endures, resultAt, readText]
  cases store.read path with
  | ok content => simp [Except.map]
  | error fault => cases fault <;> simp [Except.map, ReadFault.expected]

/-- There are results just where no file gives the run up, whatever was written before its turn. -/
theorem exists_results_iff {f : Formatter} {write : Bool} {store : FileStore} {paths : List Text} :
    (∃ r, (formatFiles f write store paths).results = .ok r) ↔ ∀ p ∈ paths, Endures store p := by
  induction paths generalizing store with
  | nil => exact iff_of_true ⟨_, rfl⟩ (List.forall_mem_nil _)
  | cons path paths ih =>
      rw [List.forall_mem_cons, endures_iff (f := f)]
      cases hr : resultAt f store path with
      | error b =>
          rw [formatFiles_cons_of_error write hr]
          simp
      | ok r =>
          have later : (∃ rs, (formatFiles f write (r.storeAfter write store path) paths).results =
              .ok rs) ↔ ∀ p ∈ paths, Endures store p := by
            rw [ih]
            simp only [endures_congr (shape_storeAfter write hr)]
          rw [formatFiles_cons_of_ok write hr, ← later]
          dsimp only
          cases (formatFiles f write (r.storeAfter write store path) paths).results <;> simp [Except.map]

/-- With settings that make a plan, what the files hold is all that can give the command up. -/
theorem isSome_breakdown_formatStore_iff {a : FormatArguments} {plan : Plan} {log : Log}
    {store : FileStore} : (formatStore a plan log store).breakdown.isSome = true ↔
      ∃ p ∈ a.files, ¬Endures store p := by
  have given := @exists_results_iff ⟨plan, Pass.all⟩ (!a.check) store a.files
  rw [formatStore]
  split
  · next b broken =>
      rw [broken] at given
      refine iff_of_true rfl ?_
      simpa using given
  · next r done =>
      rw [done] at given
      refine iff_of_false Bool.false_ne_true ?_
      simpa using given

/-- A run is given up by the reading of one of its files. -/
theorem exists_expected_of_results {f : Formatter} {write : Bool} {store : FileStore}
    {paths : List Text} {b : Breakdown} (h : (formatFiles f write store paths).results = .error b) :
    ∃ path ∈ paths, ∃ fault : ReadFault, fault.expected path = .error b := by
  induction paths generalizing store with
  | nil => cases h
  | cons path paths ih =>
      cases hr : resultAt f store path with
      | error b' =>
          rw [formatFiles_cons_of_error write hr] at h
          cases h
          exact ⟨path, List.mem_cons_self, exists_expected_of_resultAt hr⟩
      | ok r =>
          rw [formatFiles_cons_of_ok write hr] at h
          dsimp only at h
          cases rest : (formatFiles f write (r.storeAfter write store path) paths).results with
          | error b' =>
              rw [rest] at h
              cases h
              obtain ⟨later, hlater, fault, expected⟩ := ih rest
              exact ⟨later, List.mem_cons_of_mem path hlater, fault, expected⟩
          | ok rs =>
              rw [rest] at h
              cases h

section Failed

variable {f : Formatter} {store : FileStore} {path source text : Text} {failure : PassFailure}

theorem read_formatFiles_of_failed (write : Bool) (hread : store.read path = .ok text)
    (failed : (f.format (LineEnd.unify text)).failure = some failure) (others : List Text) :
    (formatFiles f write store others).store.read path = .ok text := by
  induction others generalizing store with
  | nil => exact hread
  | cons other others ih =>
      cases hr : resultAt f store other with
      | error b => rwa [formatFiles_cons_of_error write hr]
      | ok r =>
          rw [formatFiles_cons_of_ok write hr]
          exact ih (read_storeAfter_of_failed write hr hread failed)

/-- The others are formatted as if the file that cannot be formatted were not there. -/
theorem formatFiles_failed (write : Bool) (hpath : readText store path = .ok source)
    (failed : f.format source = ⟨source, false, some failure⟩) (before behind : List Text) :
    let all := formatFiles f write store (before ++ path :: behind)
    let others := formatFiles f write store (before ++ behind)
    all.results = others.results.map (fun r => ⟨r.results.take before.length ++
        .formatted ⟨source, false, some failure⟩ :: r.results.drop before.length⟩) ∧
      all.store = others.store := by
  induction before generalizing store with
  | nil =>
      have here : resultAt f store path = .ok (.formatted ⟨source, false, some failure⟩) := by
        simp only [resultAt, hpath, failed]
      have untouched : FileResult.storeAfter write store path
          (.formatted ⟨source, false, some failure⟩) = store := by
        cases write <;> rfl
      rw [List.nil_append, formatFiles_cons_of_ok write here, untouched]
      exact ⟨rfl, rfl⟩
  | cons other before ih =>
      rw [List.cons_append, List.cons_append]
      cases hr : resultAt f store other with
      | error b =>
          rw [formatFiles_cons_of_error write hr, formatFiles_cons_of_error write hr]
          exact ⟨rfl, rfl⟩
      | ok r =>
          rw [formatFiles_cons_of_ok write hr, formatFiles_cons_of_ok write hr]
          obtain ⟨text, hread, rfl⟩ := map_eq_ok_iff.mp hpath
          have still := read_storeAfter_of_failed write hr hread (by rw [failed])
          obtain ⟨results, same⟩ := ih (congrArg (Except.map LineEnd.unify) still)
          refine ⟨?_, same⟩
          dsimp only
          rw [results]
          cases (formatFiles f write (r.storeAfter write store other) (before ++ behind)).results <;> rfl

end Failed

/-- A pass that fails changes nothing, whatever the passes in front of it did. The text comes back with
one error, which names the pass. Neither formatting the text, nor a part of a text that is this one,
nor a line that is this one but for blanks around it, makes an edit. A file with the text stays as it is
and counts as an error, and the other files are formatted as if it were not there. -/
theorem failing_pass_changes_nothing {plan : Plan} {before behind : List Pass} {p : Pass}
    {act : Transformation} {source reached : Text} {fault : PassFault}
    (run : runPasses plan before source = .ok reached) (on : plan p = some act)
    (fails : act reached = .error fault) :
    let f : Formatter := ⟨plan, before ++ p :: behind⟩
    let failed : FormatResult := ⟨source, false, some ⟨p, fault⟩⟩
    f.format source = failed ∧ failed.errors = [p.name ++ ": " ++ fault.message] ∧
    f.formatDocument source = [] ∧
    (∀ text r, TextRange.slice r text = source → f.formatRange text r = []) ∧
    (∀ (s : FormatSettings) text line typed l, s.plan = .ok plan →
      (lines text)[(line - 1).toNat]? = some l → trim l = source →
        f.formatOnType text line typed = []) ∧
    ∀ write store paths path rest, readText store path = .ok source →
      let all := formatFiles f write store (paths ++ path :: rest)
      let others := formatFiles f write store (paths ++ rest)
      all.results = others.results.map (fun r => ⟨r.results.take paths.length ++
          .formatted failed :: r.results.drop paths.length⟩) ∧
        all.store = others.store ∧ all.store.read path = store.read path ∧
        ∀ r given, all.results = .ok r → others.results = .ok given →
          r.total = given.total + 1 ∧ r.modified = given.modified ∧ r.failed = given.failed + 1 := by
  intro f failed
  have error : runPasses f.plan f.passes source = .error ⟨p, fault⟩ :=
    runPasses_fails run on fails behind
  have formatted : f.format source = failed := format_of_error error
  refine ⟨formatted, rfl, formatDocument_of_error error, fun text r => formatRange_of_error error,
    fun s text line typed l hs => formatOnType_of_error error hs, ?_⟩
  intro write store paths path rest hpath all others
  obtain ⟨results, sameStore⟩ := formatFiles_failed write hpath formatted paths rest
  obtain ⟨text, hread, rfl⟩ := map_eq_ok_iff.mp hpath
  have sameFile : all.store.read path = store.read path := by
    rw [hread]
    exact read_formatFiles_of_failed write hread (by rw [formatted]) _
  refine ⟨results, sameStore, sameFile, fun r given hr hgiven => ?_⟩
  have inserted : r.results.Perm (.formatted failed :: given.results) := by
    rw [results, hgiven] at hr
    cases hr
    exact List.perm_middle.trans (by rw [List.take_append_drop])
  exact ⟨inserted.length_eq, (inserted.countP_eq _).trans (List.countP_cons_of_neg Bool.false_ne_true),
    (inserted.countP_eq _).trans (List.countP_cons_of_pos rfl)⟩

/-- Blanks at the end of a line are trimmed before spacing fails at a mark in the next line. -/
theorem failing_pass_changes_nothing_mark :
    let source := "a  \n\x000\x00".toList
    let store : FileStore := [("b".toList, .file source), ("c".toList, .file "x=1".toList)]
    let f : Formatter := {}
    let failed : FormatResult := ⟨source, false, some ⟨.brackets, .literal .missing⟩⟩
    runPasses (FormatOptions.plan {}) [.lineEndings, .trailingBlanks, .indentation] source =
        .ok "a\n\x000\x00".toList ∧
      f.format source = failed ∧ f.formatDocument source = [] ∧
      (formatFiles f true store ["b".toList, "c".toList]).results =
        (formatFiles f true store ["c".toList]).results.map (.add (.formatted failed)) ∧
      ∃ r, (formatFiles f true store ["b".toList, "c".toList]).results = .ok r ∧ r.failed = 1 := by
  intro source store f failed
  have run : runPasses (FormatOptions.plan {}) [.lineEndings, .trailingBlanks, .indentation] source =
      .ok "a\n\x000\x00".toList := by decide +kernel
  have kept := @failing_pass_changes_nothing _ _
    [.calls, .operators, .commas, .semicolons, .quotes, .lineLength, .finalNewline] .brackets _ _ _
    (.literal .missing) run rfl (by decide +kernel)
  obtain ⟨results, -, -, counters⟩ :=
    kept.2.2.2.2.2 true store [] "b".toList ["c".toList] (by decide +kernel)
  have alone : (formatFiles f true store ["c".toList]).results =
      .ok ⟨[.formatted ⟨"x = 1;\n".toList, true, none⟩]⟩ := by decide +kernel
  have both : (formatFiles f true store ["b".toList, "c".toList]).results =
      .ok ⟨[.formatted failed, .formatted ⟨"x = 1;\n".toList, true, none⟩]⟩ :=
    results.trans (congrArg (Except.map _) alone)
  exact ⟨run, kept.1, kept.2.2.1, results, _, both, (counters _ _ both alone).2.2⟩

end Command
end MotionExpr
