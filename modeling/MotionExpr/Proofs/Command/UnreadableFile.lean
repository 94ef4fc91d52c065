import MotionExpr.Proofs.Command.LintFiles

/-!
A file that cannot be read ends the run where it stands. The files in front of it were fixed and
written by then, and they stay so; the files behind it were not looked at.
-/

namespace MotionExpr
namespace Command

/-- The store is as before just where no file changes in its turns. -/
theorem Ran.store_eq_iff {l : Linter} {fix : Bool} {s s' : LintState} {paths : List Text}
    (names : l.profile.deprecated = Language.deprecated) (ran : Ran l fix s paths s') :
    s'.store = s.store ↔ ∀ p ∈ paths, ∀ source, readText s.store p = .ok source →
      textAfter l fix source = source := by
  refine ⟨fun same p hp source hsource => ?_, ran.store_eq⟩
  obtain ⟨content, hread, rfl⟩ := map_eq_ok_iff.mp hsource
  have again := ran.reads p
  rw [same, hread] at again
  have itself : turns s.store paths p ≠ 0 :=
    Nat.ne_of_gt (List.countP_pos_iff.mpr ⟨p, hp, decide_eq_true rfl⟩)
  exact (contentAfter_eq_self_iff names).mp
    ((iterate_contentAfter_eq_self_iff names itself).mp (Except.ok.inj again).symm)

/-- Exit code two is that of the first path that cannot be read. The files in front of it are as they
are after their turns, one turn for each of the paths that lead to them; all else is as before, and no
file is made or removed. So nothing was written just where fixing is not asked for or changes none of
the files in front. -/
theorem unreadable_file_keeps_earlier_fixes {a : LintArguments} {store : FileStore}
    (failed : (lint a store).exit = 2) :
    ∃ l front path back fault,
      (projectLinter store a.config).result = .ok l ∧ a.files = front ++ path :: back ∧
      (∀ p ∈ front, ∃ content, store.read p = .ok content) ∧
      store.read path = .error (.system fault) ∧
      let outcome := lint a store
      (outcome.out = [] ∧ outcome.err = textLine
        ("Error: cannot read " ++ String.ofList path ++ ": " ++ fault.message path)) ∧
      outcome.store.shape = store.shape ∧
      (∀ other, outcome.store.read other =
        (store.read other).map (contentAfter l a.fix)^[turns store front other]) ∧
      (outcome.store = store ↔ (a.fix = true → ∀ p ∈ front, ∀ source,
        readText store p = .ok source → fixAll source (l.lint source) = source)) := by
  have linter : ∃ l, (projectLinter store a.config).result = .ok l := by
    cases made : (projectLinter store a.config).result with
    | ok l => exact ⟨l, rfl⟩
    | error b =>
        rw [lint, made] at failed
        cases failed
  obtain ⟨l, made⟩ := linter
  have names := deprecated_of_projectLinter made
  rcases readable_or_exists_first store a.files with all | ⟨front, path, back, fault, files, readable, unreadable⟩
  · obtain ⟨s, ran⟩ := exists_ran l a.fix { store } all
    rw [lint_of_ran made ran] at failed
    split at failed <;> cases failed
  · obtain ⟨s, ran⟩ := exists_ran l a.fix { store } readable
    cases fault with
    | system fault =>
        refine ⟨l, front, path, back, fault, made, files, readable, unreadable, ?_⟩
        rw [lint_of_unreadable made ran files unreadable]
        refine ⟨⟨rfl, rfl⟩, ran.shape, ran.reads, (ran.store_eq_iff names).trans ?_⟩
        cases a.fix <;> simp [textAfter]
    | nulInPath | undecodable =>
        rw [lint_of_unexpected made ran files unreadable rfl] at failed
        cases failed

/-- The file in front has had its turn, and the file behind is left alone. -/
theorem unreadable_file_keeps_earlier_fixes_between :
    let old : Text := "var x".toList
    let store : FileStore := [("a.jsx".toList, .file old), ("b.jsx".toList, .file old)]
    let a : LintArguments :=
      { files := ["a.jsx".toList, "nope.jsx".toList, "b.jsx".toList], fix := true }
    (lint a store).exit = 2 ∧ ∃ l, (projectLinter store a.config).result = .ok l ∧
      (lint a store).store.read "a.jsx".toList = .ok (contentAfter l true old) ∧
      (lint a store).store.read "b.jsx".toList = .ok old := by
  intro old store a
  have failed : (lint a store).exit = 2 := by decide +kernel
  obtain ⟨l, front, path, back, fault, made, files, readable, unreadable, -, -, reads, -⟩ :=
    unreadable_file_keeps_earlier_fixes failed
  have first : front = ["a.jsx".toList] := by
    cases front with
    | nil =>
        obtain ⟨rfl, -⟩ := List.cons.inj files
        cases unreadable
    | cons p front =>
        obtain ⟨rfl, others⟩ := List.cons.inj files
        cases front with
        | nil => rfl
        | cons q front =>
            obtain ⟨rfl, -⟩ := List.cons.inj others
            obtain ⟨content, hcontent⟩ := readable _ (List.mem_cons_of_mem _ List.mem_cons_self)
            cases hcontent
  refine ⟨failed, l, made, ?_, ?_⟩
  · rw [reads, first]
    rfl
  · rw [reads, first]
    rfl

/-- A run that ends with exit code two has rewritten the file in front of the one that is not there. -/
theorem unreadable_file_behind_a_fixed_one :
    let store : FileStore := [("a.jsx".toList, .file "var x".toList)]
    let outcome := lint { files := ["a.jsx".toList, "nope.jsx".toList], fix := true } store
    outcome.exit = 2 ∧ store.read "nope.jsx".toList = .error (.system .missing) ∧
      outcome.store.read "a.jsx".toList = .ok "let x".toList ∧ outcome.store ≠ store := by
  decide +kernel

end Command
end MotionExpr
