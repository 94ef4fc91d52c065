import MotionExpr.Command.Lint
import MotionExpr.Proofs.Command.FileStore
import MotionExpr.Proofs.Fix.Growth

/-!
Linting file after file. The turn of a file keeps what no path of that file leads to, and it adds the
findings of the text that is in the file afterwards. Where a run stops depends on the shape of the
store, which no turn changes, so the first path that cannot be read at the start is where it stops.
-/

namespace MotionExpr
namespace Command

open Text

/-- The text that is linted in the end: the source, or what fixing makes of it. -/
def textAfter (l : Linter) (fix : Bool) (source : Text) : Text :=
  if fix then fixAll source (l.lint source) else source

/-- What is in a file after its turn. It is written over only if fixing changes its text; otherwise even
its line ends stay. -/
def contentAfter (l : Linter) (fix : Bool) (content : Text) : Text :=
  let text := textAfter l fix (LineEnd.unify content)
  if text = LineEnd.unify content then content else text

/-- The state after the turn of a file. -/
def stateAfter (l : Linter) (fix : Bool) (s : LintState) (path content : Text) : LintState :=
  let source := LineEnd.unify content
  let text := textAfter l fix source
  { store := if text = source then s.store else s.store.save path text
    issues := s.issues ++ issuesOf l path text
    fixed := s.fixed ++ if text = source then [] else [path]
    log := s.log ++ skippedNotes l source ++ if text = source then [] else skippedNotes l text }

/-- The findings of a file as it is in a store. -/
def issuesIn (l : Linter) (store : FileStore) (path : Text) : List Issue :=
  match readText store path with
  | .ok source => issuesOf l path source
  | .error _ => []

/-- How many of the paths lead where another one does. -/
def turns (store : FileStore) (paths : List Text) (other : Text) : Nat :=
  paths.countP fun p => store.locate p = store.locate other

theorem turns_congr {store store' : FileStore} (h : store'.shape = store.shape) (paths : List Text)
    (other : Text) : turns store' paths other = turns store paths other := by
  simp only [turns, FileStore.locate_congr h]

/-- Where each step keeps a value or adds to its measure, only a value that one step keeps comes back. -/
theorem eq_self_of_iterate {α : Type} {f : α → α} {size : α → Nat}
    (grow : ∀ x, f x = x ∨ size x < size (f x)) {n : Nat} {x : α} (h : f^[n + 1] x = x) : f x = x := by
  have least (n : Nat) (x : α) : size x ≤ size (f^[n] x) := by
    induction n generalizing x with
    | zero => exact Nat.le_refl _
    | succ n ih =>
        refine Nat.le_trans ?_ (ih (f x))
        rcases grow x with same | more
        · rw [same]
        · exact Nat.le_of_lt more
  refine (grow x).resolve_right fun more => ?_
  have back := least n (f x)
  rw [← Function.iterate_succ_apply, h] at back
  omega

/-- Zero for what has line ends of its own, and else more for longer texts. -/
def stage (content : Text) : Nat := if '\r' ∈ content then 0 else bulk content + 1

theorem stage_of_not_return {content : Text} (h : '\r' ∉ content) :
    stage content = bulk content + 1 := if_neg h

section Content

variable {l : Linter} {fix : Bool} (names : l.profile.deprecated = Language.deprecated)

include names

theorem not_return_textAfter {source : Text} (h : '\r' ∉ source) :
    '\r' ∉ textAfter l fix source := by
  rw [textAfter]
  split
  · exact not_return_fixAll names source h
  · exact h

theorem grows_textAfter (source : Text) : Grows source (textAfter l fix source) := by
  rw [textAfter]
  split
  · exact grows_fixAll names source
  · exact .refl source

/-- What is read from the file afterwards is the text that was linted. -/
theorem unify_contentAfter (content : Text) :
    LineEnd.unify (contentAfter l fix content) = textAfter l fix (LineEnd.unify content) := by
  rw [contentAfter]
  split
  · next same => exact same.symm
  · exact LineEnd.unify_eq_self (not_return_textAfter names (LineEnd.not_return_unify content))

/-- A file is as before just where its text is. -/
theorem contentAfter_eq_self_iff {content : Text} : contentAfter l fix content = content ↔
    textAfter l fix (LineEnd.unify content) = LineEnd.unify content := by
  constructor
  · intro same
    rw [← unify_contentAfter names, same]
  · intro same
    rw [contentAfter]
    exact if_pos same

/-- A file that is written over does not become what it was. -/
theorem stage_contentAfter (content : Text) : contentAfter l fix content = content ∨
    stage content < stage (contentAfter l fix content) := by
  rw [contentAfter]
  split
  · exact .inl rfl
  · next changed =>
      right
      rw [stage_of_not_return (not_return_textAfter names (LineEnd.not_return_unify content)), stage]
      split
      · exact Nat.succ_pos _
      · next noReturn =>
          rw [LineEnd.unify_eq_self noReturn] at changed ⊢
          exact Nat.succ_lt_succ ((grows_textAfter names content).resolve_left changed)

theorem iterate_contentAfter_eq_self_iff {n : Nat} (hn : n ≠ 0) {content : Text} :
    (contentAfter l fix)^[n] content = content ↔ contentAfter l fix content = content := by
  obtain ⟨m, rfl⟩ := Nat.exists_eq_succ_of_ne_zero hn
  exact ⟨eq_self_of_iterate (stage_contentAfter names), fun same => Function.iterate_fixed same _⟩

end Content

section Step

variable {l : Linter} {fix : Bool} {s : LintState} {path content : Text}

theorem lintFile_of_error {fault : ReadFault} (h : s.store.read path = .error fault) :
    lintFile l fix s path = .error fault := by
  rw [lintFile, readText, h]
  rfl

theorem lintFile_of_ok (h : s.store.read path = .ok content) :
    lintFile l fix s path = .ok (stateAfter l fix s path content) := by
  rw [lintFile, readText, h]
  simp only [Except.map, bind, Except.bind, pure, Except.pure, stateAfter, textAfter]
  cases fix with
  | false => simp
  | true => by_cases same : fixAll (LineEnd.unify content) (l.lint (LineEnd.unify content)) =
      LineEnd.unify content <;> simp [same]

variable (h : s.store.read path = .ok content)

include h

theorem shape_stateAfter : (stateAfter l fix s path content).store.shape = s.store.shape := by
  rw [stateAfter]
  dsimp only
  split
  · rfl
  · exact FileStore.shape_save h _

variable {other : Text}

theorem read_stateAfter_of_same (same : s.store.locate path = s.store.locate other) :
    (stateAfter l fix s path content).store.read other = .ok (contentAfter l fix content) := by
  rw [stateAfter, contentAfter]
  dsimp only
  split
  · exact (FileStore.read_congr same).symm.trans h
  · exact FileStore.read_save_self h _ same.symm

theorem read_stateAfter_of_apart (apart : s.store.locate path ≠ s.store.locate other) :
    (stateAfter l fix s path content).store.read other = s.store.read other := by
  rw [stateAfter]
  dsimp only
  split
  · rfl
  · exact FileStore.read_save h _ (Ne.symm apart)

/-- A turn is seen by the paths that lead to its file, and by no others. -/
theorem read_stateAfter (other : Text) : (stateAfter l fix s path content).store.read other =
    (s.store.read other).map
      (contentAfter l fix)^[if s.store.locate path = s.store.locate other then 1 else 0] := by
  split
  · next same =>
      rw [read_stateAfter_of_same h same, ← FileStore.read_congr same, h]
      rfl
  · next apart =>
      rw [read_stateAfter_of_apart h apart]
      cases s.store.read other <;> rfl

end Step

/-- One state leads to another by the turns of files that can be read. -/
inductive Ran (l : Linter) (fix : Bool) : LintState → List Text → LintState → Prop where
  | nil (s) : Ran l fix s [] s
  | cons {s s' path paths content} : s.store.read path = .ok content →
      Ran l fix (stateAfter l fix s path content) paths s' → Ran l fix s (path :: paths) s'

section Run

variable {l : Linter} {fix : Bool} {s s' : LintState} {path content : Text} {paths : List Text}

theorem lintFiles_of_ran (ran : Ran l fix s paths s') : lintFiles l fix s paths = (s', none) := by
  induction ran with
  | nil s => rfl
  | cons here _ ih =>
      rw [lintFiles, lintFile_of_ok here]
      exact ih

theorem readable_stateAfter (here : s.store.read path = .ok content)
    (readable : ∀ p ∈ paths, ∃ content, s.store.read p = .ok content) :
    ∀ p ∈ paths, ∃ new, (stateAfter l fix s path content).store.read p = .ok new := by
  intro p hp
  obtain ⟨old, hold⟩ := readable p hp
  exact ⟨_, by rw [read_stateAfter here, hold]; rfl⟩

/-- Files that can be read all have their turns. -/
theorem exists_ran (l : Linter) (fix : Bool) (s : LintState)
    (readable : ∀ p ∈ paths, ∃ content, s.store.read p = .ok content) :
    ∃ s', Ran l fix s paths s' := by
  induction paths generalizing s with
  | nil => exact ⟨s, .nil s⟩
  | cons path paths ih =>
      obtain ⟨⟨content, here⟩, later⟩ := List.forall_mem_cons.mp readable
      obtain ⟨s', ran⟩ := ih (stateAfter l fix s path content) (readable_stateAfter here later)
      exact ⟨s', .cons here ran⟩

namespace Ran

theorem shape (ran : Ran l fix s paths s') : s'.store.shape = s.store.shape := by
  induction ran with
  | nil s => rfl
  | cons here _ ih => exact ih.trans (shape_stateAfter here)

theorem reads (ran : Ran l fix s paths s') (other : Text) : s'.store.read other =
    (s.store.read other).map (contentAfter l fix)^[turns s.store paths other] := by
  induction ran with
  | nil s => cases s.store.read other <;> rfl
  | @cons s s' path paths content here rest ih =>
      have count : turns s.store (path :: paths) other = turns s.store paths other +
          if s.store.locate path = s.store.locate other then 1 else 0 := by
        rw [turns, List.countP_cons, turns]
        simp only [decide_eq_true_eq]
      rw [ih, read_stateAfter here, turns_congr (shape_stateAfter here), count, Function.iterate_add]
      cases s.store.read other <;> rfl

/-- Where no text changes, nothing is written. -/
theorem store_eq (ran : Ran l fix s paths s') (unchanged : ∀ p ∈ paths, ∀ source,
    readText s.store p = .ok source → textAfter l fix source = source) : s'.store = s.store := by
  induction ran with
  | nil s => rfl
  | @cons s s' path paths content here rest ih =>
      obtain ⟨first, others⟩ := List.forall_mem_cons.mp unchanged
      have kept : (stateAfter l fix s path content).store = s.store :=
        if_pos (first _ (by rw [readText, here]; rfl))
      rw [ih (kept.symm ▸ others), kept]

end Ran

/-- The outcome of a run over files that can be read. -/
theorem lint_of_ran {a : LintArguments} {store : FileStore}
    (made : (projectLinter store a.config).result = .ok l) (ran : Ran l a.fix { store } a.files s) :
    lint a store =
      { exit := if s.issues.any (·.isError) then 1 else 0
        out := lintOutput a s
        log := (projectLinter store a.config).log ++ s.log
        store := s.store } := by
  rw [lint, made]
  dsimp only
  rw [lintStore, lintFiles_of_ran ran]

/-- A path that cannot be read ends the run, whatever was written in front of it. -/
theorem lintFiles_of_unreadable {back : List Text} {fault : ReadFault} (ran : Ran l fix s paths s')
    (unreadable : s.store.read path = .error fault) :
    lintFiles l fix s (paths ++ path :: back) = (s', some (path, fault)) := by
  induction ran with
  | nil s => rw [List.nil_append, lintFiles, lintFile_of_error unreadable]
  | cons here _ ih =>
      rw [List.cons_append, lintFiles, lintFile_of_ok here]
      exact ih (by rw [read_stateAfter here, unreadable]; rfl)

section Ended

variable {a : LintArguments} {store : FileStore} {front back : List Text}
  (made : (projectLinter store a.config).result = .ok l) (ran : Ran l a.fix { store } front s)
  (files : a.files = front ++ path :: back)

include made ran files

/-- Where the system has no file to read, the run ends with an error. -/
theorem lint_of_unreadable {fault : SystemFault} (unreadable : store.read path = .error (.system fault)) :
    lint a store =
      { exit := 2
        err := textLine ("Error: cannot read " ++ String.ofList path ++ ": " ++ fault.message path)
        log := (projectLinter store a.config).log ++ s.log
        store := s.store } := by
  have run : lintFiles l a.fix { store } a.files = (s, some (path, .system fault)) := by
    rw [files]
    exact lintFiles_of_unreadable ran unreadable
  simp only [lint, made, lintStore, run, ReadFault.expected]

/-- Where the commands are not prepared for what is read, the run is given up. -/
theorem lint_of_unexpected {fault : ReadFault} {b : Breakdown}
    (unreadable : store.read path = .error fault) (unexpected : fault.expected path = .error b) :
    lint a store = givenUp b ((projectLinter store a.config).log ++ s.log) s.store := by
  have run : lintFiles l a.fix { store } a.files = (s, some (path, fault)) := by
    rw [files]
    exact lintFiles_of_unreadable ran unreadable
  simp only [lint, made, lintStore, run, unexpected]

end Ended

end Run

/-- Either all paths can be read, or there is a first one that cannot. -/
theorem readable_or_exists_first (store : FileStore) (paths : List Text) :
    (∀ p ∈ paths, ∃ content, store.read p = .ok content) ∨
      ∃ front path back fault, paths = front ++ path :: back ∧
        (∀ p ∈ front, ∃ content, store.read p = .ok content) ∧ store.read path = .error fault := by
  induction paths with
  | nil => exact .inl (List.forall_mem_nil _)
  | cons first paths ih =>
      cases read : store.read first with
      | error fault =>
          exact .inr ⟨[], first, paths, fault, rfl, List.forall_mem_nil _, read⟩
      | ok content =>
          rcases ih with all | ⟨front, path, back, fault, rfl, readable, unreadable⟩
          · exact .inl (List.forall_mem_cons.mpr ⟨⟨content, read⟩, all⟩)
          · exact .inr ⟨first :: front, path, back, fault, rfl,
              List.forall_mem_cons.mpr ⟨⟨content, read⟩, readable⟩, unreadable⟩

/-- The linter of a project looks for the deprecated names of the language. -/
theorem deprecated_of_projectLinter {store : FileStore} {config : Text} {l : Linter}
    (h : (projectLinter store config).result = .ok l) : l.profile.deprecated = Language.deprecated := by
  rw [projectLinter] at h
  cases loaded : (loadConfig store config).result with
  | error b => simp [loaded] at h
  | ok c =>
      simp only [loaded, Except.ok.injEq] at h
      subst h
      dsimp only
      rw [ProjectConfig.profile]
      split <;> rfl

end Command
end MotionExpr
