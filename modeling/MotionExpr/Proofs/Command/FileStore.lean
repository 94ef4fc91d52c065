import MotionExpr.Command.FileStore
import MotionExpr.Proofs.Format.Lines

/-!
Saving over a file. Where a path leads depends on which entries there are and which of them are
directories, not on what the files hold. A file that is saved where one was read changes nothing else,
so the other files can be read as before.
-/

namespace MotionExpr

def FileEntry.emptied : FileEntry → FileEntry
  | file _ => file []
  | undecodable bytes invalid => undecodable bytes invalid
  | directory => directory

namespace FileStore

/-- The store with no texts in its files. -/
def shape (s : FileStore) : FileStore := s.map fun e => (e.1, e.2.emptied)

theorem entryAt?_shape (s : FileStore) (path : Text) :
    s.shape.entryAt? path = (s.entryAt? path).map FileEntry.emptied := by
  rw [entryAt?, entryAt?, shape, List.find?_map, Option.map_map, Option.map_map]
  rfl

theorem isFile_shape (s : FileStore) (path : Text) : s.shape.isFile path = s.isFile path := by
  rw [isFile, isFile, entryAt?_shape]
  cases s.entryAt? path with
  | none => rfl
  | some e => cases e <;> rfl

theorem isDirectory_shape (s : FileStore) (path : Text) :
    s.shape.isDirectory path = s.isDirectory path := by
  have entry : (s.shape.entryAt? path == some .directory) = (s.entryAt? path == some .directory) := by
    rw [entryAt?_shape]
    cases s.entryAt? path with
    | none => rfl
    | some e => cases e <;> rfl
  rw [isDirectory, isDirectory, entry, shape, List.any_map]
  rfl

theorem step_shape (s : FileStore) (last : Bool) (here : Option (List Text)) (part : Text) :
    s.shape.step last here part = s.step last here part := by
  simp only [step, isDirectory_shape, isFile_shape]

theorem walk_shape (s : FileStore) (here : Option (List Text)) (parts : List Text) :
    s.shape.walk here parts = s.walk here parts := by
  induction parts generalizing here with
  | nil => rfl
  | cons part rest ih => simp only [walk, step_shape, ih]

theorem locate_shape (s : FileStore) (path : Text) : s.shape.locate path = s.locate path := by
  simp only [locate, entryAt?_shape, Option.isSome_map, walk_shape]

/-- Whether a path leads to a text, and why not, is seen from the shape. -/
theorem read_shape (s : FileStore) (path : Text) :
    s.shape.read path = (s.read path).map fun _ => [] := by
  rw [read, read, locate_shape]
  cases s.locate path with
  | error fault => rfl
  | ok place =>
      simp only [bind, Except.bind, entryAt?_shape, isDirectory_shape]
      cases s.entryAt? place with
      | none => rfl
      | some e => cases e <;> rfl

theorem read_eq_error_congr {s s' : FileStore} (h : s'.shape = s.shape) {path : Text}
    {fault : ReadFault} : s'.read path = .error fault ↔ s.read path = .error fault := by
  have same := read_shape s' path
  rw [h, read_shape] at same
  cases given : s.read path <;> cases given' : s'.read path <;> simp_all [Except.map]

/-- Where a path leads is seen from the shape. -/
theorem locate_congr {s s' : FileStore} (h : s'.shape = s.shape) (path : Text) :
    s'.locate path = s.locate path := by
  rw [← locate_shape, h, locate_shape]

theorem locate_eq_locate_congr {s s' : FileStore} (h : s'.shape = s.shape) {path other : Text} :
    s'.locate path = s'.locate other ↔ s.locate path = s.locate other := by
  rw [locate_congr h, locate_congr h]

theorem shape_write {s : FileStore} {place old : Text} (h : s.entryAt? place = some (.file old))
    (new : Text) : (s.write place new).shape = s.shape := by
  induction s with
  | nil => cases h
  | cons e es ih =>
      rw [write]
      rw [entryAt?, List.find?_cons] at h
      split
      · next here =>
          rw [here] at h
          have file : e.2 = .file old := Option.some_inj.mp h
          rw [shape, shape, List.map_cons, List.map_cons, file, eq_of_beq here]
          rfl
      · next elsewhere =>
          rw [Bool.not_eq_true] at elsewhere
          rw [elsewhere] at h
          rw [shape, shape, List.map_cons, List.map_cons]
          exact congrArg _ (ih h)

/-- Saving over a file leads no path elsewhere. -/
theorem locate_write {s : FileStore} {place old : Text} (h : s.entryAt? place = some (.file old))
    (new path : Text) : (s.write place new).locate path = s.locate path :=
  locate_congr (shape_write h new) path

theorem read_eq_ok_iff {s : FileStore} {path content : Text} :
    s.read path = .ok content ↔
      ∃ place, s.locate path = .ok place ∧ s.entryAt? place = some (.file content) := by
  rw [read, bind_eq_ok_iff]
  refine exists_congr fun place => and_congr_right fun _ => ?_
  cases s.entryAt? place with
  | none => exact iff_of_false (fun h => by cases h) fun h => by cases h
  | some e =>
      cases e with
      | file content => simp [pure, Except.pure]
      | undecodable | directory => exact iff_of_false (fun h => by cases h) fun h => by cases h

theorem read_congr {s : FileStore} {path other : Text} (h : s.locate path = s.locate other) :
    s.read path = s.read other := by
  rw [read, read, h]

section Save

variable {s : FileStore} {path other old : Text} (hpath : s.read path = .ok old) (new : Text)

include hpath

theorem shape_save : (s.save path new).shape = s.shape := by
  obtain ⟨place, hplace, hold⟩ := read_eq_ok_iff.mp hpath
  rw [save, hplace]
  exact shape_write hold new

/-- Saving where a file was read leaves what other paths lead to as it is. -/
theorem read_save (apart : s.locate other ≠ s.locate path) :
    (s.save path new).read other = s.read other := by
  obtain ⟨place, hplace, hold⟩ := read_eq_ok_iff.mp hpath
  rw [save, hplace]
  dsimp only
  rw [read, read, locate_write hold]
  cases hother : s.locate other with
  | error fault => rfl
  | ok place' =>
      have different : place' ≠ place := fun same => apart (by rw [hplace, hother, same])
      have directory : (s.write place new).isDirectory place' = s.isDirectory place' := by
        rw [← isDirectory_shape, shape_write hold, isDirectory_shape]
      simp only [bind, Except.bind, entryAt?_write_of_ne s new different, directory]

/-- What is saved is read again, whichever path leads there. -/
theorem read_save_self (same : s.locate other = s.locate path) :
    (s.save path new).read other = .ok new := by
  obtain ⟨place, hplace, hold⟩ := read_eq_ok_iff.mp hpath
  rw [save, hplace]
  exact read_eq_ok_iff.mpr
    ⟨place, by rw [locate_write hold, same, hplace], entryAt?_write s place new⟩

end Save

end FileStore
end MotionExpr
