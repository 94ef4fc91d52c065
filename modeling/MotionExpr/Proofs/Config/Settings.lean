import MotionExpr.Config.Project
import MotionExpr.Proofs.Format.Lines
import MotionExpr.Proofs.Value.Fields

/-!
The settings that a document makes. A setting stands under its keys in the table of the project; where
something on the way is missing or is no table, it is not set. Loading fails for names that cannot be
written, and for nothing else.
-/

namespace MotionExpr
namespace ProjectConfig

open Value

/-- What a document sets under a path of keys, in the table of the project. -/
def setting? (document : Fields) (path : List String) : Option Value :=
  (Value.table document).at? ("tool" :: "aexpr" :: path)

/-- The list of additional names, where one is set. -/
def customItems (document : Fields) : List Value :=
  match setting? document ["lint", "builtins", "custom"] with
  | some (.list items) => items
  | _ => []

section Table

variable {fields : Fields} (key path : String)

/-- What a table that was looked up leads to. -/
theorem at?_table (next : String) (rest : List String) :
    (Value.table (table fields key path).result).at? (next :: rest) =
      (Value.table fields).at? (key :: next :: rest) := by
  rw [Value.at?_table, Value.at?_table, table]
  cases field? fields key with
  | none => rfl
  | some v => cases v <;> rfl

theorem field?_table (next : String) : field? (table fields key path).result next =
    (Value.table fields).at? [key, next] := by
  rw [← at?_table key path, at?_singleton]

theorem eachKeyOnce_table (once : (Value.table fields).EachKeyOnce) :
    (Value.table (table fields key path).result).EachKeyOnce := by
  rw [table]
  cases there : field? fields key with
  | none => exact eachKeyOnce_nil
  | some v =>
      cases v with
      | table sub => exact once.of_field? there
      | _ => exact eachKeyOnce_nil

end Table

section Known

variable (kind : String) (names : List String) (fields : Fields)

theorem mem_names_of_known : ∀ key ∈ keys (known kind names fields).result, key ∈ names := by
  intro key h
  obtain ⟨f, hf, rfl⟩ := List.mem_map.mp h
  exact List.contains_iff_mem.mp (List.mem_filter.mp hf).2

theorem field?_known (key : String) : field? (known kind names fields).result key =
    if names.contains key then field? fields key else none :=
  field?_filter fields names.contains key

theorem nodup_known (once : (keys fields).Nodup) : (keys (known kind names fields).result).Nodup :=
  nodup_filter once _

end Known

section Loading

variable (document : Fields) (path : String)

/-- The table of the project. -/
def projectTable : Fields := (table (table document "tool" path).result "aexpr" path).result

def lintTable : Fields := (table (projectTable document path) "lint" path).result

/-- The settings that are loaded where all names can be written. -/
def loaded : ProjectConfig where
  lint := (lintTable document path).filter fun f => f.1 != "rules" && f.1 != "builtins"
  format := (table (projectTable document path) "format" path).result
  rules := (table (lintTable document path) "rules" path).result
  builtins := (customItems document).map (·.text)

theorem at?_projectTable (key : String) (rest : List String) :
    (Value.table (projectTable document path)).at? (key :: rest) = setting? document (key :: rest) := by
  rw [projectTable, at?_table, at?_table]
  rfl

theorem at?_lintTable (key : String) (rest : List String) :
    (Value.table (lintTable document path)).at? (key :: rest) =
      setting? document ("lint" :: key :: rest) := by
  rw [lintTable, at?_table, at?_projectTable]

theorem customNames_result : (customNames (table (lintTable document path) "builtins" path).result
    path).result = if (customItems document).all (·.isWritable) then
      .ok ((customItems document).map (·.text)) else .error .unwritableName := by
  have there : field? (table (lintTable document path) "builtins" path).result "custom" =
      setting? document ["lint", "builtins", "custom"] := by
    rw [field?_table, at?_lintTable]
  rw [customNames, there, customItems]
  cases setting? document ["lint", "builtins", "custom"] with
  | none => rfl
  | some v => cases v <;> rfl

/-- Loading fails just where a name cannot be written. -/
theorem ofDocument_result : (ofDocument document path).result =
    if (customItems document).all (·.isWritable) then .ok (loaded document path)
    else .error .unwritableName := by
  have names := customNames_result document path
  rw [ofDocument]
  dsimp only
  rw [← projectTable, ← lintTable]
  cases writable : (customItems document).all (·.isWritable) with
  | true =>
      rw [writable, if_pos rfl] at names
      rw [names]
      rfl
  | false =>
      rw [writable, if_neg Bool.false_ne_true] at names
      rw [names]
      rfl

theorem ofDocument_eq_error_iff {fault : ConfigFault} :
    (ofDocument document path).result = .error fault ↔
      fault = .unwritableName ∧ ∃ v ∈ customItems document, v.isWritable = false := by
  have unwritable : (∃ v ∈ customItems document, v.isWritable = false) ↔
      ¬(customItems document).all (·.isWritable) = true := by simp
  rw [ofDocument_result, unwritable]
  split
  · next all => exact iff_of_false nofun fun h => h.2 all
  · next some => exact ⟨fun h => ⟨(Except.error.inj h).symm, some⟩, fun h => congrArg _ h.1.symm⟩

theorem eq_loaded {c : ProjectConfig} (h : (ofDocument document path).result = .ok c) :
    c = loaded document path := by
  rw [ofDocument_result] at h
  split at h
  · exact (Except.ok.inj h).symm
  · cases h

end Loading

section Loaded

variable {document : Fields} {path : String}

theorem field?_rules (id : String) :
    field? (loaded document path).rules id = setting? document ["lint", "rules", id] := by
  rw [loaded, field?_table, at?_lintTable]

theorem field?_format (key : String) :
    field? (loaded document path).format key = setting? document ["format", key] := by
  rw [loaded, field?_table, at?_projectTable]

theorem field?_lint {key : String} (rules : key ≠ "rules") (builtins : key ≠ "builtins") :
    field? (loaded document path).lint key = setting? document ["lint", key] := by
  have other : (key != "rules" && key != "builtins") = true := by simp [rules, builtins]
  rw [loaded, field?_filter _ fun key => key != "rules" && key != "builtins", if_pos other, lintTable,
    field?_table, at?_projectTable]

variable (once : (Value.table document).EachKeyOnce)

include once

theorem eachKeyOnce_projectTable : (Value.table (projectTable document path)).EachKeyOnce :=
  eachKeyOnce_table "aexpr" path (eachKeyOnce_table "tool" path once)

theorem eachKeyOnce_lintTable : (Value.table (lintTable document path)).EachKeyOnce :=
  eachKeyOnce_table "lint" path (eachKeyOnce_projectTable once)

theorem nodup_rules : (keys (loaded document path).rules).Nodup :=
  (eachKeyOnce_table_iff.mp (eachKeyOnce_table "rules" path (eachKeyOnce_lintTable once))).1

theorem nodup_format : (keys (loaded document path).format).Nodup :=
  (eachKeyOnce_table_iff.mp (eachKeyOnce_table "format" path (eachKeyOnce_projectTable once))).1

theorem nodup_lint : (keys (loaded document path).lint).Nodup :=
  nodup_filter (eachKeyOnce_table_iff.mp (eachKeyOnce_lintTable once)).1 _

end Loaded

end ProjectConfig
end MotionExpr
