import MotionExpr.Proofs.Format.Lines
import MotionExpr.Proofs.Value.Fields
import MotionExpr.Toml.Document

/-!
The keys of a document. A field is added to a table only where its key is not there yet, and a table on
the way to it is made once. So a document that is read has each key of a table once.
-/

namespace MotionExpr
namespace Toml

open Value

/-! Changes of tables. -/

/-- A change that writes no key twice. -/
def KeepsKeys (change : Fields → Option Fields) : Prop :=
  ∀ fields new, (table fields).EachKeyOnce → change fields = some new → (table new).EachKeyOnce

theorem keepsKeys_addField (name : String) {v : Value} (hv : v.EachKeyOnce) :
    KeepsKeys (addField name v) := by
  intro fields new once h
  rw [addField] at h
  cases there : field? fields name with
  | none =>
      rw [there] at h
      exact Option.some.inj h ▸ once.setField name hv
  | some w =>
      rw [there] at h
      cases h

theorem eachKeyOnce_list (items : List Value) : (list items).EachKeyOnce :=
  eachKeyOnce_of_not_table nofun

theorem keepsKeys_addElement (name : String) : KeepsKeys (addElement name) := by
  intro fields new once h
  rw [addElement] at h
  split at h
  · exact Option.some.inj h ▸ once.setField name (eachKeyOnce_list _)
  · exact Option.some.inj h ▸ once.setField name (eachKeyOnce_list _)
  · cases h

theorem KeepsKeys.within {change : Fields → Option Fields} (keeps : KeepsKeys change)
    (throughArrays : Bool) (path : Path) : KeepsKeys (within throughArrays change path) := by
  induction path with
  | nil => exact keeps
  | cons key path ih =>
      intro fields new once h
      rw [Toml.within] at h
      split at h
      · obtain ⟨sub, hsub, rfl⟩ := Option.map_eq_some_iff.mp h
        exact once.setField key (ih [] sub eachKeyOnce_nil hsub)
      · next old there =>
          obtain ⟨sub, hsub, rfl⟩ := Option.map_eq_some_iff.mp h
          exact once.setField key (ih old sub (once.of_field? there) hsub)
      · split at h
        · obtain ⟨sub, -, rfl⟩ := Option.map_eq_some_iff.mp h
          exact once.setField key (eachKeyOnce_list _)
        · cases h
      · cases h

/-! Values. -/

theorem required_eq_ok_iff {α : Type} {x : Option α} {a : α} : required x = .ok a ↔ x = some a := by
  cases x <;> simp [required]

theorem eachKeyOnce_of_not_nested {v : Value} (h : isNested v = false) : v.EachKeyOnce :=
  eachKeyOnce_of_not_table fun fields same => by
    rw [same] at h
    cases h

section Scalar

variable {t rest : Text} {v : Value}

theorem not_nested_decimal (h : decimal t = .ok (v, rest)) : isNested v = false := by
  obtain ⟨⟨whole, r⟩, -, h⟩ := bind_eq_ok_iff.mp h
  dsimp only at h
  split at h
  · split at h
    · cases h
    · cases h
      rfl
  · cases h
    rfl

theorem not_nested_based {base : Nat} {p : Char → Bool} (h : based base p t = some (v, rest)) :
    isNested v = false := by
  obtain ⟨⟨ds, r⟩, -, h⟩ := Option.map_eq_some_iff.mp h
  cases h
  rfl

theorem not_nested_unsigned (h : unsigned? t = some (v, rest)) : isNested v = false := by
  rw [unsigned?.eq_def] at h
  split at h
  · exact not_nested_based h
  · exact not_nested_based h
  · exact not_nested_based h
  · cases h

theorem not_nested_special (h : special? t = some (v, rest)) : isNested v = false := by
  rw [special?] at h
  dsimp only at h
  split at h
  · cases h
    rfl
  · split at h
    · cases h
      rfl
    · cases h

theorem not_nested_scalar (h : scalar t = .ok (v, rest)) : isNested v = false := by
  rw [scalar] at h
  split at h
  · cases h
    rfl
  · split at h
    · cases h
      rfl
    · split at h
      · split at h
        · cases h
          rfl
        · cases h
      · rw [number] at h
        split at h
        · next found there =>
            cases h
            cases whole : unsigned? t with
            | some found =>
                rw [whole] at there
                cases there
                exact not_nested_unsigned whole
            | none =>
                rw [whole] at there
                exact not_nested_special there
        · exact not_nested_decimal h

end Scalar

/-- Values that are read with so much fuel have each key once. -/
def ReadsValues (fuel : Nat) : Prop :=
  ∀ room t v rest, value fuel room t = .ok (v, rest) → v.EachKeyOnce

/-- Fields that are read behind others with so much fuel have keys of their own. -/
def ReadsFields (fuel : Nat) : Prop :=
  ∀ room fields closed t new rest, (table fields).EachKeyOnce →
    inlineFields fuel room fields closed t = .ok (new, rest) → (table new).EachKeyOnce

theorem ReadsFields.readsValues {fuel : Nat} (ofFields : ReadsFields fuel) : ReadsValues (fuel + 1) := by
  intro room t v rest h
  cases t with
  | nil => cases h
  | cons c r =>
      rw [value] at h
      split at h
      · obtain ⟨⟨s, behind⟩, -, h⟩ := bind_eq_ok_iff.mp h
        cases h
        exact eachKeyOnce_of_not_nested rfl
      · split at h
        · obtain ⟨room, -, h⟩ := bind_eq_ok_iff.mp h
          obtain ⟨inside, -, h⟩ := bind_eq_ok_iff.mp h
          obtain ⟨⟨items, behind⟩, -, h⟩ := bind_eq_ok_iff.mp h
          cases h
          exact eachKeyOnce_list items
        · split at h
          · obtain ⟨room, -, h⟩ := bind_eq_ok_iff.mp h
            obtain ⟨⟨fields, behind⟩, read, h⟩ := bind_eq_ok_iff.mp h
            cases h
            exact ofFields _ _ _ _ _ _ eachKeyOnce_nil read
          · exact eachKeyOnce_of_not_nested (not_nested_scalar h)

theorem ReadsFields.succ {fuel : Nat} (ofFields : ReadsFields fuel) (ofValue : ReadsValues fuel) :
    ReadsFields (fuel + 1) := by
  intro room fields closed t new rest once h
  rw [inlineFields.eq_def] at h
  split at h
  · cases h
  · cases h
    exact eachKeyOnce_nil
  · next same _ =>
      cases same
      obtain ⟨⟨path, behind⟩, -, h⟩ := bind_eq_ok_iff.mp h
      split at h
      · obtain ⟨⟨v, behind⟩, read, h⟩ := bind_eq_ok_iff.mp h
        dsimp only at h
        split at h
        · cases h
        · obtain ⟨grown, added, h⟩ := bind_eq_ok_iff.mp h
          have still := (keepsKeys_addField _ (ofValue _ _ _ _ read)).within _ _ _ _ once
            (required_eq_ok_iff.mp added)
          split at h
          · cases h
            exact still
          · split at h
            · cases h
            · exact ofFields _ _ _ _ _ _ still h
          · cases h
      · cases h

theorem reads_of_fuel (fuel : Nat) : ReadsValues fuel ∧ ReadsFields fuel := by
  induction fuel with
  | zero => exact ⟨nofun, nofun⟩
  | succ fuel ih => exact ⟨ih.2.readsValues, ih.2.succ ih.1⟩

/-! Documents. -/

def State.EachKeyOnce (s : State) : Prop := (table s.fields).EachKeyOnce

theorem eachKeyOnce_assign {s s' : State} (once : s.EachKeyOnce) {path : Path} {v : Value}
    (hv : v.EachKeyOnce) (h : assign s path v = some s') : s'.EachKeyOnce := by
  rw [assign] at h
  split at h
  · cases h
  · obtain ⟨fields, added, rfl⟩ := Option.map_eq_some_iff.mp h
    exact (keepsKeys_addField _ hv).within _ _ _ _ once added

theorem eachKeyOnce_openTable {s s' : State} (once : s.EachKeyOnce) {path : Path}
    (h : openTable s path = some s') : s'.EachKeyOnce := by
  rw [openTable] at h
  split at h
  · cases h
  · obtain ⟨fields, added, rfl⟩ := Option.map_eq_some_iff.mp h
    have keeps : KeepsKeys some := fun fields new once same => Option.some.inj same ▸ once
    exact keeps.within _ _ _ _ once added

theorem eachKeyOnce_openElement {s s' : State} (once : s.EachKeyOnce) {path : Path}
    (h : openElement s path = some s') : s'.EachKeyOnce := by
  rw [openElement] at h
  split at h
  · cases h
  · obtain ⟨fields, added, rfl⟩ := Option.map_eq_some_iff.mp h
    exact (keepsKeys_addElement _).within _ _ _ _ once added

theorem eachKeyOnce_statement {s s' : State} (once : s.EachKeyOnce) {t rest : Text}
    (h : statement s t = .ok (s', rest)) : s'.EachKeyOnce := by
  rw [statement.eq_def] at h
  split at h
  · obtain ⟨⟨path, behind⟩, -, h⟩ := bind_eq_ok_iff.mp h
    obtain ⟨opened, hopened, h⟩ := bind_eq_ok_iff.mp h
    have still := eachKeyOnce_openElement (s := endSection s) once (required_eq_ok_iff.mp hopened)
    split at h <;> cases h
    exact still
  · obtain ⟨⟨path, behind⟩, -, h⟩ := bind_eq_ok_iff.mp h
    obtain ⟨opened, hopened, h⟩ := bind_eq_ok_iff.mp h
    have still := eachKeyOnce_openTable (s := endSection s) once (required_eq_ok_iff.mp hopened)
    split at h <;> cases h
    exact still
  · obtain ⟨⟨path, behind⟩, -, h⟩ := bind_eq_ok_iff.mp h
    split at h
    · obtain ⟨⟨v, behind⟩, read, h⟩ := bind_eq_ok_iff.mp h
      obtain ⟨assigned, hassigned, h⟩ := bind_eq_ok_iff.mp h
      cases h
      exact eachKeyOnce_assign once ((reads_of_fuel _).1 _ _ _ _ read)
        (required_eq_ok_iff.mp hassigned)
    · cases h

theorem eachKeyOnce_statements (fuel : Nat) {s s' : State} (once : s.EachKeyOnce) {t : Text}
    (h : statements fuel s t = .ok s') : s'.EachKeyOnce := by
  induction fuel generalizing s t with
  | zero => cases h
  | succ fuel ih =>
      rw [statements] at h
      split at h
      · cases h
        exact once
      · exact ih once h
      · dsimp only at h
        split at h
        all_goals obtain ⟨⟨next, behind⟩, hnext, h⟩ := bind_eq_ok_iff.mp h
        -- a comment leaves the state, and a statement keeps its keys apart
        on_goal 1 => cases hnext
        on_goal 2 => replace once := eachKeyOnce_statement once hnext
        all_goals
          obtain ⟨ahead, -, h⟩ := bind_eq_ok_iff.mp h
          split at h
          · cases h
            exact once
          · exact ih once h
          · cases h

/-- A document that is read has each key of a table once. -/
theorem eachKeyOnce_parse {source : Text} {document : Fields} (h : parse source = .ok document) :
    (table document).EachKeyOnce := by
  obtain ⟨s, read, rfl⟩ := map_eq_ok_iff.mp h
  exact eachKeyOnce_statements _ (s := {}) eachKeyOnce_nil read

/-- A document that is read, with what can be seen of it. -/
theorem exists_parse (source : Text) {p : Fields → Bool}
    (h : (parse source).toOption.any p = true) :
    ∃ document, parse source = .ok document ∧ p document = true := by
  cases read : parse source with
  | error fault =>
      rw [read] at h
      cases h
  | ok document =>
      rw [read] at h
      exact ⟨document, rfl, h⟩

end Toml
end MotionExpr
