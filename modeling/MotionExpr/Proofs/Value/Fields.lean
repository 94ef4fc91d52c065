import Mathlib.Data.List.Nodup
import MotionExpr.Value.Basic

/-!
Looking fields up. A field that is set is found under its key and under no other; what is laid over
other fields is found first. A value can be looked up along a path of keys, in one table or in the last
of several that has it, and a document has each key of a table once, wherever such a path leads.
-/

namespace MotionExpr
namespace Value

theorem field?_cons (f : String × Value) (fields : Fields) (key : String) :
    field? (f :: fields) key = if f.1 = key then some f.2 else field? fields key := by
  rw [field?, List.find?_cons]
  by_cases h : f.1 = key
  · rw [if_pos h, beq_iff_eq.mpr h]
    rfl
  · rw [if_neg h, beq_eq_false_iff_ne.mpr h]
    rfl

theorem field?_setField (fields : Fields) (key : String) (v : Value) (other : String) :
    field? (setField fields key v) other = if key = other then some v else field? fields other := by
  induction fields with
  | nil => rw [setField, field?_cons]
  | cons f fields ih =>
      rw [setField]
      split
      · next hf =>
          rw [field?_cons, field?_cons, beq_iff_eq.mp hf]
          split <;> rfl
      · next hf =>
          rw [field?_cons, field?_cons, ih]
          by_cases h : key = other
          · rw [if_pos h, if_pos h, if_neg fun hfirst => hf (beq_iff_eq.mpr (hfirst.trans h.symm))]
          · rw [if_neg h, if_neg h]

/-! Keys. -/

def keys (fields : Fields) : List String := fields.map Prod.fst

theorem field?_eq_none_iff {fields : Fields} {key : String} :
    field? fields key = none ↔ key ∉ keys fields := by
  induction fields with
  | nil => simp [field?, keys]
  | cons f fields ih =>
      rw [field?_cons, keys, List.map_cons, List.mem_cons, ← keys, not_or, ← ih]
      by_cases here : f.1 = key
      · simp [here]
      · simp [here, Ne.symm here]

theorem keys_setField (fields : Fields) (key : String) (v : Value) :
    keys (setField fields key v) = if key ∈ keys fields then keys fields else keys fields ++ [key] := by
  induction fields with
  | nil => rfl
  | cons f fields ih =>
      by_cases here : f.1 = key
      · simp [setField, keys, here]
      · have tail : keys (setField (f :: fields) key v) = f.1 :: keys (setField fields key v) := by
          simp [setField, keys, here]
        have there : key ∈ keys (f :: fields) ↔ key ∈ keys fields := by
          simp [keys, Ne.symm here]
        rw [tail, ih, if_congr there rfl rfl]
        split <;> rfl

theorem nodup_setField {fields : Fields} (once : (keys fields).Nodup) (key : String) (v : Value) :
    (keys (setField fields key v)).Nodup := by
  rw [keys_setField]
  split
  · exact once
  · next fresh =>
      rw [← List.concat_eq_append]
      exact once.concat fresh

theorem field?_filter (fields : Fields) (p : String → Bool) (key : String) :
    field? (fields.filter fun f => p f.1) key = if p key then field? fields key else none := by
  induction fields with
  | nil => simp [field?]
  | cons f fields ih =>
      by_cases here : f.1 = key
      · cases hp : p key <;> simp [field?_cons, here, hp, ih]
      · cases hf : p f.1 <;> simp [field?_cons, here, hf, ih]

theorem nodup_filter {fields : Fields} (once : (keys fields).Nodup) (p : String × Value → Bool) :
    (keys (fields.filter p)).Nodup :=
  (List.filter_sublist.map Prod.fst).nodup once

/-- Fields with the same keys in the same order are told by looking them up. -/
theorem eq_of_field? {a b : Fields} (order : keys a = keys b) (once : (keys a).Nodup)
    (same : ∀ key, field? a key = field? b key) : a = b := by
  induction a generalizing b with
  | nil => exact (List.map_eq_nil_iff.mp order.symm).symm
  | cons f a ih =>
      cases b with
      | nil => cases order
      | cons g b =>
          have head : f.1 = g.1 := (List.cons.inj order).1
          have tail : keys a = keys b := (List.cons.inj order).2
          obtain ⟨fresh, rest⟩ := List.nodup_cons.mp once
          have first : f.2 = g.2 := by
            have here := same f.1
            rw [field?_cons, field?_cons, if_pos rfl, if_pos head.symm] at here
            exact Option.some.inj here
          have behind : ∀ key, field? a key = field? b key := by
            intro key
            by_cases here : f.1 = key
            · rw [← here, field?_eq_none_iff.mpr fresh, field?_eq_none_iff.mpr (tail ▸ fresh)]
            · have there := same key
              rwa [field?_cons, field?_cons, if_neg here, if_neg (head ▸ here)] at there
          rw [Prod.ext head first, ih tail rest behind]

/-! Fields laid over others. -/

theorem overlay_cons (base : Fields) (f : String × Value) (changes : Fields) :
    overlay base (f :: changes) = overlay (setField base f.1 f.2) changes := rfl

theorem field?_overlay (base : Fields) {changes : Fields} (once : (keys changes).Nodup)
    (key : String) :
    field? (overlay base changes) key = (field? changes key).or (field? base key) := by
  induction changes generalizing base with
  | nil => rfl
  | cons f changes ih =>
      obtain ⟨fresh, rest⟩ := List.nodup_cons.mp once
      rw [overlay_cons, ih (setField base f.1 f.2) rest, field?_setField, field?_cons]
      split
      · next here => rw [← here, field?_eq_none_iff.mpr fresh, Option.none_or, Option.some_or]
      · rfl

theorem keys_overlay {base changes : Fields} (known : ∀ key ∈ keys changes, key ∈ keys base) :
    keys (overlay base changes) = keys base := by
  induction changes generalizing base with
  | nil => rfl
  | cons f changes ih =>
      obtain ⟨first, rest⟩ := List.forall_mem_cons.mp known
      have same : keys (setField base f.1 f.2) = keys base := by rw [keys_setField, if_pos first]
      rw [overlay_cons, ih (same ▸ rest), same]

/-- A record that is changed field by field, seen as the list of its fields. The record takes the
fields with certain names, and each in the place where it was. -/
def Takes {σ ε : Type} (set : σ → String → Value → Except ε σ) (view : σ → Fields)
    (names : List String) : Prop :=
  ∀ s key v, key ∈ names → ∃ s', set s key v = .ok s' ∧ view s' = setField (view s) key v

section Takes

variable {σ ε : Type} {set : σ → String → Value → Except ε σ} {view : σ → Fields}
  {names : List String}

/-- Fields that are taken one after the other are laid over those that were there. -/
theorem Takes.all (takes : Takes set view names) {fields : Fields}
    (known : ∀ key ∈ keys fields, key ∈ names) (s : σ) :
    ∃ s', fields.foldlM (fun s f => set s f.1 f.2) s = .ok s' ∧ view s' = overlay (view s) fields := by
  induction fields generalizing s with
  | nil => exact ⟨s, rfl, rfl⟩
  | cons f fields ih =>
      obtain ⟨first, rest⟩ := List.forall_mem_cons.mp known
      obtain ⟨next, hnext, here⟩ := takes s f.1 f.2 first
      obtain ⟨last, hlast, behind⟩ := ih rest next
      refine ⟨last, ?_, by rw [overlay_cons, behind, here]⟩
      rw [List.foldlM_cons, hnext]
      exact hlast

/-- Where each field is taken, none is passed over. -/
theorem foldl_getD_of_foldlM {fields : Fields} {s s' : σ}
    (h : fields.foldlM (fun s f => set s f.1 f.2) s = .ok s') :
    fields.foldl (fun s f => (set s f.1 f.2).toOption.getD s) s = s' := by
  induction fields generalizing s with
  | nil => exact Except.ok.inj h
  | cons f fields ih =>
      rw [List.foldlM_cons] at h
      cases hnext : set s f.1 f.2 with
      | error fault =>
          rw [hnext] at h
          cases h
      | ok next =>
          rw [hnext] at h
          rw [List.foldl_cons, hnext]
          exact ih h

end Takes

/-! Paths of keys. -/

/-- What a path of keys leads to. -/
def at? : Value → List String → Option Value
  | v, [] => some v
  | .table fields, key :: path => (field? fields key).bind fun v => v.at? path
  | _, _ :: _ => none

/-- Each key of a table stands there once, in every table that a path of keys leads to. -/
def EachKeyOnce (v : Value) : Prop :=
  ∀ path fields, v.at? path = some (.table fields) → (keys fields).Nodup

theorem at?_table (fields : Fields) (key : String) (path : List String) :
    (table fields).at? (key :: path) = (field? fields key).bind fun v => v.at? path := rfl

theorem at?_singleton (fields : Fields) (key : String) :
    (table fields).at? [key] = field? fields key := by
  rw [at?_table]
  cases field? fields key <;> rfl

/-- What stands at a path of keys in the last of several tables where something does. -/
def lastWritten? (written : List Fields) (path : List String) : Option Value :=
  (written.filterMap fun fields => (table fields).at? path).getLast?

theorem lastWritten?_cons (fields : Fields) (written : List Fields) (path : List String) :
    lastWritten? (fields :: written) path =
      (lastWritten? written path).or ((table fields).at? path) := by
  rw [lastWritten?, List.filterMap_cons]
  cases (table fields).at? path with
  | none => exact (Option.or_none).symm
  | some v =>
      rw [List.getLast?_cons, ← lastWritten?]
      cases lastWritten? written path <;> rfl

theorem EachKeyOnce.of_field? {fields : Fields} (once : (table fields).EachKeyOnce) {key : String}
    {v : Value} (h : field? fields key = some v) : v.EachKeyOnce := fun path sub hsub =>
  once (key :: path) sub (by rw [at?_table, h]; exact hsub)

theorem eachKeyOnce_table_iff {fields : Fields} : (table fields).EachKeyOnce ↔
    (keys fields).Nodup ∧ ∀ key v, field? fields key = some v → v.EachKeyOnce := by
  refine ⟨fun once => ⟨once [] fields rfl, fun key v h => once.of_field? h⟩, fun h path sub hsub => ?_⟩
  cases path with
  | nil =>
      cases hsub
      exact h.1
  | cons key path =>
      obtain ⟨v, hv, hsub⟩ := Option.bind_eq_some_iff.mp (at?_table fields key path ▸ hsub)
      exact h.2 key v hv path sub hsub

theorem eachKeyOnce_nil : (table []).EachKeyOnce :=
  eachKeyOnce_table_iff.mpr ⟨List.nodup_nil, nofun⟩

/-- A value that is no table has no keys. -/
theorem eachKeyOnce_of_not_table {v : Value} (h : ∀ fields, v ≠ table fields) : v.EachKeyOnce := by
  intro path fields there
  cases path with
  | nil => exact absurd (Option.some.inj there) (h fields)
  | cons key path =>
      cases v with
      | table sub => exact absurd rfl (h sub)
      | _ => cases there

theorem EachKeyOnce.setField {fields : Fields} (once : (table fields).EachKeyOnce) (key : String)
    {v : Value} (hv : v.EachKeyOnce) : (table (setField fields key v)).EachKeyOnce := by
  obtain ⟨first, inside⟩ := eachKeyOnce_table_iff.mp once
  refine eachKeyOnce_table_iff.mpr ⟨nodup_setField first key v, fun other w hw => ?_⟩
  rw [field?_setField] at hw
  split at hw
  · exact Option.some.inj hw ▸ hv
  · exact inside other w hw

end Value
end MotionExpr
