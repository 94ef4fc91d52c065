import MotionExpr.Lint.Session
import MotionExpr.Proofs.Config.RuleSettings

/-!
Options that are updated over and over. Each request that succeeds writes some options, most of them
none; every other option, and every rule of the map, keeps what it had. So after any number of
requests each is as the last of them wrote it, or else as it was given in the beginning.
-/

namespace MotionExpr

open Value

namespace LintOptions

/-- A field that can be written: a known option, and where it is the rules, a table. -/
def Settable (f : String × Value) : Prop :=
  f.1 ∈ keys ∧ (f.1 = "rules" → ∃ rules, f.2 = .table rules)

/-- Options after fields were written: rules that are written are merged with those that were there,
any other option is replaced. -/
structure Overwritten (merge : Fields → Fields → Fields) (o : LintOptions) (fields : Fields)
    (o' : LintOptions) : Prop where
  rules : o'.rules = match field? fields "rules" with
    | some (.table rules) => merge o.rules rules
    | _ => o.rules
  others : ∀ key, key ≠ "rules" →
    field? o'.toFields key = (field? fields key).or (field? o.toFields key)

/-- A way to write one option, with a way to merge rules. -/
structure Writes (write : LintOptions → String → Value → Except OptionFault LintOptions)
    (merge : Fields → Fields → Fields) : Prop where
  table : ∀ o rules, write o "rules" (.table rules) = .ok { o with rules := merge o.rules rules }
  other : ∀ o key v, (key = "rules" → ∀ rules, v ≠ .table rules) → write o key v = o.set key v

theorem writes_set : Writes set fun _ rules => rules where
  table _ _ := rfl
  other _ _ _ _ := rfl

theorem writes_change : Writes change overlay where
  table _ _ := rfl
  other o key v h := by
    unfold change
    split
    · exact absurd rfl (h rfl _)
    · rfl

theorem field?_rules (o : LintOptions) : field? o.toFields "rules" = some (.table o.rules) := rfl

theorem of_set {o o' : LintOptions} {key : String} {v : Value} (h : o.set key v = .ok o')
    (single : key = "rules" → ∀ rules, v ≠ .table rules) :
    key ≠ "rules" ∧ key ∈ keys ∧ o'.toFields = setField o.toFields key v := by
  unfold set at h
  split at h
  · split at h
    · exact absurd rfl (single rfl _)
    · cases h
  all_goals cases h
  all_goals exact ⟨by decide, by decide, rfl⟩

theorem exists_set {key : String} (known : key ∈ keys) (other : key ≠ "rules") (o : LintOptions)
    (v : Value) : ∃ o', o.set key v = .ok o' := by
  have settable : key ∈ ProjectConfig.lintKeys :=
    List.mem_filter.mpr ⟨known, bne_iff_ne.mpr other⟩
  obtain ⟨o', h, -⟩ := ProjectConfig.takes_lintOptions o key v settable
  exact ⟨o', h⟩

section Writes

variable {write : LintOptions → String → Value → Except OptionFault LintOptions}
  {merge : Fields → Fields → Fields} {o o' : LintOptions}

/-- What one write does. -/
theorem Writes.step (w : Writes write merge) {key : String} {v : Value}
    (h : write o key v = .ok o') : Settable (key, v) ∧ Overwritten merge o [(key, v)] o' := by
  -- a table of rules is merged; whatever else is written goes the way of a single option
  by_cases rules : ∃ rules, key = "rules" ∧ v = .table rules
  · obtain ⟨rules, rfl, rfl⟩ := rules
    rw [w.table] at h
    cases h
    refine ⟨⟨List.mem_cons_self, fun _ => ⟨rules, rfl⟩⟩, ⟨rfl, fun key other => ?_⟩⟩
    rw [field?_cons, if_neg other.symm]
    simp only [toFields, field?_cons, if_neg other.symm]
    rfl
  · have single : key = "rules" → ∀ rules, v ≠ .table rules :=
      fun hkey t hv => rules ⟨t, hkey, hv⟩
    rw [w.other o key v single] at h
    obtain ⟨other, known, fields⟩ := of_set h single
    have kept : o'.rules = o.rules := by
      have same := field?_rules o'
      rw [fields, field?_setField, if_neg other, field?_rules] at same
      exact (Value.table.inj (Option.some.inj same)).symm
    refine ⟨⟨known, fun hkey => absurd hkey other⟩, ⟨?_, fun name _ => ?_⟩⟩
    · rw [kept, field?_cons, if_neg other]
      rfl
    · rw [fields, field?_setField, field?_cons]
      split <;> rfl

theorem Writes.total (w : Writes write merge) {f : String × Value} (h : Settable f)
    (o : LintOptions) : ∃ o', write o f.1 f.2 = .ok o' := by
  obtain ⟨key, v⟩ := f
  by_cases hkey : key = "rules"
  · subst hkey
    obtain ⟨rules, rfl : v = .table rules⟩ := h.2 rfl
    exact ⟨_, w.table o rules⟩
  · rw [w.other o key v fun same => absurd same hkey]
    exact exists_set h.1 hkey o v

theorem Overwritten.cons {f : String × Value} {fields : Fields} {mid : LintOptions}
    (first : Overwritten merge o [f] mid) (rest : Overwritten merge mid fields o')
    (fresh : f.1 ∉ Value.keys fields) : Overwritten merge o (f :: fields) o' where
  rules := by
    rw [rest.rules, field?_cons]
    have here := first.rules
    rw [field?_cons] at here
    by_cases rules : f.1 = "rules"
    · rw [field?_eq_none_iff.mpr (rules ▸ fresh), if_pos rules]
      rwa [if_pos rules] at here
    · rw [if_neg rules]
      rw [if_neg rules] at here
      change mid.rules = o.rules at here
      rw [here]
  others key other := by
    rw [rest.others key other, first.others key other, field?_cons, field?_cons]
    by_cases here : f.1 = key
    · rw [if_pos here, if_pos here, field?_eq_none_iff.mpr (here ▸ fresh), Option.none_or]
    · rw [if_neg here, if_neg here]
      rfl

/-- What several writes do, one after the other. -/
theorem Writes.all (w : Writes write merge) {fields : Fields} (once : (Value.keys fields).Nodup)
    (h : fields.foldlM (fun o f => write o f.1 f.2) o = .ok o') :
    Overwritten merge o fields o' := by
  induction fields generalizing o with
  | nil =>
      cases h
      exact ⟨rfl, fun _ _ => rfl⟩
  | cons f fields ih =>
      obtain ⟨fresh, rest⟩ := List.nodup_cons.mp once
      rw [List.foldlM_cons] at h
      obtain ⟨mid, hmid, hrest⟩ := bind_eq_ok_iff.mp h
      exact (w.step hmid).2.cons (ih rest hrest) fresh

theorem Writes.exists_all_iff (w : Writes write merge) {fields : Fields} :
    (∃ o', fields.foldlM (fun o f => write o f.1 f.2) o = .ok o') ↔
      ∀ f ∈ fields, Settable f := by
  induction fields generalizing o with
  | nil => exact iff_of_true ⟨o, rfl⟩ (List.forall_mem_nil _)
  | cons f fields ih =>
      rw [List.foldlM_cons, List.forall_mem_cons]
      constructor
      · rintro ⟨o', h⟩
        obtain ⟨mid, hmid, hrest⟩ := bind_eq_ok_iff.mp h
        exact ⟨(w.step hmid).1, ih.mp ⟨o', hrest⟩⟩
      · rintro ⟨first, rest⟩
        obtain ⟨mid, hmid⟩ := w.total first o
        obtain ⟨o', ho'⟩ := ih.mpr rest
        exact ⟨o', bind_eq_ok_iff.mpr ⟨mid, hmid, ho'⟩⟩

end Writes

/-- What the catalogue says of a rule is what is done where nothing is said of it. -/
theorem getD_defaults (set : Option Value) (id : String) :
    ((set.or (field? Rule.defaults id)).map Value.isTruthy).getD (fallback id) =
      (set.map Value.isTruthy).getD (fallback id) := by
  cases set with
  | some v => rfl
  | none =>
      rw [Option.none_or, Rule.field?_defaults, fallback]
      cases Rule.ofId? id <;> rfl

/-- A path to an option other than the rules, or to one of the rules. -/
inductive Entry : List String → Prop
  | option {key : String} (other : key ≠ "rules") : Entry [key]
  | rule (id : String) : Entry ["rules", id]

theorem Overwritten.at?_eq {o o' : LintOptions} {fields : Fields}
    (h : Overwritten overlay o fields o') (once : (Value.table fields).EachKeyOnce)
    {path : List String} (entry : Entry path) : (Value.table o'.toFields).at? path =
      ((Value.table fields).at? path).or ((Value.table o.toFields).at? path) := by
  cases entry with
  | option other => rw [at?_singleton, at?_singleton, at?_singleton, h.others _ other]
  | rule id =>
      have rule (o : LintOptions) :
          (Value.table o.toFields).at? ["rules", id] = field? o.rules id := at?_singleton o.rules id
      rw [rule, rule, h.rules, Value.at?_table]
      cases given : field? fields "rules" with
      | none => rfl
      | some v =>
          cases v with
          | table rules =>
              rw [field?_overlay _ (eachKeyOnce_table_iff.mp (once.of_field? given)).1,
                Option.bind_some, at?_singleton]
          | _ => rfl

end LintOptions

/-- What a request writes if it succeeds. A switch that is kept writes its rule. -/
def LintRequest.changes : LintRequest → Fields
  | .update changes => changes
  | .withRule id enabled true => [("rules", .table [(id, enabled)])]
  | _ => []

namespace Linter

open LintOptions

variable {l l' : Linter} {a : LintAnswer}

theorem of_answer {r : LintRequest} (h : l.answer r = .ok (a, l'))
    (once : (Value.keys r.changes).Nodup) : Overwritten overlay l.options r.changes l'.options := by
  cases r with
  | update changes =>
      obtain ⟨next, hnext, hl⟩ := bind_eq_ok_iff.mp h
      obtain ⟨o, ho, rfl⟩ := map_eq_ok_iff.mp hnext
      cases hl
      exact writes_change.all once ho
  | withRule id enabled keep =>
      obtain ⟨o, ho, hl⟩ := bind_eq_ok_iff.mp h
      cases keep with
      | false =>
          cases hl
          exact ⟨rfl, fun _ _ => rfl⟩
      | true =>
          cases hl
          rw [withRule] at ho
          split at ho
          · cases ho
          · cases ho
            exact (writes_change.step rfl).2
  | lint | rules | isEnabled | options =>
      cases h
      exact ⟨rfl, fun _ _ => rfl⟩

end Linter

namespace LintSession

open LintOptions

/-- The options as the session shows them. -/
def current (s : LintSession) : Fields := s.shown s.linter.options

/-- What the requests that succeed write, in their order. -/
def updates (s : LintSession) : List LintRequest → List Fields
  | [] => []
  | r :: rs =>
      match s.answer r with
      | .ok _ => r.changes :: (s.after r).updates rs
      | .error _ => (s.after r).updates rs

section Request

variable {s s' : LintSession} {r : LintRequest}

theorem answer_eq_ok_iff {a : LintAnswer} : s.answer r = .ok (a, s') ↔ s.obstacle? r = none ∧
    s.linter.answer r = .ok (a, s'.linter) ∧ s'.oddRules = s.oddRules := by
  rw [answer]
  cases s.obstacle? r with
  | some fault => simp
  | none =>
      simp only [map_eq_ok_iff, Prod.mk.injEq, true_and]
      constructor
      · rintro ⟨⟨a, l⟩, hl, rfl, rfl⟩
        exact ⟨hl, rfl⟩
      · rintro ⟨hl, odd⟩
        refine ⟨_, hl, rfl, ?_⟩
        rw [← odd]

theorem after_of_ok {a : LintAnswer} (h : s.answer r = .ok (a, s')) : s.after r = s' := by
  obtain ⟨free, hl, odd⟩ := answer_eq_ok_iff.mp h
  rw [after, free, Linter.after, hl]
  cases s'
  cases odd
  rfl

/-- A request that fails changes nothing. -/
theorem after_of_error {fault : OptionFault} (h : s.answer r = .error fault) : s.after r = s := by
  rw [answer] at h
  rw [after]
  cases free : s.obstacle? r with
  | some _ => rfl
  | none =>
      rw [free] at h
      cases hl : s.linter.answer r with
      | ok _ => simp [hl, Except.map] at h
      | error fault =>
          rw [Linter.after, hl]
          rfl

/-- Rules that are no table are not written over. -/
theorem no_rules_of_odd {v : Value} (odd : s.oddRules = some v) (free : s.obstacle? r = none) :
    field? r.changes "rules" = none := by
  unfold obstacle? at free
  rw [odd] at free
  cases r with
  | update changes =>
      dsimp only at free
      split at free
      · cases free
      · next none => exact Option.not_isSome_iff_eq_none.mp none
  | withRule => cases free
  | lint | rules | isEnabled | options => rfl

theorem current_of_ok {a : LintAnswer} (h : s.answer r = .ok (a, s'))
    (once : (Value.table r.changes).EachKeyOnce) {path : List String} (entry : Entry path) :
    (Value.table s'.current).at? path =
      ((Value.table r.changes).at? path).or ((Value.table s.current).at? path) := by
  obtain ⟨free, hl, odd⟩ := answer_eq_ok_iff.mp h
  have laid := Linter.of_answer hl (eachKeyOnce_table_iff.mp once).1
  rw [current, current, shown, shown, odd]
  cases given : s.oddRules with
  | none => exact laid.at?_eq once entry
  | some v =>
      -- the session shows the rules that were given, whatever the linter below holds
      cases entry with
      | option other =>
          simp only [at?_singleton, field?_setField, if_neg other.symm]
          exact laid.others _ other
      | rule id =>
          rw [Value.at?_table, Value.at?_table, Value.at?_table, no_rules_of_odd given free,
            field?_setField, field?_setField]
          rfl

end Request

section Run

variable {s : LintSession} {rs : List LintRequest}

theorem oddRules_after (s : LintSession) (r : LintRequest) : (s.after r).oddRules = s.oddRules := by
  rw [after]
  split <;> rfl

theorem oddRules_afterAll (s : LintSession) (rs : List LintRequest) :
    (s.afterAll rs).oddRules = s.oddRules := by
  induction rs generalizing s with
  | nil => rfl
  | cons r rs ih => exact (ih (s.after r)).trans (oddRules_after s r)

theorem current_afterAll (each : ∀ r ∈ rs, (Value.table r.changes).EachKeyOnce)
    {path : List String} (entry : Entry path) : (Value.table (s.afterAll rs).current).at? path =
      (lastWritten? (s.updates rs) path).or ((Value.table s.current).at? path) := by
  induction rs generalizing s with
  | nil => rfl
  | cons r rs ih =>
      obtain ⟨here, rest⟩ := List.forall_mem_cons.mp each
      have behind := ih (s := s.after r) rest
      rw [updates]
      cases h : s.answer r with
      | error fault =>
          rw [after_of_error h] at behind ⊢
          rw [← behind, afterAll, List.foldl_cons, after_of_error h]
          rfl
      | ok answered =>
          obtain ⟨a, s'⟩ := answered
          rw [after_of_ok h] at behind ⊢
          rw [lastWritten?_cons, Option.or_assoc, ← current_of_ok h here entry, ← behind, afterAll,
            List.foldl_cons, after_of_ok h]
          rfl

end Run

section Start

variable {given : Fields} {p : Profile} {s : LintSession}

/-- The rules, if any are given, are a table. -/
def TableRules (given : Fields) : Prop :=
  ∀ v, field? given "rules" = some v → ∃ rules, v = .table rules

/-- Rules that are no table are set aside, all else is written over the defaults. -/
theorem of_ofFields (once : (Value.keys given).Nodup) (h : ofFields given p = .ok s) :
    (TableRules given ∧ s.oddRules = none ∧
      Overwritten (fun _ rules => rules) {} given s.linter.options) ∨
    ∃ v, field? given "rules" = some v ∧ (∀ rules, v ≠ .table rules) ∧ s.oddRules = some v ∧
      Overwritten (fun _ rules => rules) {} (given.filter fun f => f.1 != "rules")
        s.linter.options := by
  obtain ⟨o, ho, rfl⟩ := map_eq_ok_iff.mp h
  unfold TableRules
  cases rules : field? given "rules" with
  | none =>
      rw [rules] at ho
      exact .inl ⟨nofun, rfl, writes_set.all once ho⟩
  | some v =>
      rw [rules] at ho
      cases v with
      | table t =>
          exact .inl ⟨fun v hv => ⟨t, (Option.some.inj hv).symm⟩, rfl, writes_set.all once ho⟩
      | _ => exact .inr ⟨_, rfl, nofun, rfl, writes_set.all (nodup_filter once _) ho⟩

theorem oddRules_eq_none_iff (once : (Value.keys given).Nodup) (h : ofFields given p = .ok s) :
    s.oddRules = none ↔ TableRules given := by
  rcases of_ofFields once h with ⟨tables, regular, -⟩ | ⟨v, hv, single, odd, -⟩
  · exact iff_of_true regular tables
  · refine iff_of_false (odd ▸ Option.some_ne_none v) fun tables => ?_
    obtain ⟨rules, same⟩ := tables v hv
    exact single rules same

/-- What a session begins with: options as they were given, and the defaults for the others. -/
theorem field?_current_ofFields (once : (Value.keys given).Nodup) (h : ofFields given p = .ok s)
    {key : String} (other : key ≠ "rules") :
    field? s.current key = (field? given key).or (field? (LintOptions.toFields {}) key) := by
  rcases of_ofFields once h with ⟨-, regular, laid⟩ | ⟨v, -, -, odd, laid⟩
  · rw [current, shown, regular]
    exact laid.others key other
  · rw [current, shown, odd]
    dsimp only
    rw [field?_setField, if_neg other.symm, laid.others key other,
      field?_filter _ fun key => key != "rules", if_pos (bne_iff_ne.mpr other)]

theorem rule_current_ofFields (once : (Value.keys given).Nodup) (h : ofFields given p = .ok s)
    (id : String) : (Value.table s.current).at? ["rules", id] =
      ((field? given "rules").getD (.table Rule.defaults)).at? [id] := by
  rcases of_ofFields once h with ⟨tables, regular, laid⟩ | ⟨v, hv, -, odd, -⟩
  · rw [current, shown, regular, Value.at?_table]
    dsimp only
    rw [field?_rules, laid.rules]
    cases rules : field? given "rules" with
    | none => rfl
    | some v =>
        obtain ⟨t, rfl⟩ := tables v rules
        rfl
  · rw [current, shown, odd, Value.at?_table]
    dsimp only
    rw [field?_setField, if_pos rfl, hv]
    rfl

end Start

/-! Answers. -/

section Answers

variable {s : LintSession}

theorem answer_isEnabled (h : s.oddRules = none) (id : String) : s.answer (.isEnabled id) =
    .ok (.flag ((((Value.table s.current).at? ["rules", id]).map Value.isTruthy).getD
      (fallback id)), s) := by
  have rule : (Value.table s.current).at? ["rules", id] = field? s.linter.options.rules id := by
    rw [current, shown, h]
    exact at?_singleton _ id
  rw [rule]
  obtain ⟨l, odd⟩ := s
  cases h
  rfl

theorem answer_isEnabled_odd (h : s.oddRules ≠ none) (id : String) :
    s.answer (.isEnabled id) = .error .noLookup := by
  obtain ⟨v, odd⟩ := Option.ne_none_iff_exists'.mp h
  obtain ⟨l, _⟩ := s
  cases odd
  rfl

/-- An update succeeds just where each of its fields can be written. -/
theorem answer_update_iff {changes : Fields} :
    (∃ a s', s.answer (.update changes) = .ok (a, s')) ↔
      (∀ f ∈ changes, Settable f) ∧ (field? changes "rules" ≠ none → s.oddRules = none) := by
  have updated : (∃ a l', s.linter.answer (.update changes) = .ok (a, l')) ↔
      ∀ f ∈ changes, Settable f := by
    rw [← writes_change.exists_all_iff (o := s.linter.options)]
    constructor
    · rintro ⟨a, l', h⟩
      obtain ⟨next, hnext, -⟩ := bind_eq_ok_iff.mp h
      obtain ⟨o, ho, -⟩ := map_eq_ok_iff.mp hnext
      exact ⟨o, ho⟩
    · rintro ⟨o, ho⟩
      exact ⟨_, _, bind_eq_ok_iff.mpr ⟨_, map_eq_ok_iff.mpr ⟨o, ho, rfl⟩, rfl⟩⟩
  have free : s.obstacle? (.update changes) = none ↔
      (field? changes "rules" ≠ none → s.oddRules = none) := by
    unfold obstacle?
    cases s.oddRules with
    | none => simp
    | some v => cases rules : field? changes "rules" <;> simp [rules]
  rw [← updated, ← free]
  constructor
  · rintro ⟨a, s', h⟩
    obtain ⟨clear, hl, -⟩ := answer_eq_ok_iff.mp h
    exact ⟨⟨a, s'.linter, hl⟩, clear⟩
  · rintro ⟨⟨a, l', hl⟩, clear⟩
    exact ⟨a, { s with linter := l' }, answer_eq_ok_iff.mpr ⟨clear, hl, rfl⟩⟩

end Answers

/-- After any requests each option is as the last request that wrote it left it, or else as it was
given in the beginning, or else the default; so is each rule, of the map as it is shown and where it
is looked up. Only an update that succeeds or a switch that is kept writes anything. An update
succeeds where it has known options only, and rules that are a table if it has any; a request that
fails changes nothing. -/
theorem options_last_written {given : Fields} (once : (Value.table given).EachKeyOnce) {p : Profile}
    {s : LintSession} (start : ofFields given p = .ok s) {rs : List LintRequest}
    (each : ∀ r ∈ rs, (Value.table r.changes).EachKeyOnce) :
    let s' := s.afterAll rs
    let written := s.updates rs
    (∀ key, key ≠ "rules" → field? s'.current key =
      (lastWritten? (given :: written) [key]).or (field? (LintOptions.toFields {}) key)) ∧
    (∀ id, (Value.table s'.current).at? ["rules", id] = (lastWritten? written ["rules", id]).or
      (((field? given "rules").getD (.table Rule.defaults)).at? [id])) ∧
    (TableRules given → ∀ id, s'.answer (.isEnabled id) =
      .ok (.flag (((lastWritten? (given :: written) ["rules", id]).map Value.isTruthy).getD
        (fallback id)), s')) ∧
    (¬TableRules given → ∀ id, s'.answer (.isEnabled id) = .error .noLookup) ∧
    (∀ changes, (∃ a s'', s'.answer (.update changes) = .ok (a, s'')) ↔
      (∀ f ∈ changes, Settable f) ∧ (field? changes "rules" ≠ none → TableRules given)) ∧
    ∀ r fault, s'.answer r = .error fault → s'.after r = s' := by
  intro s' written
  have top := (eachKeyOnce_table_iff.mp once).1
  have odd : s'.oddRules = none ↔ TableRules given := by
    rw [oddRules_afterAll, oddRules_eq_none_iff top start]
  have rule (id : String) : (Value.table s'.current).at? ["rules", id] =
      (lastWritten? written ["rules", id]).or
        (((field? given "rules").getD (.table Rule.defaults)).at? [id]) := by
    rw [current_afterAll each (.rule id), rule_current_ofFields top start]
  refine ⟨fun key other => ?_, rule, fun tables id => ?_, fun single id => ?_, fun changes => ?_,
    fun r fault h => after_of_error h⟩
  · rw [← at?_singleton, current_afterAll each (.option other), at?_singleton,
      field?_current_ofFields top start other, lastWritten?_cons, at?_singleton, Option.or_assoc]
  · rw [answer_isEnabled (odd.mpr tables), rule, lastWritten?_cons, Value.at?_table]
    cases field? given "rules" with
    | none =>
        rw [Option.getD_none, at?_singleton, getD_defaults, Option.bind_none, Option.or_none]
    | some v => rfl
  · exact answer_isEnabled_odd (mt odd.mp single) id
  · rw [answer_update_iff, odd]

/-- Two updates with a failing one, a lint and a switch that is not kept between them. -/
theorem options_last_written_five :
    let given : Fields :=
      [("strict_mode", .bool true), ("rules", .table [("prefer-const", .bool false)])]
    let rs : List LintRequest :=
      [.update [("max_complexity", .int 20), ("rules", .table [("no-magic-numbers", .int 1)])],
        .lint "x".toList (some {}), .withRule "max-complexity" (.bool false) false,
        .update [("rules", .table [("no-magic-numbers", .bool false)]), ("tab_size", .int 4)],
        .update [("rules", .table [("prefer-const", .string "on")])]]
    ∃ s, (Value.table given).EachKeyOnce ∧ ofFields given .standard = .ok s ∧
      (∀ r ∈ rs, (Value.table r.changes).EachKeyOnce) ∧
      let s' := s.afterAll rs
      (field? s'.current "max_complexity" = some (.int 20) ∧
        field? s'.current "strict_mode" = some (.bool true) ∧
        field? s'.current "max_line_length" = some (.int 120)) ∧
      s'.answer (.isEnabled "no-magic-numbers") = .ok (.flag true, s') ∧
      s'.answer (.isEnabled "prefer-const") = .ok (.flag true, s') ∧
      s'.answer (.isEnabled "max-complexity") = .ok (.flag true, s') := by
  intro given rs
  have one (id : String) (v : Value) (h : ∀ sub, v ≠ .table sub) :
      (Value.table [(id, v)]).EachKeyOnce :=
    eachKeyOnce_nil.setField id (eachKeyOnce_of_not_table h)
  have rule (id : String) (v : Value) (h : ∀ sub, v ≠ .table sub) :
      (Value.table [("rules", .table [(id, v)])]).EachKeyOnce :=
    eachKeyOnce_nil.setField "rules" (one id v h)
  have once : (Value.table given).EachKeyOnce :=
    (one "strict_mode" (.bool true) nofun).setField "rules" (one "prefer-const" (.bool false) nofun)
  have each : ∀ r ∈ rs, (Value.table r.changes).EachKeyOnce := by
    simp only [rs, List.forall_mem_cons]
    exact ⟨(one "max_complexity" (.int 20) nofun).setField "rules"
        (one "no-magic-numbers" (.int 1) nofun), eachKeyOnce_nil, eachKeyOnce_nil,
      (rule "no-magic-numbers" (.bool false) nofun).setField "tab_size"
        (eachKeyOnce_of_not_table nofun),
      rule "prefer-const" (.string "on") nofun, List.forall_mem_nil _⟩
  have tables : TableRules given := fun v hv => ⟨_, (Option.some.inj hv).symm⟩
  obtain ⟨fields, -, enabled, -⟩ := options_last_written once (p := .standard) rfl each
  exact ⟨_, once, rfl, each, ⟨fields "max_complexity" (by decide), fields "strict_mode" (by decide),
    fields "max_line_length" (by decide)⟩, enabled tables "no-magic-numbers",
    enabled tables "prefer-const", enabled tables "max-complexity"⟩

end LintSession
end MotionExpr
