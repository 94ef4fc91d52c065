import MotionExpr.Lint.Engine

/-!
A linter that is used over and over: each request is answered, and only updates
and kept rule switches change it. A request that fails changes nothing. Rules
that were given and are no table do no harm until one is looked up in them.
-/

namespace MotionExpr

inductive LintRequest where
  | lint (source : Text) (options : Option LintOptions)
  | rules (options : Option LintOptions)
  | update (changes : Value.Fields)
  | withRule (id : String) (enabled : Value) (keep : Bool)
  | isEnabled (id : String)
  | options

inductive LintAnswer where
  | findings (found : List Diagnostic)
  | rules (entries : List RuleInfo)
  | options (options : LintOptions)
  | flag (on : Bool)

namespace Linter

def update (l : Linter) (changes : Value.Fields) : Except OptionFault Linter :=
  (l.options.withChanges changes).map fun o => { l with options := o }

def answer (l : Linter) : LintRequest → Except OptionFault (LintAnswer × Linter)
  | .lint source o => .ok (.findings (l.lintWith (o.getD l.options) source), l)
  | .rules o => .ok (.rules (catalogue (o.getD l.options)), l)
  | .update changes => do
      let l' ← l.update changes
      return (.options l'.options, l')
  | .withRule id enabled keep => do
      let o ← l.options.withRule id enabled
      return (.options o, if keep then { l with options := o } else l)
  | .isEnabled id => .ok (.flag (l.options.isEnabled id), l)
  | .options => .ok (.options l.options, l)

/-- The linter after a request. -/
def after (l : Linter) (r : LintRequest) : Linter :=
  match l.answer r with
  | .ok (_, l') => l'
  | .error _ => l

end Linter

/-- A linter, and the rules given to it if they are no table. -/
structure LintSession where
  linter : Linter := {}
  oddRules : Option Value := none

namespace LintSession

def ofFields (fields : Value.Fields) (p : Profile) : Except OptionFault LintSession :=
  let odd := match Value.field? fields "rules" with
    | none | some (.table _) => none
    | some v => some v
  let regular := if odd.isSome then fields.filter fun f => f.1 != "rules" else fields
  (LintOptions.ofFields regular).map fun o => ⟨⟨o, p⟩, odd⟩

/-- What stands in the way of a request. -/
def obstacle? (s : LintSession) (r : LintRequest) : Option OptionFault :=
  match s.oddRules, r with
  | none, _ => none
  | _, .lint _ none | _, .rules none | _, .isEnabled _ => some .noLookup
  | _, .withRule id _ _ =>
      some (if (Rule.ofId? id).isSome then .rulesNotTable else .unknownRule id)
  | _, .update changes =>
      if (Value.field? changes "rules").isSome then some .rulesNotTable else none
  | _, _ => none

def answer (s : LintSession) (r : LintRequest) : Except OptionFault (LintAnswer × LintSession) :=
  match s.obstacle? r with
  | some fault => .error fault
  | none => (s.linter.answer r).map fun (a, l) => (a, { s with linter := l })

/-- The session after a request. -/
def after (s : LintSession) (r : LintRequest) : LintSession :=
  if (s.obstacle? r).isSome then s else { s with linter := s.linter.after r }

def afterAll (s : LintSession) (rs : List LintRequest) : LintSession := rs.foldl after s

/-- Options of the session as they are shown. -/
def shown (s : LintSession) (o : LintOptions) : Value.Fields :=
  match s.oddRules with
  | none => o.toFields
  | some v => Value.setField o.toFields "rules" v

end LintSession
end MotionExpr
