import MotionExpr.Command.Run

/-!
Listing the rules with their states.
-/

namespace MotionExpr
namespace Command

def padded (width : Nat) (s : String) : Text :=
  s.toList ++ List.replicate (width - s.length) ' '

def ruleLine (i : RuleInfo) : Text :=
  (if i.enabled then "[on ] " else "[off] ").toList ++ padded 24 i.rule.id ++ ' ' ::
    padded 8 i.rule.severity.label ++ ' ' :: padded 14 i.rule.category.label ++ ' ' ::
    i.rule.description.toList ++ ['\n']

def rules (config : Text) (store : FileStore) : Outcome :=
  let linter := projectLinter store config
  match linter.result with
  | .error b => givenUp b linter.log store
  | .ok l =>
      { exit := 0
        out := (Linter.catalogue l.options).flatMap ruleLine
        log := linter.log
        store }

end Command
end MotionExpr
