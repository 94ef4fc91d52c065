import MotionExpr.Format.Edit
import MotionExpr.Format.Plan

/-!
A formatter and the text it works on. Edits are applied to the text as soon as
they are made.
-/

namespace MotionExpr

structure FormatSession where
  source : Text
  settings : FormatSettings
  formatter : Formatter

inductive FormatRequest where
  | format (plan : Option Plan)
  | change (changes : Value.Fields)
  | addPass (pass : Pass)
  | append (text : Text)
  | document
  | range (r : TextRange)
  | onType (line : Int) (typed : Text)

/-- What a request did, apart from the text it leaves. -/
inductive FormatAnswer where
  | formatted (result : FormatResult)
  | edits (made : List TextEdit)

namespace FormatSession

def ofSettings (source : Text) (settings : FormatSettings) (passes : List Pass) :
    Except SettingFault FormatSession :=
  settings.plan.map fun plan => ⟨source, settings, ⟨plan, passes⟩⟩

def make (s : FormatSession) (edits : List TextEdit) : FormatAnswer × FormatSession :=
  (.edits edits, { s with source := TextEdit.applyAll s.source edits })

def answer (s : FormatSession) : FormatRequest →
    Except SettingFault (FormatAnswer × FormatSession)
  | .format given =>
      let result := s.formatter.formatWith (given.getD s.formatter.plan) s.source
      .ok (.formatted result, { s with source := result.text })
  | .change changes => do
      let settings ← s.settings.withChanges changes
      let plan ← settings.plan
      return (.edits [], { s with settings, formatter := { s.formatter with plan } })
  | .addPass p =>
      .ok (.edits [], { s with formatter := { s.formatter with passes := s.formatter.passes ++ [p] } })
  | .append t => .ok (.edits [], { s with source := s.source ++ t })
  | .document => .ok (s.make (s.formatter.formatDocument s.source))
  | .range r => .ok (s.make (s.formatter.formatRange s.source r))
  | .onType line typed => .ok (s.make (s.formatter.formatOnType s.source line typed))

end FormatSession
end MotionExpr
