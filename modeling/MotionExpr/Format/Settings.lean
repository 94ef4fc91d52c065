import MotionExpr.Format.Fault
import MotionExpr.Format.Options
import MotionExpr.Value.Basic

/-!
Formatting settings as they were given, and the conditions under which they are
accepted. The styles are checked before the sizes, and an indent size below zero
settles the matter before the tab size is looked at. What is accepted need not
be of use to every pass: a size may have a fraction or be too large.
-/

namespace MotionExpr

inductive SettingFault where
  | unknownSetting (key : String)
  | indentStyle (given : Text)
  | quoteStyle (given : Text)
  | unwritableStyle
  | sizes
  | notNumber (key : String)
  deriving DecidableEq, Repr

namespace SettingFault

def message : SettingFault → String
  | unknownSetting key => "Unknown setting '" ++ key ++ "'"
  | indentStyle given =>
      "indent_style must be one of ('spaces', 'tabs'), got " ++ String.ofList given
  | quoteStyle given =>
      "quote_style must be one of ('single', 'double'), got " ++ String.ofList given
  | unwritableStyle => Text.unwritableNumber
  | sizes => "indent_size must be >= 0 and tab_size >= 1"
  | notNumber key => key ++ " must be a whole number"

/-- A value that is of the right type but not allowed, as against a setting that
cannot be used at all. -/
def isBadValue : SettingFault → Bool
  | indentStyle _ | quoteStyle _ | unwritableStyle | sizes => true
  | unknownSetting _ | notNumber _ => false

end SettingFault

structure FormatSettings where
  tabSize : Value := .int 2
  insertSpaces : Value := .bool true
  indentSize : Value := .int 2
  maxLineLength : Value := .int 80
  insertFinalNewline : Value := .bool true
  trimTrailingWhitespace : Value := .bool true
  indentStyle : Value := .string "spaces"
  bracketSpacing : Value := .bool true
  semicolons : Value := .bool true
  quoteStyle : Value := .string "double"

namespace FormatSettings

def keys : List String :=
  ["tab_size", "insert_spaces", "indent_size", "max_line_length", "insert_final_newline",
    "trim_trailing_whitespace", "indent_style", "bracket_spacing", "semicolons", "quote_style"]

def set (s : FormatSettings) (key : String) (v : Value) : Except SettingFault FormatSettings :=
  match key with
  | "tab_size" => .ok { s with tabSize := v }
  | "insert_spaces" => .ok { s with insertSpaces := v }
  | "indent_size" => .ok { s with indentSize := v }
  | "max_line_length" => .ok { s with maxLineLength := v }
  | "insert_final_newline" => .ok { s with insertFinalNewline := v }
  | "trim_trailing_whitespace" => .ok { s with trimTrailingWhitespace := v }
  | "indent_style" => .ok { s with indentStyle := v }
  | "bracket_spacing" => .ok { s with bracketSpacing := v }
  | "semicolons" => .ok { s with semicolons := v }
  | "quote_style" => .ok { s with quoteStyle := v }
  | _ => .error (.unknownSetting key)

def withChanges (s : FormatSettings) (changes : Value.Fields) :
    Except SettingFault FormatSettings :=
  changes.foldlM (fun s f => s.set f.1 f.2) s

def toFields (s : FormatSettings) : Value.Fields :=
  [("tab_size", s.tabSize), ("insert_spaces", s.insertSpaces), ("indent_size", s.indentSize),
    ("max_line_length", s.maxLineLength), ("insert_final_newline", s.insertFinalNewline),
    ("trim_trailing_whitespace", s.trimTrailingWhitespace), ("indent_style", s.indentStyle),
    ("bracket_spacing", s.bracketSpacing), ("semicolons", s.semicolons),
    ("quote_style", s.quoteStyle)]

/-- The fault of a style that is none, which shows the style. -/
def styleFault (fault : Text → SettingFault) (v : Value) : SettingFault :=
  if v.isWritable then fault v.quotedText else .unwritableStyle

def readIndentStyle : Value → Except SettingFault IndentStyle
  | .string "spaces" => .ok .spaces
  | .string "tabs" => .ok .tabs
  | v => .error (styleFault .indentStyle v)

def readQuoteStyle : Value → Except SettingFault QuoteStyle
  | .string "single" => .ok .single
  | .string "double" => .ok .double
  | v => .error (styleFault .quoteStyle v)

def below (key : String) (v : Value) (bound : Int) : Except SettingFault Bool :=
  match v.lessThan? bound with
  | some b => .ok b
  | none => .error (.notNumber key)

/-- What has to hold before the settings are accepted. -/
def validate (s : FormatSettings) : Except SettingFault Unit := do
  let _ ← readIndentStyle s.indentStyle
  let _ ← readQuoteStyle s.quoteStyle
  if ← below "indent_size" s.indentSize 0 then throw .sizes
  if ← below "tab_size" s.tabSize 1 then throw .sizes

/-- A setting of the line length: columns at which a line can be cut, a number
with which lines can only be compared, or anything else. -/
inductive LineLimit where
  | columns (n : Int)
  | measure (x : Float)
  | notNumber (typeName : String)

def lineLimit (s : FormatSettings) : LineLimit :=
  match s.maxLineLength with
  | .float x => .measure x
  | v => match v.toInt? with
    | some n => .columns n
    | none => .notNumber v.qualifiedTypeName

/-- Counts up to this one can be asked for, whether or not there is memory for
them. -/
def maxCount : Int := 9223372036854775807

def indentCount (s : FormatSettings) : Except PassFault { n : Nat // n ≤ maxIndentSize } :=
  match s.indentSize.toInt? with
  | none => .error (.indentNotWhole s.indentSize.qualifiedTypeName)
  | some i =>
      if h : i.toNat ≤ maxIndentSize then .ok ⟨i.toNat, h⟩
      else .error (if i ≤ maxCount then .indentTooWide else .indentTooLarge)

def tabCount (s : FormatSettings) : Except PassFault { n : Nat // 0 < n ∧ n ≤ maxTabSize } :=
  match s.tabSize.toInt? with
  | none => .error (.tabNotWhole s.tabSize.qualifiedTypeName)
  | some i =>
      if h : 0 < i.toNat ∧ i.toNat ≤ maxTabSize then .ok ⟨i.toNat, h⟩ else .error .tabTooWide

/-- Tabs need no indent size. -/
def indentsByTab (s : FormatSettings) : Bool :=
  (match s.indentStyle with
    | .string style => style == "tabs"
    | _ => false) || !s.insertSpaces.isTruthy

def indentUnit (s : FormatSettings) : Except PassFault IndentUnit :=
  if s.indentsByTab then .ok .tab else s.indentCount.map fun n => .spaces n.1

/-- The settings as options, where a pass has no use for a setting with the
standard one in its place. -/
def regular (s : FormatSettings) : FormatOptions :=
  let tab := s.tabCount.toOption.getD ⟨2, by decide⟩
  let indent := s.indentCount.toOption.getD ⟨2, by decide⟩
  { tabSize := tab.1
    insertSpaces := s.insertSpaces.isTruthy
    indentSize := indent.1
    maxLineLength := match s.lineLimit with
      | .columns n => n
      | _ => 80
    insertFinalNewline := s.insertFinalNewline.isTruthy
    trimTrailingBlanks := s.trimTrailingWhitespace.isTruthy
    indentStyle := (readIndentStyle s.indentStyle).toOption.getD .spaces
    bracketSpacing := s.bracketSpacing.isTruthy
    semicolons := s.semicolons.isTruthy
    quoteStyle := (readQuoteStyle s.quoteStyle).toOption.getD .double
    tabSize_pos := tab.2.1
    tabSize_le := tab.2.2
    indentSize_le := indent.2 }

/-- Options written as settings. -/
def ofOptions (o : FormatOptions) : FormatSettings where
  tabSize := .int o.tabSize
  insertSpaces := .bool o.insertSpaces
  indentSize := .int o.indentSize
  maxLineLength := .int o.maxLineLength
  insertFinalNewline := .bool o.insertFinalNewline
  trimTrailingWhitespace := .bool o.trimTrailingBlanks
  indentStyle := .string o.indentStyle.label
  bracketSpacing := .bool o.bracketSpacing
  semicolons := .bool o.semicolons
  quoteStyle := .string o.quoteStyle.label

theorem tabCount_ofOptions (o : FormatOptions) :
    (ofOptions o).tabCount = .ok ⟨o.tabSize, o.tabSize_pos, o.tabSize_le⟩ := by
  have h : 0 < o.tabSize ∧ o.tabSize ≤ maxTabSize := ⟨o.tabSize_pos, o.tabSize_le⟩
  simp [tabCount, ofOptions, Value.toInt?, h]

theorem indentCount_ofOptions (o : FormatOptions) :
    (ofOptions o).indentCount = .ok ⟨o.indentSize, o.indentSize_le⟩ := by
  simp [indentCount, ofOptions, Value.toInt?, o.indentSize_le]

theorem readIndentStyle_label (s : IndentStyle) : readIndentStyle (.string s.label) = .ok s := by
  cases s <;> rfl

theorem readQuoteStyle_label (s : QuoteStyle) : readQuoteStyle (.string s.label) = .ok s := by
  cases s <;> rfl

theorem lineLimit_ofOptions (o : FormatOptions) :
    (ofOptions o).lineLimit = .columns o.maxLineLength := rfl

theorem regular_ofOptions (o : FormatOptions) : (ofOptions o).regular = o := by
  simp only [regular, tabCount_ofOptions, indentCount_ofOptions, lineLimit_ofOptions]
  simp [ofOptions, readIndentStyle_label, readQuoteStyle_label, Except.toOption, Value.isTruthy]

theorem validate_ofOptions (o : FormatOptions) : (ofOptions o).validate = .ok () := by
  have tab : ¬(o.tabSize : Int) < 1 := by
    have := o.tabSize_pos
    omega
  have indent : ¬(o.indentSize : Int) < 0 := by omega
  simp [validate, ofOptions, readIndentStyle_label, readQuoteStyle_label, below, Value.lessThan?,
    Value.toInt?, tab, indent, bind, Except.bind, pure, Except.pure]

theorem indentUnit_ofOptions (o : FormatOptions) : (ofOptions o).indentUnit = .ok o.indentUnit := by
  simp only [indentUnit, indentCount_ofOptions, FormatOptions.indentUnit]
  cases hs : o.indentStyle <;> cases hi : o.insertSpaces <;>
    simp [indentsByTab, ofOptions, hs, hi, IndentStyle.label, Value.isTruthy, Except.map]

end FormatSettings
end MotionExpr
