import MotionExpr.Text.Basic

/-!
The names of the expression language. A profile holds the names that the
scanner and the checks know, so that another host version is another value.
-/

namespace MotionExpr

structure Deprecation where
  replacement : Text
  reason : String

structure Profile where
  keywords : List Text
  globalFunctions : List Text
  layerProperties : List Text
  builtins : List Text
  deprecated : List (Text × Deprecation)
  expensive : List Text
  allowedNumbers : List Text

namespace Language

def names (ws : List String) : List Text := ws.map String.toList

def keywords : List Text := names [
    "var", "let", "const", "function", "if", "else", "for", "while", "do", "switch", "case",
    "default", "break", "continue", "return", "try", "catch", "finally", "throw", "new", "this",
    "true", "false", "null", "undefined"]

/-- Global functions and objects, known in every expression. -/
def globalFunctions : List Text := names [
    "linear", "ease", "easeIn", "easeOut", "easeInOut", "clamp", "normalize", "smoothstep",
    "posterizeTime", "valueAtTime", "velocityAtTime", "speedAtTime", "timeToFrames",
    "framesToTime", "timeToTimecode", "timecodeToTime", "rgbToHsl", "hslToRgb", "hexToRgb",
    "rgbToHex", "degreesToRadians", "radiansToDegrees", "length", "lookAt", "cross", "dot",
    "createPath", "points", "inTangents", "outTangents", "isClosed", "wiggle", "loopIn",
    "loopOut", "loopInDuration", "loopOutDuration", "key", "nearestKey", "numKeys",
    "timeToNearestKey", "Math", "String", "Number", "Array", "Object", "Date", "thisComp",
    "thisLayer", "thisProperty", "time", "colorDepth", "downsampleFactor", "value", "index",
    "hasParent"]

def layerProperties : List Text := names [
    "anchorPoint", "position", "scale", "rotation", "opacity", "transform", "effects",
    "layerStyles", "geometryOptions", "materialOptions", "audio", "marker", "time", "startTime",
    "outPoint", "inPoint", "stretch", "blendingMode", "threeDLayer", "shy", "solo", "locked",
    "hasVideo", "hasAudio", "active", "enabled", "selected", "motionBlur", "frameBlending",
    "quality", "samplingQuality", "width", "height", "index", "parent", "hasParent",
    "timeRemapEnabled", "source", "mask", "effect", "layerStyle", "content"]

def hostBuiltins : List Text := names [
    "time", "value", "index", "thisComp", "thisLayer", "thisProperty"]

def deprecated : List (Text × Deprecation) := [
  ("Math.round".toList, ⟨"Math.round".toList,
    "Use native Math.round instead of AE's version for better performance"⟩),
  ("random".toList, ⟨"Math.random".toList, "Use Math.random() for better randomization"⟩),
  ("seedRandom".toList, ⟨"Math.seedrandom".toList,
    "Use Math.seedrandom() for seeded random generation"⟩),
  ("comp".toList, ⟨"thisComp".toList, "Use thisComp for better readability and consistency"⟩),
  ("layer".toList, ⟨"thisLayer".toList, "Use thisLayer for better readability and consistency"⟩),
  ("effect".toList, ⟨"thisLayer.effect".toList, "Use full path for better clarity"⟩)]

def expensive : List Text := names [
    "wiggle", "random", "noise", "valueAtTime"]

/-- A minus sign is a token of its own, so `-1` is never met as a number. -/
def allowedNumbers : List Text := names [
    "0", "1", "-1", "2", "10", "100", "360", "180", "90"]

def declarators : List Text := names [
    "var", "let", "const"]

def loopKeywords : List Text := names [
    "for", "while"]

def branchKeywords : List Text := names [
    "if", "else", "while", "for", "switch", "case", "catch"]

def logicalOperators : List Text := names [
    "&&", "||"]

/-- Operators of two characters; every other symbol is read one character at a time. -/
def pairOperators : List Text := names [
    "==", "!=", "<=", ">=", "&&", "||", "++", "--", "+=", "-=", "*=", "/="]

end Language

namespace Profile

def standard : Profile where
  keywords := Language.keywords
  globalFunctions := Language.globalFunctions
  layerProperties := Language.layerProperties
  builtins := Language.hostBuiltins
  deprecated := Language.deprecated
  expensive := Language.expensive
  allowedNumbers := Language.allowedNumbers

/-- Keep the first of equal names. -/
def distinct : List Text → List Text
  | [] => []
  | w :: ws => w :: (distinct ws).filter (· ≠ w)

def withBuiltins (p : Profile) (extra : List Text) : Profile :=
  { p with builtins := distinct (p.builtins ++ extra) }

def deprecation? (p : Profile) (word : Text) : Option Deprecation :=
  (p.deprecated.find? fun e => e.1 == word).map (·.2)

theorem mem_distinct (ws : List Text) (w : Text) : w ∈ distinct ws ↔ w ∈ ws := by
  induction ws with
  | nil => simp [distinct]
  | cons v vs ih =>
      by_cases h : w = v
      · simp [distinct, h]
      · simp [distinct, h, ih]

end Profile
end MotionExpr
