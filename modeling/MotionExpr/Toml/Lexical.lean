import MotionExpr.Text.Alphanumeric

/-!
The smallest parts of a TOML document: keys, strings and comments. Each reader
returns what it read and the rest, or nothing where the text is malformed.
-/

namespace MotionExpr
namespace Toml

abbrev Reader (α : Type) := Text → Option (α × Text)

def isSpace (c : Char) : Bool := c == ' ' || c == '\t'

def skipSpaces (t : Text) : Text := t.dropWhile isSpace

/-- Control characters may not stand in strings and comments, a tab apart. -/
def isControl (c : Char) : Bool := (c.toNat < 0x20 && c != '\t') || c.toNat == 0x7F

/-- Pass a comment up to the newline that ends it. -/
def skipComment : Text → Option Text
  | '#' :: r =>
      if (r.takeWhile (· ≠ '\n')).any isControl then none else some (r.dropWhile (· ≠ '\n'))
  | t => some t

def isBareKeyChar (c : Char) : Bool :=
  Text.isAsciiLetter c || Text.isAsciiDigit c || c == '-' || c == '_'

def hexValue? (c : Char) : Option Nat :=
  if Text.isAsciiDigit c then some (c.toNat - 0x30)
  else if 'a' ≤ c && c ≤ 'f' then some (c.toNat - 0x61 + 10)
  else if 'A' ≤ c && c ≤ 'F' then some (c.toNat - 0x41 + 10)
  else none

/-- The character whose code point is written with `digits` hexadecimal digits. -/
def codePoint (digits : Nat) (t : Text) : Option Char := do
  if t.length < digits then none
  else
    let values ← (t.take digits).mapM hexValue?
    let n := values.foldl (fun n d => 16 * n + d) 0
    if n < 0xD800 || (0xDFFF < n && n < 0x110000) then some (Char.ofNat n) else none

/-- What follows a backslash: the character meant and how many it takes. -/
def escape? : Text → Option (Char × Nat)
  | 'b' :: _ => some ('\x08', 1)
  | 't' :: _ => some ('\t', 1)
  | 'n' :: _ => some ('\n', 1)
  | 'f' :: _ => some ('\x0c', 1)
  | 'r' :: _ => some ('\r', 1)
  | '"' :: _ => some ('"', 1)
  | '\\' :: _ => some ('\\', 1)
  | 'u' :: r => (codePoint 4 r).map fun c => (c, 5)
  | 'U' :: r => (codePoint 8 r).map fun c => (c, 9)
  | _ => none

def isBlankOrNewline (c : Char) : Bool := isSpace c || c == '\n'

/-- How many characters a backslash at the end of a line takes with it: all
blanks up to the next other character. -/
def lineJoin? (t : Text) : Option Nat :=
  match t with
  | [] => none
  | c :: _ =>
      if isBlankOrNewline c then
        match t.dropWhile isSpace with
        | [] => some t.length
        | '\n' :: _ => some (t.takeWhile isBlankOrNewline).length
        | _ => none
      else none

/-- A string with escapes, from behind its opening quotes; `skip` counts the
characters of the last escape that are still to be passed. -/
def basicString (multiline : Bool) : (skip : Nat) → Reader Text
  | _, [] => none
  | skip + 1, _ :: r => basicString multiline skip r
  | 0, c :: r =>
      if c = '"' && (!multiline || "\"\"".toList.isPrefixOf r) then
        some ([], if multiline then r.drop 2 else r)
      else if c = '\\' then
        match escape? r, if multiline then lineJoin? r else none with
        | some (d, n), _ => (basicString multiline n r).map fun p => (d :: p.1, p.2)
        | none, some n => basicString multiline n r
        | none, none => none
      else if isControl c && !(multiline && c == '\n') then none
      else (basicString multiline 0 r).map fun p => (c :: p.1, p.2)

/-- A string without escapes, from behind its opening quotes. -/
def literalString (multiline : Bool) : Reader Text
  | [] => none
  | c :: r =>
      if c = '\'' && (!multiline || "''".toList.isPrefixOf r) then
        some ([], if multiline then r.drop 2 else r)
      else if isControl c && !(multiline && c == '\n') then none
      else (literalString multiline r).map fun p => (c :: p.1, p.2)

/-- Up to two more quotes behind the closing ones belong to the string. -/
def trailingQuotes (quote : Char) (p : Text × Text) : Text × Text :=
  let extra := (p.2.take 2).takeWhile (· == quote)
  (p.1 ++ extra, p.2.drop extra.length)

def skipFirstNewline : Text → Text
  | '\n' :: r => r
  | t => t

/-- A string of any of the four kinds. -/
def string : Reader Text := fun t =>
  if "\"\"\"".toList.isPrefixOf t then
    (basicString true 0 (skipFirstNewline (t.drop 3))).map (trailingQuotes '"')
  else if "'''".toList.isPrefixOf t then
    (literalString true (skipFirstNewline (t.drop 3))).map (trailingQuotes '\'')
  else match t with
    | '"' :: r => basicString false 0 r
    | '\'' :: r => literalString false r
    | _ => none

def keyPart : Reader String := fun t =>
  match t with
  | '"' :: r => (basicString false 0 r).map fun p => (String.ofList p.1, p.2)
  | '\'' :: r => (literalString false r).map fun p => (String.ofList p.1, p.2)
  | _ =>
      match t.takeWhile isBareKeyChar with
      | [] => none
      | name => some (String.ofList name, t.dropWhile isBareKeyChar)

/-- The parts of a dotted key; every part takes a character, which bounds `fuel`. -/
def dottedKey : (fuel : Nat) → Reader (List String)
  | 0, _ => none
  | fuel + 1, t => do
      let (name, r) ← keyPart t
      match skipSpaces r with
      | '.' :: s => do
          let (names, rest) ← dottedKey fuel (skipSpaces s)
          return (name :: names, rest)
      | rest => return ([name], rest)

def key : Reader (List String) := fun t => dottedKey t.length t

end Toml
end MotionExpr
