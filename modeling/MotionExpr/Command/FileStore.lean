import MotionExpr.Text.Quoted

/-!
Files by path. A path that another one goes through is a directory, whether or
not it has an entry of its own. A path may step back to a parent; of what lies
outside of the directory that the paths start from only its being there is known.
-/

namespace MotionExpr

namespace Path

def splitAtSlashes : Text → List Text
  | [] => [[]]
  | c :: r => if c = '/' then [] :: splitAtSlashes r else Text.consFirst c (splitAtSlashes r)

def leadingSlashes (t : Text) : Text :=
  match (t.takeWhile (· == '/')).length with
  | 0 => []
  | 2 => ['/', '/']
  | _ => ['/']

/-- Empty parts and single dots lead nowhere. -/
def parts (t : Text) : List Text := (splitAtSlashes t).filter fun p => !p.isEmpty && p != ['.']

def join (root : Text) (parts : List Text) : Text :=
  match root, parts with
  | [], [] => ['.']
  | root, parts => root ++ Text.concatSep ['/'] parts

/-- A path without empty parts and single dots; two leading slashes differ from
any other number of them. -/
def normal (t : Text) : Text := join (leadingSlashes t) (parts t)

/-- `path` goes through `ancestor`. -/
def isBelow (ancestor path : Text) : Bool := (ancestor ++ ['/']).isPrefixOf path

def byteLength (t : Text) : Nat := (String.ofList t).utf8ByteSize

def maxPart : Nat := 255

def maxPath : Nat := 4095

end Path

/-- The bytes of a file encode its text, or else no text at all. -/
inductive FileEntry where
  | file (content : Text)
  | undecodable (bytes : List UInt8) (invalid : ¬bytes.toByteArray.IsValidUTF8)
  | directory
  deriving DecidableEq, Repr

def FileEntry.ofBytes (bytes : List UInt8) : FileEntry :=
  if valid : bytes.toByteArray.IsValidUTF8 then
    .file (String.ofByteArray bytes.toByteArray valid).toList
  else .undecodable bytes valid

/-- What the system answers where it has no file to read. -/
inductive SystemFault where
  | missing
  | isDirectory
  | notDirectory
  | nameTooLong
  deriving DecidableEq, Repr

def SystemFault.message (f : SystemFault) (path : Text) : String :=
  let reason := match f with
    | missing => "[Errno 2] No such file or directory: "
    | isDirectory => "[Errno 21] Is a directory: "
    | notDirectory => "[Errno 20] Not a directory: "
    | nameTooLong => "[Errno 36] File name too long: "
  reason ++ String.ofList (Text.quoted path)

/-- Why no text is read. The system is not asked for a path that holds the character zero,
and what it reads may be the encoding of no text. -/
inductive ReadFault where
  | system (fault : SystemFault)
  | nulInPath
  | undecodable
  deriving DecidableEq, Repr

abbrev FileStore := List (Text × FileEntry)

namespace FileStore

def entryAt? (s : FileStore) (path : Text) : Option FileEntry :=
  (s.find? fun e => e.1 == path).map (·.2)

def isFile (s : FileStore) (path : Text) : Bool :=
  match s.entryAt? path with
  | some (.file _) | some (.undecodable ..) => true
  | _ => false

def isDirectory (s : FileStore) (path : Text) : Bool :=
  path == ['.'] || s.entryAt? path == some .directory || s.any fun e => Path.isBelow path e.1

/-- The directory that a part leads to from another one, or the file if it is the
last part. Directories are given by their parts, the last one first, and those
outside are all the same. -/
def step (s : FileStore) (last : Bool) (here : Option (List Text)) (part : Text) :
    Except SystemFault (Option (List Text)) :=
  if part = ['.', '.'] then .ok (here.bind fun
    | [] => none
    | _ :: above => some above)
  else if Path.maxPart < Path.byteLength part then .error .nameTooLong
  else match here with
    | none => .error .missing
    | some above =>
        let place := Path.join [] (part :: above).reverse
        if last || s.isDirectory place then .ok (some (part :: above))
        else if s.isFile place then .error .notDirectory
        else .error .missing

def walk (s : FileStore) (here : Option (List Text)) :
    List Text → Except SystemFault (Option (List Text))
  | [] => .ok here
  | part :: rest => do walk s (← s.step rest.isEmpty here part) rest

/-- The path without parent steps that a path stands for. -/
def locate (s : FileStore) (path : Text) : Except ReadFault Text :=
  if path.contains '\x00' then .error .nulInPath
  else if (s.entryAt? path).isSome then .ok path
  else if Path.maxPath < Path.byteLength path then .error (.system .nameTooLong)
  else
    let start := if (Path.leadingSlashes path).isEmpty then some [] else none
    match s.walk start (Path.parts path) with
    | .ok (some place) => .ok (Path.join [] place.reverse)
    | .ok none => .error (.system .isDirectory)
    | .error fault => .error (.system fault)

def read (s : FileStore) (path : Text) : Except ReadFault Text := do
  let place ← s.locate path
  match s.entryAt? place with
  | some (.file content) => return content
  | some (.undecodable ..) => throw .undecodable
  | some .directory => throw (.system .isDirectory)
  | none => throw (.system (if s.isDirectory place then .isDirectory else .missing))

/-- Write a file in the place of its old entry, or as the last one. -/
def write : FileStore → Text → Text → FileStore
  | [], path, content => [(path, .file content)]
  | e :: es, path, content =>
      if e.1 == path then (path, .file content) :: es else e :: write es path content

theorem entryAt?_write (s : FileStore) (path : Text) (content : Text) :
    (s.write path content).entryAt? path = some (.file content) := by
  induction s with
  | nil => simp [write, entryAt?]
  | cons e es ih =>
      by_cases h : e.1 = path
      · simp [write, entryAt?, h]
      · simpa [write, entryAt?, h] using ih

theorem entryAt?_write_of_ne (s : FileStore) {path other : Text} (content : Text)
    (h : other ≠ path) : (s.write path content).entryAt? other = s.entryAt? other := by
  induction s with
  | nil => simp [write, entryAt?, Ne.symm h]
  | cons e es ih =>
      by_cases hp : e.1 = path
      · simp [write, entryAt?, hp, Ne.symm h]
      · by_cases ho : e.1 = other
        · simp [write, entryAt?, ho, h]
        · simpa [write, entryAt?, hp, ho] using ih

/-- Write a file where its path leads; a path that leads nowhere changes nothing. -/
def save (s : FileStore) (path content : Text) : FileStore :=
  match s.locate path with
  | .ok place => s.write place content
  | .error _ => s

end FileStore
end MotionExpr
