import Octet.Failure
import Octet.Text.Utf8

/-! # Stored files

A storage holds files and folders. One of the folders is the working folder. A
name is a sequence of steps with a slash between two of them; it starts from the
working folder, or from the top folder if a slash stands before its first step.
Each operation says with which verb and under which name it was refused.
-/

namespace Octet

/-- What is stored at a path. -/
inductive Entry where
  | file (content : List UInt8)
  | folder
  deriving DecidableEq, Repr

/-- The steps from the top folder to a file or folder, the last one first. -/
abbrev Path := List String

/-- Files and folders by their paths. -/
structure Storage where
  /-- The folder from which names start. -/
  working : Path
  entries : List (Path × Entry)
  deriving DecidableEq, Repr

/-- Where a name leads. -/
inductive Spot where
  | folder
  /-- A file; `slash` tells that the name ends as only the names of folders may. -/
  | file (path : Path) (content : List UInt8) (slash : Bool)
  /-- Nothing, in a folder that exists. -/
  | vacant (path : Path) (slash : Bool)
  deriving DecidableEq, Repr

/-- Why a name leads nowhere: a cause that lacks its verb and name. -/
abbrev Astray := String → String → Cause

namespace Storage

/-- What is stored at a path. The top folder is always there. -/
def entry? (storage : Storage) (path : Path) : Option Entry :=
  if path.isEmpty then some .folder else storage.entries.lookup path

/-- The storage with something else at a path. -/
def put (storage : Storage) (path : Path) (entry : Entry) : Storage :=
  { storage with entries := (path, entry) :: storage.entries.filter (·.1 != path) }

/-- Makes a folder at a path, unless something is there. -/
def putFolder (storage : Storage) (path : Path) : Storage :=
  if (storage.entry? path).isSome then storage else storage.put path .folder

/-- Makes the folders that steps lead through from the one at `here`, and gives the last of
them. -/
def pave (storage : Storage) : Path → List String → Storage × Path
  | here, [] => (storage, here)
  | here, step :: rest =>
    if step = "" ∨ step = "." then storage.pave here rest
    else if step = ".." then storage.pave here.tail rest
    else (storage.putFolder (step :: here)).pave (step :: here) rest

/-- The storage that has only its working folder. -/
def new (working : Path) : Storage := (pave ⟨working, []⟩ [] working.reverse).1

/-! ### Names -/

/-- The largest number of bytes in one step of a name. -/
def maxStep : Nat := 255

/-- The largest number of bytes in a name. -/
def maxName : Nat := 4095

/-- The steps of a name. -/
def stepsOf (name : String) : List String := (name.toList.splitOn '/').map String.ofList

/-- The folder from which a name starts. -/
def start (storage : Storage) (name : String) : Path :=
  if name.startsWith "/" then [] else storage.working

/-- Follows the steps of a name from the folder at `here`. -/
def follow (storage : Storage) : Path → List String → Except Astray Spot
  | _, [] => .ok .folder
  | here, step :: rest =>
    if step = "" ∨ step = "." then storage.follow here rest
    else if step = ".." then storage.follow here.tail rest
    else if maxStep < step.utf8ByteSize then .error .nameTooLong
    else
      match storage.entry? (step :: here) with
      | some .folder => storage.follow (step :: here) rest
      | some (.file content) =>
        if rest.all (· = "") then .ok (.file (step :: here) content (rest ≠ []))
        else .error .notDirectory
      | none =>
        if rest.all (· = "") then .ok (.vacant (step :: here) (rest ≠ []))
        else .error .missingFile

/-- Where a name leads. -/
def locate (storage : Storage) (name : String) : Except Astray Spot :=
  if name.toList.contains '\x00' then .error .invalidPath
  else if name.isEmpty then .error .missingFile
  else if maxName < name.utf8ByteSize then .error .nameTooLong
  else storage.follow (storage.start name) (stepsOf name)

/-! ### Operations -/

/-- The content of a file. -/
def read (storage : Storage) (name : String) : Except Cause (List UInt8) :=
  match storage.locate name with
  | .error astray => .error (astray "open" name)
  | .ok .folder => .error (.isDirectory "read" name)
  | .ok (.vacant _ _) => .error (.missingFile "open" name)
  | .ok (.file _ content slash) =>
    if slash then .error (.notDirectory "open" name) else .ok content

/-- Stores a file, in place of one that may be there. -/
def write (storage : Storage) (name : String) (content : List UInt8) : Except Cause Storage :=
  match storage.locate name with
  | .error astray => .error (astray "open" name)
  | .ok .folder => .error (.isDirectory "open" name)
  | .ok (.vacant path slash) | .ok (.file path _ slash) =>
    if slash then .error (.isDirectory "open" name) else .ok (storage.put path (.file content))

/-- Makes a folder. -/
def makeFolder (storage : Storage) (name : String) : Except Cause Storage :=
  match storage.locate name with
  | .error astray => .error (astray "mkdir" name)
  | .ok (.vacant path _) => .ok (storage.put path .folder)
  | .ok _ => .error (.fileExists "mkdir" name)

/-- Makes the folders that a name leads through to its last step. -/
def paveTo (storage : Storage) (name : String) : Storage :=
  (storage.pave (storage.start name) (stepsOf name).dropLast).1

/-- Makes the folder with a name and those that lead to it. -/
def provideFolder (storage : Storage) (name : String) : Storage :=
  (storage.pave (storage.start name) (stepsOf name)).1

/-- Stores a file and makes the folders that lead to it. -/
def provide (storage : Storage) (name : String) (content : List UInt8) : Storage :=
  let steps := stepsOf name
  let (storage, here) := storage.pave (storage.start name) steps.dropLast
  storage.put (steps.getLastD "" :: here) (.file content)

/-- The files below the working folder that another storage does not have with the same content, by
their names. -/
def filesBeyond (storage former : Storage) : List (String × List UInt8) :=
  storage.entries.filterMap fun (path, entry) =>
    match entry with
    | .folder => none
    | .file content =>
      if former.entry? path = some (.file content) || !storage.working.isSuffixOf path then none
      else
        let steps := path.take (path.length - storage.working.length)
        some (String.intercalate "/" steps.reverse, content)

end Storage

end Octet
