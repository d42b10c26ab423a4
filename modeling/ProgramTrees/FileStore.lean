import ProgramTrees.Quoted
import ProgramTrees.Table

namespace ProgramTrees

/-- A path: its root, if it has one, and its components, of which none is empty or a lone dot. -/
structure Path where
  root : String
  parts : List String
deriving DecidableEq

/-- Two slashes at the beginning are a root of their own; any other number is the same as one. -/
def Path.ofString (s : String) : Path :=
  let slashes := (s.toList.takeWhile (· == '/')).length
  let root := if slashes = 0 then "" else if slashes = 2 then "//" else "/"
  ⟨root, (s.splitOn "/").filter fun part => part != "" && part != "."⟩

def Path.text (p : Path) : String :=
  if p.root = "" ∧ p.parts = [] then "." else p.root ++ "/".intercalate p.parts

inductive Entry where
  | directory
  | file (bytes : List UInt8)
deriving DecidableEq

inductive FileFault where
  | notFound
  | notDirectory
  | isDirectory
  | nameTooLong
  | nullCharacter
deriving DecidableEq

def FileFault.message (path : Path) : FileFault → String
  | .notFound => s!"[Errno 2] No such file or directory: {quoted path.text}"
  | .notDirectory => s!"[Errno 20] Not a directory: {quoted path.text}"
  | .isDirectory => s!"[Errno 21] Is a directory: {quoted path.text}"
  | .nameTooLong => s!"[Errno 36] File name too long: {quoted path.text}"
  | .nullCharacter => "embedded null byte"

/-- A place in the tree of directories: the names from the working directory on, after one `..` for
each directory above it that the place is reached by; a root comes first. -/
abbrev Location := List String

/-- The files and directories that are known. The working directory, the root and the directories
above are there without an entry. -/
abbrev FileStore := Table Location Entry

namespace FileStore

variable (store : FileStore)

def entry? (location : Location) : Option Entry :=
  if location = ["/"] ∨ location.all (· == "..") then some .directory
  else store.get? location

def parent (location : Location) : Location :=
  if location = ["/"] then location
  else if location.all (· == "..") then location ++ [".."]
  else location.dropLast

def longestName : Nat := 255

def longestPath : Nat := 4095

/-- Follows components from a place; all but the last must lead to directories. -/
def follow (location : Location) : List String → Except FileFault Location
  | [] => .ok location
  | part :: parts =>
    match store.entry? location with
    | none => .error .notFound
    | some (.file _) => .error .notDirectory
    | some .directory =>
      if longestName < part.utf8ByteSize then .error .nameTooLong
      else follow (if part = ".." then parent location else location ++ [part]) parts

def locate (path : Path) : Except FileFault Location :=
  if path.parts.any (·.contains (Char.ofNat 0)) then .error .nullCharacter
  else if longestPath < path.text.utf8ByteSize then .error .nameTooLong
  else store.follow (if path.root = "" then [] else ["/"]) path.parts

def holds (path : Path) : Except FileFault Bool :=
  match store.locate path with
  | .ok location => .ok (store.entry? location).isSome
  | .error .nameTooLong => .error .nameTooLong
  | .error _ => .ok false

def read (path : Path) : Except FileFault (List UInt8) := do
  match store.entry? (← store.locate path) with
  | none => .error .notFound
  | some .directory => .error .isDirectory
  | some (.file bytes) => .ok bytes

def write (path : Path) (bytes : List UInt8) : Except FileFault FileStore := do
  let location ← store.locate path
  match store.entry? location with
  | some .directory => .error .isDirectory
  | _ => .ok (store.set location (.file bytes))

/-- Puts an entry at a path, with the directories on the way to it that are not there yet. -/
def place (path : Path) (entry : Entry) : FileStore :=
  let location := if path.root = "" then path.parts else "/" :: path.parts
  let store := (List.range location.length).foldl (fun store n =>
    let above := location.take n
    if (store.entry? above).isSome then store else store.set above .directory) store
  store.set location entry

end FileStore

end ProgramTrees
