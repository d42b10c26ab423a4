import ProgramTrees.Commands

namespace ProgramTrees

/-- What stands at a path of the file system, if it can be read. A directory opens, but has no
bytes. -/
def readEntry (path : String) : IO (Option Entry) := do
  try
    let bytes ← IO.FS.readBinFile path
    return some (.file bytes.toList)
  catch
    | .inappropriateType .. => return some .directory
    | _ => return none

/-- Looks up a path and every directory on the way to it. -/
def lookUp (store : FileStore) (path : Path) : IO FileStore :=
  (List.range path.parts.length).foldlM (fun store n => do
    let upTo : Path := ⟨path.root, path.parts.take (n + 1)⟩
    match store.locate upTo with
    | .error _ => return store
    | .ok location =>
      match ← readEntry upTo.text with
      | none => return store
      | some entry => return store.set location entry) store

def writeChanges (before after : FileStore) : IO Unit :=
  after.forM fun (location, entry) => do
    match entry with
    | .directory => return
    | .file bytes =>
      if before.get? location = some entry then return
      let path : Path := match location with
        | "/" :: parts => ⟨"/", parts⟩
        | parts => ⟨"", parts⟩
      IO.FS.writeBinFile path.text bytes.toByteArray

/-- Runs the program on a real terminal: the files that the command line names are looked up
beforehand, and those that a command has written are put in their places afterwards. -/
def execute (args : List String) : IO UInt32 := do
  let out ← IO.getStdout
  let err ← IO.getStderr
  let terminal : Terminal :=
    { isTerminal := ← out.isTty, noColor := (← IO.getEnv "NO_COLOR").getD "" }
  let paths := match Invocation.read args with
    | .ok i => i.paths
    | .error _ => []
  let store ← paths.foldlM lookUp []
  let outcome := runCommandLine terminal store args
  writeChanges store outcome.files
  out.putStr outcome.out
  err.putStr outcome.err
  match outcome.ending with
  | .exit code => return UInt32.ofNat code
  | .crash crash =>
    err.putStrLn crash.message
    return 1

end ProgramTrees

def main (args : List String) : IO UInt32 :=
  ProgramTrees.execute args
