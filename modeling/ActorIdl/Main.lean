import ActorIdl.CommandLine
/-! # The program

    Takes a copy of the files that the command can see, runs the command on the copy, and brings the
    disk and the two output streams to what came out.  All decisions are made by
    `CommandLine.run`. -/

namespace ActorIdl.Program

/-- The place of an absolute path. -/
def placeOf (path : String) : Place := (Path.parts path).filter (· ≠ "")

/-- The directories on the way to a place. -/
def above (place : Place) : List (Place × FileNode) :=
  ((List.range place.length).drop 1).map fun n => (place.take n, .dir)

/-- What stands at a path of the disk.  Files that cannot be read are left out. -/
def readNode (path : String) : IO (List (Place × FileNode)) := do
  let found ← IO.FS.realPath path
  if ← found.isDir then return [(placeOf path, .dir)]
  match ← (IO.FS.readBinFile path).toBaseIO with
  | .ok bytes => return [(placeOf path, .file bytes)]
  | .error _ => return []

/-- What stands at a path of the disk, with everything below and the directories above. -/
def readBelow (path : String) : IO (List (Place × FileNode)) := do
  match ← (IO.FS.realPath path).toBaseIO with
  | .error _ => return []
  | .ok found =>
    let inside ← if ← found.isDir then found.walkDir else pure #[]
    let nodes ← (found :: inside.toList).mapM fun p => readNode p.toString
    return above (placeOf found.toString) ++ nodes.flatten

/-- The files below the working directory and those that arguments name. -/
def snapshot (args : List String) : IO FileTree := do
  let here := (← IO.currentDir).toString
  let nodes ← (here :: args.filter Path.isAbsolute).mapM readBelow
  return { nodes := nodes.flatten, workingDir := placeOf here }

/-- Writes the files that are new in a tree, or that differ from an earlier one. -/
def store (tree earlier : FileTree) : IO Unit := do
  let changed := { tree with workingDir := [] }.changedSince { earlier with workingDir := [] }
  for (path, bytes) in changed do
    let directory := "/" ++ Text.joinWith "/" (placeOf path).dropLast
    IO.FS.createDirAll directory
    IO.FS.writeBinFile ("/" ++ path) bytes

end ActorIdl.Program

def main (args : List String) : IO UInt32 := do
  let before ← ActorIdl.Program.snapshot args
  let outcome := ActorIdl.CommandLine.run args before
  ActorIdl.Program.store outcome.tree before
  (← IO.getStderr).putStr outcome.stderr
  (← IO.getStdout).putStr outcome.stdout
  return outcome.exitCode.toUInt32
