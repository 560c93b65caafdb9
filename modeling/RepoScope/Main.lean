import RepoScope.Command

/-!
# The program

Reads the files that a request may look at, runs the command on them, and writes what it reports. Nothing is
decided here.
-/

namespace RepoScope.Main

/-- The names on the way to a path from the top of the file system. -/
def place (path : String) : List String := Path.names path

/-- What stands at an entry of a directory. Nothing if it is neither file, directory nor link. -/
partial def readNode? (dir name : String) : IO (Option Node) := do
  let path := IO.FS.DirEntry.path ⟨dir, name⟩
  try
    match (← path.symlinkMetadata).type with
    | .file => return some (.file (← IO.FS.readBinFile path).toList)
    | .symlink =>
      let target ← try pure (← IO.FS.realPath path).toString catch _ => pure "/"
      return some (.link target)
    | .dir =>
      let mut entries := Entries.nil
      for entry in ← path.readDir do
        if let some node ← readNode? path.toString entry.fileName then
          entries := .cons entry.fileName node entries
      return some (.dir entries)
    | .other => return none
  catch _ => return none

/-- The tree with the entry of a directory in it. -/
def load (top : Node) (dir name : String) : IO Node := do
  match ← readNode? dir name with
  | some node => return top.insert (place dir ++ [name]) node
  | none => return top

/-- The tree with the ignore files of a directory in it, and of all directories above it. -/
def loadAbove (top : Node) : List String → IO Node
  | [] => return top
  | name :: above => do
    let dir := Path.join ("" :: (name :: above).reverse)
    let top ← load top dir ".gitignore"
    let top ← load top (dir ++ "/.git/info") "exclude"
    let top ←
      if ← (IO.FS.DirEntry.path ⟨dir, ".git"⟩).pathExists then
        pure (((top.makeDirs? (place dir) [".git"]).map (·.1)).getD top)
      else pure top
    loadAbove top above

/-- The files that a request about this root may look at. -/
def loadRoot (here root : String) : IO Node := do
  let path := IO.FS.DirEntry.path ⟨here, root⟩
  let real ← try pure (← IO.FS.realPath path).toString catch _ => return Node.emptyDir
  match (place real).reverse with
  | [] => return (← readNode? "/" ".").getD Node.emptyDir
  | name :: above =>
    let top ← loadAbove Node.emptyDir above
    let top ← load top (Path.join ("" :: above.reverse)) name
    let given := Path.foldAtTop (Path.piecesFrom (place here) root)
    return if given = place real then top else top.insert given (.link real)

/-- The tree with the settings and ignore rules of a home directory in it. -/
def loadHome (top : Node) : Option String → IO Node
  | none => return top
  | some home => do
    let top ← load top (home ++ "/.contextify") "config.toml"
    load top home Ignore.toolIgnoreFile

/-- The files that a command line may look at. -/
def loadFor (arguments : List String) (here : String) (home : Option String) : IO Node := do
  match Command.Invocation.ofArguments? arguments with
  | .ok invocation => loadHome (← loadRoot here invocation.request.root) home
  | .error _ => return Node.emptyDir

/-- Runs the program and gives its exit code. -/
def runProgram (arguments : List String) : IO Nat := do
  let here := (← IO.currentDir).toString
  let home ← IO.getEnv "HOME"
  let top ← loadFor arguments here home
  let stdout ← IO.getStdout
  let styles := Command.takesStyles (← IO.getEnv "CLICOLOR_FORCE") (← IO.getEnv "NO_COLOR")
    (← IO.getEnv "CLICOLOR") (← stdout.isTty)
  let report := Command.run
    { disk := ⟨top, home.map place⟩
      here := place here
      source := .ofProgram none
      takesStyles := styles } arguments
  for message in report.messages do
    IO.eprintln message
  stdout.putStr report.output
  return report.exitCode

end RepoScope.Main

/-- Runs the program. -/
def main (arguments : List String) : IO UInt32 := do
  return UInt32.ofNat (← RepoScope.Main.runProgram arguments)
