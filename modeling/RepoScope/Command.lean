import RepoScope.Command.Arguments
import RepoScope.Context
import RepoScope.Listing
import RepoScope.Render

/-!
# Commands

What the program writes and how it ends, as a function of its arguments, the files it can see and what is
known about changes.
-/

namespace RepoScope.Command

open Scope Content

/-- Where the program runs. -/
structure Surroundings where
  disk : Disk
  /-- The current directory. -/
  here : List String
  source : Changes.Source
  /-- Whether terminal styles may be written. -/
  takesStyles : Bool

/-- What a run of the program leaves behind. -/
structure Report where
  output : String
  /-- The messages that go beside the output. -/
  messages : List String
  exitCode : Nat
  deriving DecidableEq

/-- Why a command fails. -/
inductive Failure where
  | scoping (error : Error)
  | unknownFormat (word : String)
  deriving DecidableEq

/-- The wording of a failure. -/
def Failure.message : Failure → String
  | scoping error => error.message
  | unknownFormat word => Render.Format.refusal word

/-- The wording of a refusal. -/
def Refusal.message : Refusal → String
  | unknownArgument argument => "unexpected argument '" ++ argument ++ "' found"
  | valueMissing option => "a value is required for '--" ++ option ++ "' but none was supplied"
  | valueInvalid option value => "invalid value '" ++ value ++ "' for '--" ++ option ++ "'"
  | valueUnneeded option value => "unexpected value '" ++ value ++ "' for '--" ++ option ++ "' found"
  | repeated option => "the argument '--" ++ option ++ "' cannot be used multiple times"
  | unknownCommand word => "unrecognized subcommand '" ++ word ++ "'"
  | commandMissing => "a subcommand is required: scope, tree or profile"
  | nothingGiven => "a subcommand is required: scope, tree or profile"
  | helpWanted => "usage: contextify [scope | tree | profile] [options]"

/-- The exit code of a refusal. Help that was asked for is no failure. -/
def Refusal.exitCode : Refusal → Nat
  | helpWanted => 0
  | _ => 2

/-! ## Styles -/

/-- Whether a variable of the environment is set and not zero. -/
def isSwitchedOn (value : Option String) : Bool := value.any (· ≠ "0")

/--
Whether terminal styles may be written, by the variables `CLICOLOR_FORCE`, `NO_COLOR` and `CLICOLOR` and by
whether the output is a terminal.
-/
def takesStyles (force noColor color : Option String) (isTerminal : Bool) : Bool :=
  isSwitchedOn force || (noColor.isNone && isTerminal && color.all (· ≠ "0"))

/-! ## The commands -/

/-- The path of the root that a request is about. -/
def Request.root : Request → String
  | .scope r => r.selection.root
  | .tree r => r.selection.root
  | .profile path => path.getD "."

/-- The settings for a root. -/
def settings (s : Surroundings) (root : String) : Config :=
  Config.load s.disk (Path.piecesFrom s.here root)

/-- Opens a context and runs directives in it. -/
def openAndRun (s : Surroundings) (root : String) (exclude : List String) (d : Directives) :
    Except Error (Context × Outcome) := do
  let ctx ← Context.open? s.disk s.here root exclude
  return (ctx, ← ctx.run s.disk s.source d)

/-- Runs a selection, unless its directives are senseless. -/
def select (s : Surroundings) (root : String) (d : Directives) : Except Failure (Context × Outcome) :=
  match d.fault? with
  | some fault => .error (.scoping (.invalidDirectives fault))
  | none => (openAndRun s root d.exclude d).mapError .scoping

/-- The format that is asked for, plain text unless a word is given. -/
def formatOf (word : Option String) : Except Failure Render.Format :=
  match word with
  | none => .ok .text
  | some word =>
    match Render.Format.ofWord? word with
    | some format => .ok format
    | none => .error (.unknownFormat word)

/-- The command `scope`. -/
def scope (s : Surroundings) (host : Host) (r : BundleRequest) : Except Failure Report := do
  let config := settings s r.selection.root
  let d := r.selection.directives config
  let (ctx, outcome) ← select s r.selection.root d
  let format ← formatOf (r.format.or config.format)
  let options : Bundle.Options :=
    { request := r.purpose
      withProfile := !r.noStyle
      withPins := r.hardLock
      withProhibitions := !r.noNegativeContext
      countTokens := r.countTokens || config.tokens.getD false
      jobs := (r.jobs.or config.jobs).getD 0 }
  return ⟨Render.render format (Bundle.build ctx s.disk outcome d options host), [], 0⟩

/-- How the labels of a listing are written. -/
def inkOf (s : Surroundings) (noColor : Bool) : Listing.Ink :=
  if noColor then .plain else if s.takesStyles then .coloured else .muted

/-- The command `tree`. -/
def tree (s : Surroundings) (r : ListingRequest) : Except Failure Report := do
  let config := settings s r.selection.root
  let (_, outcome) ← select s r.selection.root (r.selection.directives config)
  let ink := inkOf s (r.noColor || config.noColor.getD false)
  let warnings := outcome.warnings.map fun warning => "warning: " ++ warning.message
  if outcome.files.isEmpty then return ⟨"", warnings ++ ["No files selected"], 0⟩
  else
    let listing := if r.isFlat then Listing.flat ink outcome.files else Listing.tree ink outcome.files
    return ⟨listing, warnings, 0⟩

/-- The lines of the command `profile`. -/
def profileLines (project : String) (profile : Stack.Profile) (pins : List String) : List String :=
  ["Project: " ++ project, "Stack: " ++ if profile.isEmpty then "unknown" else profile.summary] ++
  if pins.isEmpty then [] else "Environment constraints:" :: pins.map ("  - " ++ ·)

/-- The command `profile`. -/
def profile (s : Surroundings) (path : Option String) : Except Failure Report := do
  let root := (Request.profile path).root
  let exclude := (settings s root).exclude.getD []
  let (ctx, outcome) ← (openAndRun s root exclude .default).mapError .scoping
  let lines := profileLines (Bundle.projectName ctx.root) outcome.profile
    (GuardRail.pins (ctx.repository s.disk))
  return ⟨Listing.unlines lines, [], 0⟩

/-- Does what a request asks for. -/
def perform (s : Surroundings) (host : Host) : Request → Except Failure Report
  | .scope r => scope s host r
  | .tree r => tree s r
  | .profile path => profile s path

/-- Runs the program on its arguments. -/
def run (s : Surroundings) (arguments : List String) (host : Host := {}) : Report :=
  match Invocation.ofArguments? arguments with
  | .error .helpWanted => ⟨Refusal.message .helpWanted ++ "\n", [], 0⟩
  | .error refusal => ⟨"", ["error: " ++ refusal.message], refusal.exitCode⟩
  | .ok invocation =>
    match perform s host invocation.request with
    | .ok report => report
    | .error failure => ⟨"", ["Error: " ++ failure.message], 1⟩

end RepoScope.Command
