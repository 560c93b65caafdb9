import RepoScope.Command.Options
import RepoScope.Config
import RepoScope.Decimal
import RepoScope.Scope.Basic

/-!
# The arguments of the program

The three commands with their options, and the request that a command line makes.
-/

namespace RepoScope.Command

open Scope

/-! ## Requests -/

/-- The options that shape which files are selected. -/
structure Selection where
  /-- The path of the root, the current directory unless given. -/
  path : Option String
  focus : Option Focus
  changedOnly : Bool
  gitAware : Bool
  target : Option String
  treeShake : Bool
  skeletonContext : Bool
  scopeFunction : Option String
  maxFiles : Option Nat
  exclude : List String
  deriving DecidableEq

/-- The path of the root. -/
def Selection.root (s : Selection) : String := s.path.getD "."

/--
The directives of a selection. Settings fill in what the command line leaves open; the globs of both add up.
-/
def Selection.directives (s : Selection) (config : Config) : Directives where
  focus := s.focus.getD .none
  changedOnly := s.changedOnly
  gitAware := s.gitAware
  target := s.target
  treeShake := s.treeShake
  skeletonContext := s.skeletonContext
  scopeFunction := s.scopeFunction
  maxFiles := (s.maxFiles.or config.maxFiles).getD defaultMaxFiles
  exclude := config.exclude.getD [] ++ s.exclude

/-- What the command `scope` is asked for. -/
structure BundleRequest where
  selection : Selection
  /-- What the bundle is for. -/
  purpose : Option String
  format : Option String
  countTokens : Bool
  /-- Whether the stack is left out. -/
  noStyle : Bool
  /-- Whether the versions of the manifests are pinned. -/
  hardLock : Bool
  /-- Whether the prohibitions are left out. -/
  noNegativeContext : Bool
  /-- How many files are read at a time. The bundle does not depend on it. -/
  jobs : Option Nat
  deriving DecidableEq

/-- What the command `tree` is asked for. -/
structure ListingRequest where
  selection : Selection
  isFlat : Bool
  noColor : Bool
  deriving DecidableEq

/-- What the program is asked to do. -/
inductive Request where
  /-- Write the bundle of a selection. -/
  | scope (request : BundleRequest)
  /-- List a selection. -/
  | tree (request : ListingRequest)
  /-- Tell the stack of the project at a path. -/
  | profile (path : Option String)
  deriving DecidableEq

/-- A request, and whether decisions are to be logged. -/
structure Invocation where
  request : Request
  isVerbose : Bool
  deriving DecidableEq

/-! ## Options of the commands -/

/-- The largest number that an option takes. -/
def maxCount : Nat := Nat.pow 2 64 - 1

/-- The number that an argument stands for: plain digits, possibly behind a plus sign. -/
def count? (argument : String) : Option Nat :=
  let digits := match argument.toList with
    | '+' :: digits => digits
    | digits => digits
  if digits.isEmpty || !digits.all Char.isDigit then none
  else
    let value := Decimal.natOf digits
    if value ≤ maxCount then some value else none

/-- A value that is any text. -/
def anyText : Arity := .once fun _ => true

/-- A value that is a number. -/
def aCount : Arity := .once fun argument => (count? argument).isSome

/-- The options of every command. -/
def commonSwitches : List Switch := [⟨"verbose", 'v', .flag⟩, ⟨"help", 'h', .help⟩]

/-- The option for the root. -/
def pathSwitch : Switch := ⟨"path", 'p', anyText⟩

/-- The options that shape which files are selected. -/
def selectionSwitches : List Switch := [
  pathSwitch,
  ⟨"focus", none, .once fun word => (Focus.ofWord? word).isSome⟩,
  ⟨"changed", 'c', .flag⟩,
  ⟨"git-aware", 'g', .flag⟩,
  ⟨"target", none, anyText⟩,
  ⟨"tree-shake", none, .flag⟩,
  ⟨"skeleton-context", none, .flag⟩,
  ⟨"scope-function", none, anyText⟩,
  ⟨"max-files", 'm', aCount⟩,
  ⟨"exclude", 'e', .repeatable⟩]

/-- What the program understands before its command. -/
def topGrammar : Grammar := ⟨commonSwitches, false, ["scope", "tree", "profile", "help"]⟩

/-- What the command `scope` understands. -/
def scopeGrammar : Grammar where
  switches := commonSwitches ++ selectionSwitches ++ [
    ⟨"format", 'f', anyText⟩,
    ⟨"tokens", 't', .flag⟩,
    ⟨"no-style", none, .flag⟩,
    ⟨"hard-lock", none, .flag⟩,
    ⟨"no-negative-context", none, .flag⟩,
    ⟨"jobs", 'j', aCount⟩]
  takesOperand := true
  subcommands := []

/-- What the command `tree` understands. -/
def treeGrammar : Grammar where
  switches := commonSwitches ++ selectionSwitches ++ [⟨"flat", 'f', .flag⟩, ⟨"no-color", none, .flag⟩]
  takesOperand := false
  subcommands := []

/-- What the command `profile` understands. -/
def profileGrammar : Grammar := ⟨commonSwitches ++ [pathSwitch], false, []⟩

/-! ## Reading -/

/-- The selection that has been read. -/
def Reading.selection (r : Reading) : Selection where
  path := r.value? "path"
  focus := (r.value? "focus").bind Focus.ofWord?
  changedOnly := r.has "changed"
  gitAware := r.has "git-aware"
  target := r.value? "target"
  treeShake := r.has "tree-shake"
  skeletonContext := r.has "skeleton-context"
  scopeFunction := r.value? "scope-function"
  maxFiles := (r.value? "max-files").bind count?
  exclude := r.values "exclude"

/-- The request of the command `scope`. -/
def Reading.scopeRequest (r : Reading) : Request :=
  .scope {
    selection := r.selection
    purpose := r.operand
    format := r.value? "format"
    countTokens := r.has "tokens"
    noStyle := r.has "no-style"
    hardLock := r.has "hard-lock"
    noNegativeContext := r.has "no-negative-context"
    jobs := (r.value? "jobs").bind count? }

/-- The request of the command `tree`. -/
def Reading.treeRequest (r : Reading) : Request :=
  .tree { selection := r.selection, isFlat := r.has "flat", noColor := r.has "no-color" }

/-- The request of the command `profile`. -/
def Reading.profileRequest (r : Reading) : Request := .profile (r.value? "path")

/-- Why the words behind the command `help` are refused: only a single command has help of its own. -/
def helpOn : List String → Refusal
  | [] => .helpWanted
  | word :: rest =>
    if word ∉ topGrammar.subcommands then .unknownCommand word
    else match rest with
      | [] => .helpWanted
      | other :: _ => .unknownCommand other

/-- The invocation by the arguments of a command, given the options before it. -/
def invocationBy (before : Reading) (g : Grammar) (request : Reading → Request) (arguments : List String) :
    Except Refusal Invocation := do
  let (r, _) ← Reading.readFrom g .start arguments
  return ⟨request r, before.has "verbose" || r.has "verbose"⟩

/-- The invocation that a command line makes. -/
def Invocation.ofArguments? (arguments : List String) : Except Refusal Invocation := do
  match ← Reading.readFrom topGrammar .start arguments with
  | (before, some ("scope", rest)) => invocationBy before scopeGrammar Reading.scopeRequest rest
  | (before, some ("tree", rest)) => invocationBy before treeGrammar Reading.treeRequest rest
  | (before, some ("profile", rest)) => invocationBy before profileGrammar Reading.profileRequest rest
  | (_, some (_, words)) => .error (helpOn words)
  | (before, none) => .error (if before.options.isEmpty then .nothingGiven else .commandMissing)

end RepoScope.Command
