import RepoScope.Focus
import RepoScope.Walk

/-!
# The scope of a request

What a request asks for, what becomes of a file that is selected, and what is said when something does not
work out.
-/

namespace RepoScope.Scope

/-! ## Selected files -/

/-- Why a file is selected, in order of importance. -/
inductive Role where
  | target
  | dependency
  | changed
  | config
  | normal
  deriving DecidableEq

namespace Role

/-- The name of a role. -/
def name : Role → String
  | target => "target"
  | dependency => "dependency"
  | changed => "changed"
  | config => "config"
  | normal => "normal"

/-- The position of a role in the order of importance. -/
def rank : Role → Nat
  | target => 0
  | dependency => 1
  | changed => 2
  | config => 3
  | normal => 4

/-- Whether files of this role stay, however small the budget. -/
def isRequired : Role → Bool
  | target | dependency => true
  | changed | config | normal => false

end Role

/-- How a selected file is shown. -/
inductive Mode where
  /-- As it is. -/
  | full
  /-- By its outline. -/
  | skeleton
  /-- By its name alone; it is never read. -/
  | excluded
  deriving DecidableEq

/-- The name of a mode. -/
def Mode.name : Mode → String
  | full => "full"
  | skeleton => "skeleton"
  | excluded => "excluded"

/-- A selected file. -/
structure ScopedFile where
  candidate : Candidate
  role : Role
  mode : Mode
  deriving DecidableEq

/-- The path of a selected file. -/
def ScopedFile.path (f : ScopedFile) : String := f.candidate.path

/-! ## Directives -/

/-- How many files are selected unless the request says otherwise. -/
def defaultMaxFiles : Nat := 30

/-- What a request asks for. -/
structure Directives where
  focus : Focus
  /-- Only files that differ from the last commit. -/
  changedOnly : Bool
  /-- Also files with edits that are not committed. -/
  gitAware : Bool
  /-- The path of the file that the request is about. -/
  target : Option String
  /-- Only the target and what it imports. -/
  treeShake : Bool
  /-- All files but the target by their outlines. -/
  skeletonContext : Bool
  /-- The function that the change is limited to. -/
  scopeFunction : Option String
  maxFiles : Nat
  /-- Globs of files to leave out. -/
  exclude : List String
  deriving DecidableEq

/-- The directives of a request that asks for nothing in particular. -/
def Directives.default : Directives where
  focus := .none
  changedOnly := false
  gitAware := false
  target := none
  treeShake := false
  skeletonContext := false
  scopeFunction := none
  maxFiles := defaultMaxFiles
  exclude := []

/-- What makes directives senseless. -/
inductive Fault where
  | noFiles
  | treeShakeWithoutTarget
  | skeletonWithoutTarget
  deriving DecidableEq

/-- The wording of a fault. -/
def Fault.message : Fault → String
  | noFiles => "max files must be at least 1"
  | treeShakeWithoutTarget => "--tree-shake requires --target"
  | skeletonWithoutTarget => "--skeleton-context requires --target"

/-- The first fault of directives, if they have one. -/
def Directives.fault? (d : Directives) : Option Fault :=
  if d.maxFiles = 0 then some .noFiles
  else if d.target.isNone ∧ d.treeShake then some .treeShakeWithoutTarget
  else if d.target.isNone ∧ d.skeletonContext then some .skeletonWithoutTarget
  else none

/-! ## Errors and warnings -/

/-- Why the files of a root cannot be listed. -/
inductive RootFault where
  | missing
  | noDirectory
  deriving DecidableEq

/-- The wording of a fault of a root. -/
def RootFault.message : RootFault → String
  | missing => "No such file or directory (os error 2)"
  | noDirectory => "Not a directory (os error 20)"

/-- What stops a run. -/
inductive Error where
  | rootUnreadable (root : String) (fault : RootFault)
  | targetNotFound (target : String)
  | targetOutsideRoot (target : String)
  | invalidDirectives (fault : Fault)
  deriving DecidableEq

/-- The wording of an error. -/
def Error.message : Error → String
  | rootUnreadable root fault =>
    "cannot read repository root " ++ root ++ ": " ++ fault.message
  | targetNotFound target => "target file not found: " ++ target
  | targetOutsideRoot target => "target file is outside the repository root: " ++ target
  | invalidDirectives fault => "invalid directives: " ++ fault.message

/-- What is said beside a result. -/
inductive Warning where
  /-- The target looks like a secret and is not shown. -/
  | sensitiveTarget (path : String)
  /-- The changed files are not known, for this reason. -/
  | changesUnavailable (reason : String)
  /-- The edited files are not known, for this reason. -/
  | activityUnavailable (reason : String)
  /-- A directive has no effect. -/
  | directiveIgnored (directive : String)
  /-- No candidate belongs to the focus area. -/
  | noFocusMatches (area : Focus)
  deriving DecidableEq

/-- The wording of a warning. -/
def Warning.message : Warning → String
  | sensitiveTarget path =>
    "target " ++ path ++ " looks like a secret or credential file; it was not included"
  | changesUnavailable reason =>
    "changed files unavailable (" ++ reason ++ "); using all eligible files"
  | activityUnavailable reason => "git activity unavailable (" ++ reason ++ ")"
  | directiveIgnored directive => directive ++ " has no effect without a target file"
  | noFocusMatches area => "no files matched focus area '" ++ area.name ++ "'"

end RepoScope.Scope
