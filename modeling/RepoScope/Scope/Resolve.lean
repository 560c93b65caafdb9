import RepoScope.Scope.Basic

/-!
# Selection

Which candidates a request selects, and in which role and mode. With a target and its dependencies, these are
all; otherwise a candidate is selected if it is being edited, or if it belongs to the focus area and has
changed where only changes are asked for. A secret is never selected, except that a target is listed without
being shown.
-/

namespace RepoScope.Scope

/-- What selection needs to know beside the directives. -/
structure Inputs where
  candidates : List Candidate
  target : Option Candidate
  /-- What the target imports, if only that is asked for. -/
  dependencies : Option (List Candidate)
  /-- The changed files, if only these are asked for. -/
  changed : Option (List String)
  /-- The files being edited, which are selected in any case. -/
  activity : Option (List String)
  /-- Whether the target leads to a secret under another name. -/
  withhold : Bool

/-- The selected files in the order of their paths, and what is said about the selection. -/
structure Resolution where
  files : List ScopedFile
  warnings : List Warning

/-- Whether a path is that of the target. -/
def Inputs.isTarget (i : Inputs) (path : String) : Bool :=
  i.target.any (·.path == path)

/-- The target as a selected file. -/
def Inputs.targetFile (i : Inputs) : List ScopedFile :=
  i.target.toList.map fun target =>
    { candidate := target, role := .target
      mode := if i.withhold || Secret.isSensitive target.path then .excluded else .full }

/-- The mode of all files but the target. -/
def Inputs.contextMode (i : Inputs) (d : Directives) : Mode :=
  if i.target.isSome && d.skeletonContext then .skeleton else .full

/-- Whether a file other than the target may be selected. -/
def Inputs.isEligible (i : Inputs) (c : Candidate) : Bool :=
  !i.isTarget c.path && !Secret.isSensitive c.path

/-- Whether a path is being edited. -/
def Inputs.isActive (i : Inputs) (path : String) : Bool :=
  i.activity.any (·.contains path)

/-- Whether a path passes the filter for changes. -/
def Inputs.passesChanges (i : Inputs) (path : String) : Bool :=
  i.changed.all (·.contains path)

/-- Whether an eligible candidate is selected. -/
def Inputs.selects (i : Inputs) (d : Directives) (path : String) : Bool :=
  i.isActive path || (d.focus.isMatch path && i.passesChanges path)

/-- The role of a selected candidate. -/
def Inputs.roleOf (i : Inputs) (path : String) : Role :=
  if i.isActive path || (i.changed.isSome && i.passesChanges path) then .changed
  else if Focus.isConfigFile path then .config
  else .normal

/-- Selected files in the order of their paths; of files with one path, the first one stays. -/
def inPathOrder (files : List ScopedFile) : List ScopedFile :=
  dropRepeats (Sorting.sorted (fun a b => a.path ≤ b.path) files)
where
  /-- Files in the order of their paths without those whose path is that of the file before. -/
  dropRepeats : List ScopedFile → List ScopedFile
    | [] => []
    | f :: rest =>
      f :: (dropRepeats rest).dropWhile (·.path == f.path)

/-- The warnings about directives that need a target. -/
def Inputs.ignoredDirectives (i : Inputs) (d : Directives) : List Warning :=
  if i.target.isSome then []
  else
    (if d.treeShake then [.directiveIgnored "tree shaking"] else []) ++
    (if d.skeletonContext then [.directiveIgnored "skeleton context"] else [])

/-- The warning about a focus area without candidates. -/
def Inputs.focusWarnings (i : Inputs) (d : Directives) : List Warning :=
  if d.focus ≠ .none && !i.candidates.isEmpty &&
      !i.candidates.any (fun c => i.isEligible c && d.focus.isMatch c.path) then
    [.noFocusMatches d.focus]
  else []

/-- The files that a request selects. -/
def resolve (i : Inputs) (d : Directives) : Resolution :=
  let mode := i.contextMode d
  match i.target, i.dependencies with
  | some _, some dependencies =>
    { files := inPathOrder (i.targetFile ++
        (dependencies.filter i.isEligible).map fun c => ⟨c, .dependency, mode⟩)
      warnings := i.ignoredDirectives d }
  | _, _ =>
    { files := inPathOrder (i.targetFile ++
        (i.candidates.filter fun c => i.isEligible c && i.selects d c.path).map fun c =>
          ⟨c, i.roleOf c.path, mode⟩)
      warnings := i.ignoredDirectives d ++ i.focusWarnings d }

end RepoScope.Scope
