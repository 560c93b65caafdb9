import RepoScope.Text.Lines

/-!
# Options of a command line

How the arguments of a command are read. An argument that starts with two dashes names one option, with its
value behind an equals sign or as the next argument; one that starts with a single dash is a cluster of
one-letter options, of which the last may have a value. Two dashes alone end the options. All else is an
operand, or names a subcommand.

An option that takes a value stays *open* until its value has come, and its value is judged when the next
option or operand is taken. This decides which of two faults is reported.
-/

namespace RepoScope.Command

/-- What an option takes, and how often it may be given. -/
inductive Arity where
  /-- No value, once. -/
  | flag
  /-- No value; asks for help. -/
  | help
  /-- A value of this kind, once. -/
  | once (isValid : String → Bool)
  /-- Any value, as often as wanted. -/
  | repeatable

/-- An option. -/
structure Switch where
  /-- Its long name without the dashes. -/
  name : String
  /-- Its letter, if it has one. -/
  letter : Option Char
  arity : Arity

/-- What a command understands. -/
structure Grammar where
  switches : List Switch
  /-- Whether one operand may be given. -/
  takesOperand : Bool
  /-- The names of the subcommands. -/
  subcommands : List String

/-- Why a command line is refused. -/
inductive Refusal where
  | unknownArgument (argument : String)
  /-- An option without the value that it takes. -/
  | valueMissing (option : String)
  /-- A value that the option does not take. -/
  | valueInvalid (option value : String)
  /-- A value for an option that takes none. -/
  | valueUnneeded (option value : String)
  /-- An option given more than once. -/
  | repeated (option : String)
  | unknownCommand (word : String)
  /-- Options, but no command. -/
  | commandMissing
  /-- No arguments at all. -/
  | nothingGiven
  /-- Help is asked for. -/
  | helpWanted
  deriving DecidableEq

/-- What has been read of a command line. -/
structure Reading where
  /-- The options with their values, in order. Options without value have the empty one. -/
  options : List (String × String)
  operand : Option String
  /-- The open option: met but not yet taken, with its value if it has come. -/
  waiting : Option (Switch × Option String)
  /-- Whether the options are over. -/
  optionsEnded : Bool

namespace Reading

/-- Nothing read so far. -/
def start : Reading := ⟨[], none, none, false⟩

/-- Whether an option has been taken. -/
def has (r : Reading) (name : String) : Bool := r.options.any (·.1 == name)

/-- The values of an option, in order. -/
def values (r : Reading) (name : String) : List String :=
  (r.options.filter (·.1 == name)).map (·.2)

/-- The value of an option that is given at most once. -/
def value? (r : Reading) (name : String) : Option String := (r.values name).head?

/-- Takes an option with its value. -/
def record (r : Reading) (switch : Switch) (value : String) : Except Refusal Reading :=
  let taken := { r with options := r.options ++ [(switch.name, value)], waiting := none }
  match switch.arity with
  | .flag => if r.has switch.name then .error (.repeated switch.name) else .ok taken
  | .help => .error .helpWanted
  | .once isValid =>
    if r.has switch.name then .error (.repeated switch.name)
    else if isValid value then .ok taken
    else .error (.valueInvalid switch.name value)
  | .repeatable => .ok taken

/-- Takes the open option, if there is one. -/
def settle (r : Reading) : Except Refusal Reading :=
  match r.waiting with
  | none => .ok r
  | some (switch, none) => .error (.valueMissing switch.name)
  | some (switch, some value) => r.record switch value

/-- Meets an option, with the value that is written at it. -/
def meet (r : Reading) (switch : Switch) (attached : Option String) : Except Refusal Reading :=
  match switch.arity, attached with
  | .flag, none | .help, none => do (← r.settle).record switch ""
  | .flag, some value | .help, some value => .error (.valueUnneeded switch.name value)
  | .once _, none | .repeatable, none => do
    let r ← r.settle
    return { r with waiting := some (switch, none) }
  | .once _, some value | .repeatable, some value => do (← r.settle).record switch value

/-- Meets the options of a cluster. A value written at an option may follow an equals sign. -/
def meetCluster (g : Grammar) (r : Reading) : List Char → Except Refusal Reading
  | [] => .ok r
  | c :: rest =>
    match g.switches.find? (·.letter == some c) with
    | none => .error (.unknownArgument (String.ofList ['-', c]))
    | some switch =>
      match switch.arity, rest with
      | .flag, _ | .help, _ => do meetCluster g (← r.meet switch none) rest
      | .once _, [] | .repeatable, [] => r.meet switch none
      | .once _, '=' :: value | .repeatable, '=' :: value => r.meet switch (String.ofList value)
      | .once _, value | .repeatable, value => r.meet switch (String.ofList value)

/-- Meets the option of a long name, possibly with a value. -/
def meetLong (g : Grammar) (r : Reading) (text : List Char) : Except Refusal Reading :=
  let (name, value) := match Text.cutAt? ['='] text with
    | some (name, value) => (String.ofList name, some (String.ofList value))
    | none => (String.ofList text, none)
  match g.switches.find? (·.name == name) with
  | none => .error (.unknownArgument ("--" ++ name))
  | some switch => r.meet switch value

/-- Meets an operand. -/
def meetOperand (g : Grammar) (r : Reading) (word : String) : Except Refusal Reading :=
  if g.takesOperand ∧ r.operand = none then do
    let r ← r.settle
    return { r with operand := some word }
  else if g.subcommands = [] ∨ (r.optionsEnded ∧ word ∈ g.subcommands) then
    .error (.unknownArgument word)
  else .error (.unknownCommand word)

/-- Meets an argument before the end of the options that names no subcommand. -/
def meetArgument (g : Grammar) (r : Reading) (argument : String) : Except Refusal Reading :=
  match argument.toList with
  | ['-', '-'] => .ok { r with optionsEnded := true }
  | '-' :: '-' :: text => r.meetLong g text
  | '-' :: c :: cluster => r.meetCluster g (c :: cluster)
  | _ =>
    match r.waiting with
    | some (switch, none) => .ok { r with waiting := some (switch, some argument) }
    | _ => r.meetOperand g argument

/-- Whether an argument stands where a subcommand may stand: not in the place of a value. -/
def allowsCommand (r : Reading) : Bool :=
  !r.optionsEnded && !r.waiting matches some (_, none)

/-- Reads arguments up to a subcommand. The answer holds the subcommand with the arguments behind it. -/
def readFrom (g : Grammar) (r : Reading) :
    List String → Except Refusal (Reading × Option (String × List String))
  | [] => do return (← r.settle, none)
  | argument :: rest =>
    if r.optionsEnded then do readFrom g (← r.meetOperand g argument) rest
    else if r.allowsCommand ∧ argument ∈ g.subcommands then .ok (r, some (argument, rest))
    else do readFrom g (← r.meetArgument g argument) rest

end Reading

end RepoScope.Command
