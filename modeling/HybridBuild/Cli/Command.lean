import HybridBuild.Path
/-!
# The command line

There are three commands: `build` writes the manifest of a module list, `scripts`
writes the scripts that would ask Bazel about it, and `actions` prints the build
statements of a saved report. An option's value follows it as the next argument or
after an equals sign, and is never empty; no option is given twice; after `--` every
argument is positional.
-/
namespace HybridBuild.Cli

/-- What the command line asks for. -/
inductive Command where
  | build (modules out : Path) (moduleList : Option Path)
  | scripts (modules out : Path)
  | actions (file : Path) (json : Bool)
  deriving DecidableEq, Repr

/-- The options of a command: those with a value, those without, and how many
positional arguments it takes. -/
structure Options where
  valued : List String
  flags : List String
  positionals : Nat

/-- The arguments read so far, the latest first. -/
structure Given where
  values : List (String × String)
  flags : List String
  positionals : List String

/-- Adds a value, which must be new and not empty. -/
def Given.addValue? (g : Given) (name value : String) : Option Given :=
  if value.isEmpty || (g.values.lookup name).isSome then none
  else some { g with values := (name, value) :: g.values }

/-- Adds a flag, which must be new. -/
def Given.addFlag? (g : Given) (name : String) : Option Given :=
  if g.flags.contains name then none else some { g with flags := name :: g.flags }

/-- Adds a positional argument, if there is room for it. -/
def Given.addPositional? (g : Given) (o : Options) (arg : String) : Option Given :=
  if arg.isEmpty || o.positionals ≤ g.positionals.length then none
  else some { g with positionals := g.positionals ++ [arg] }

/-- Whether an argument is an option rather than a value. -/
def looksLikeOption (arg : String) : Bool :=
  "-".toList.isPrefixOf arg.toList && arg ≠ "-"

/-- The flag that asks for more output, which every command takes. -/
def verboseFlag : String := "--verbose"

def flagName (arg : String) : String := if arg = "-v" then verboseFlag else arg

/-- Splits an option from the value after its equals sign. -/
def splitOption (arg : String) : String × Option String :=
  match arg.toList.span (· ≠ '=') with
  | (name, _ :: value) => (String.ofList name, some (String.ofList value))
  | (name, []) => (String.ofList name, none)

/-- Reads the arguments of a command. -/
def readArgs? (o : Options) (g : Given) : List String → Option Given
  | [] => some g
  | arg :: rest =>
    if arg = "--" then rest.foldlM (fun g arg => g.addPositional? o arg) g
    else if !looksLikeOption arg then do readArgs? o (← g.addPositional? o arg) rest
    else
      match splitOption arg with
      | (name, some value) =>
        if o.valued.contains name then do readArgs? o (← g.addValue? name value) rest
        else none
      | (name, none) =>
        if o.valued.contains name then
          match rest with
          | value :: rest =>
            if looksLikeOption value then none
            else do readArgs? o (← g.addValue? name value) rest
          | [] => none
        else if (verboseFlag :: o.flags).contains (flagName name) then
          do readArgs? o (← g.addFlag? (flagName name)) rest
        else none

def defaultOut : String := "out"

/-- Reads the arguments after the name of a command. -/
def commandOf? (name : String) (args : List String) : Option Command :=
  match name with
  | "build" => do
    let g ← readArgs? ⟨["--modules", "--out", "--module-list"], [], 0⟩ ⟨[], [], []⟩ args
    let modules ← g.values.lookup "--modules"
    let out := (g.values.lookup "--out").getD defaultOut
    return .build ⟨modules⟩ ⟨out⟩ ((g.values.lookup "--module-list").map Path.mk)
  | "scripts" => do
    let g ← readArgs? ⟨["--modules", "--out"], [], 0⟩ ⟨[], [], []⟩ args
    let modules ← g.values.lookup "--modules"
    return .scripts ⟨modules⟩ ⟨(g.values.lookup "--out").getD defaultOut⟩
  | "actions" => do
    let g ← readArgs? ⟨[], ["--json"], 1⟩ ⟨[], [], []⟩ args
    match g.positionals with
    | [file] => return .actions ⟨file⟩ (g.flags.contains "--json")
    | _ => none
  | _ => none

/-- Reads the command line: a command, which the flag for more output may precede. -/
def parse? : List String → Option Command
  | flag :: name :: args =>
    if flagName flag = verboseFlag then commandOf? name args else commandOf? flag (name :: args)
  | args => args.head?.bind fun name => commandOf? name args.tail

end HybridBuild.Cli
