import Chiptune.Compile

/-!
# The command line

What the program is asked to do, and how it does that with the files of its host. The host is a
parameter, so that nothing here depends on a real one.

Arguments are read from left to right, and the first fault decides. Options have long names and
some also a letter; letters can be joined, and a value can follow its option at once.

## Main definitions

* `Arguments`, `Arguments.parse` — the arguments of the program.
* `Host` — the files and streams around it.
* `runProgram` — what the program does.
-/

namespace Chiptune

/-- The arguments that were given. -/
structure Arguments where
  /-- The file that is written. -/
  output : Option String := none
  /-- The file with the script; otherwise it is read from the standard input. -/
  input : Option String := none
  /-- The name of the platform. -/
  target : Option String := none
  /-- The assembler. -/
  dialect : Option Dialect := none
  /-- Whether warnings stop the compilation. -/
  warningsAsErrors : Bool := false
  /-- Whether the output is JSON. -/
  structured : Bool := false
  /-- Whether the platforms are to be listed. -/
  listTargets : Bool := false
  deriving Repr

/-- What the arguments ask for. -/
inductive Request where
  /-- The arguments make no sense. -/
  | misuse
  /-- The version of the program. -/
  | version
  /-- How the program is used. -/
  | help
  /-- The names of the platforms. -/
  | listTargets
  /-- A compilation. -/
  | compile (args : Arguments) (output : String)
  deriving Repr

namespace Arguments

/-- An option with a value. -/
inductive Setting where
  | input
  | target
  | dialect
  deriving DecidableEq

/-- An option without a value. -/
inductive Switch where
  | warningsAsErrors
  | structured
  | listTargets
  deriving DecidableEq

/-- What a name stands for. -/
inductive Choice where
  /-- An option with a value. -/
  | setting (s : Setting)
  /-- An option without a value. -/
  | switch (s : Switch)
  /-- The request for the version. -/
  | version
  /-- The request for help. -/
  | help

/-- The options by their long names. -/
def byName? : String → Option Choice
  | "input" => some (.setting .input)
  | "target" => some (.setting .target)
  | "syntax" => some (.setting .dialect)
  | "warnings-as-errors" => some (.switch .warningsAsErrors)
  | "json" => some (.switch .structured)
  | "list-targets" => some (.switch .listTargets)
  | "version" => some .version
  | "help" => some .help
  | _ => none

/-- The options by their letters. -/
def byLetter? : Char → Option Choice
  | 'i' => some (.setting .input)
  | 't' => some (.setting .target)
  | 'W' => some (.switch .warningsAsErrors)
  | 'L' => some (.switch .listTargets)
  | 'V' => some .version
  | 'h' => some .help
  | _ => none

/-- Gives an option its value. An option can be given once, and files have a name. -/
def set? (a : Arguments) (s : Setting) (value : String) : Option Arguments :=
  match s with
  | .input => if a.input.isSome ∨ value = "" then none else some { a with input := some value }
  | .target => if a.target.isSome then none else some { a with target := some value }
  | .dialect =>
    if a.dialect.isSome then none
    else (Dialect.ofTag? value).map fun d => { a with dialect := some d }

/-- Switches an option on. An option can be given once. -/
def switchOn? (a : Arguments) : Switch → Option Arguments
  | .warningsAsErrors =>
    if a.warningsAsErrors then none else some { a with warningsAsErrors := true }
  | .structured => if a.structured then none else some { a with structured := true }
  | .listTargets => if a.listTargets then none else some { a with listTargets := true }

/-- Takes the name of the output. There is only one. -/
def place? (a : Arguments) (value : String) : Option Arguments :=
  if a.output.isSome ∨ value = "" then none else some { a with output := some value }

/-- What the arguments ask for when all are read. -/
def request (a : Arguments) : Request :=
  if a.listTargets then .listTargets
  else
    match a.output with
    | some output => .compile a output
    | none => .misuse

/-- Reads arguments after the mark that ends the options. -/
def parsePlain (a : Arguments) : List String → Request
  | [] => a.request
  | arg :: args =>
    match a.place? arg with
    | some a => parsePlain a args
    | none => .misuse

/-- What letters that are joined ask for. -/
inductive Letters where
  /-- They make no sense. -/
  | misuse
  /-- The version. -/
  | version
  /-- Help. -/
  | help
  /-- Options that are complete. -/
  | done (a : Arguments)
  /-- The last one needs the next argument for its value. -/
  | pending (a : Arguments) (s : Setting)

/-- Reads letters that are joined. -/
def parseLetters (a : Arguments) : List Char → Letters
  | [] => .done a
  | c :: cs =>
    match byLetter? c with
    | none => .misuse
    | some .version => .version
    | some .help => .help
    | some (.switch s) =>
      match a.switchOn? s with
      | some a => parseLetters a cs
      | none => .misuse
    | some (.setting s) =>
      let value? := match cs with
        | [] => none
        | '=' :: value => some (String.ofList value)
        | value => some (String.ofList value)
      match value? with
      | none => .pending a s
      | some value =>
        match a.set? s value with
        | some a => .done a
        | none => .misuse

/-- Reads a long option. Its value may follow an equals sign. -/
def parseLong (a : Arguments) (cs : List Char) : Letters :=
  let name := String.ofList (cs.takeWhile (· ≠ '='))
  let value? := match cs.dropWhile (· ≠ '=') with
    | [] => none
    | _ :: value => some (String.ofList value)
  match byName? name, value? with
  | some (.setting s), some value =>
    match a.set? s value with
    | some a => .done a
    | none => .misuse
  | some (.setting s), none => .pending a s
  | some (.switch s), none =>
    match a.switchOn? s with
    | some a => .done a
    | none => .misuse
  | some .version, none => .version
  | some .help, none => .help
  | _, _ => .misuse

/-- Whether an argument looks like an option. -/
def isOption (arg : String) : Bool :=
  match arg.toList with
  | '-' :: _ :: _ => true
  | _ => false

/-- Reads arguments. -/
def parseFrom (a : Arguments) : List String → Request
  | [] => a.request
  | arg :: args =>
    if arg = "--" then parsePlain a args
    else
      let letters := match arg.toList with
        | '-' :: '-' :: cs => a.parseLong cs
        | '-' :: c :: cs => a.parseLetters (c :: cs)
        | _ =>
          match a.place? arg with
          | some a => .done a
          | none => .misuse
      match letters, args with
      | .misuse, _ => .misuse
      | .version, _ => .version
      | .help, _ => .help
      | .done a, args => parseFrom a args
      | .pending _ _, [] => .misuse
      | .pending a s, value :: args =>
        if isOption value then .misuse
        else
          match a.set? s value with
          | some a => parseFrom a args
          | none => .misuse

/-- What some arguments ask for. -/
def parse (args : List String) : Request := parseFrom {} args

/-- The options of the compilation that the arguments ask for. -/
def options (a : Arguments) : Except Error Options := do
  let target ← a.target.mapM Platform.ofName
  return { Options.default with
    warningsAsErrors := a.warningsAsErrors, target := target, dialect := a.dialect }

end Arguments

/-- The files and streams around the program. -/
structure Host (m : Type → Type) where
  /-- All of the standard input. -/
  stdin : m (List UInt8)
  /-- The bytes of a file, if it can be read. -/
  load : String → m (Option (List UInt8))
  /-- Writes a file, and tells whether that was possible. -/
  save : String → String → m Bool
  /-- Writes to the standard output. -/
  print : String → m Unit
  /-- Writes to the standard error. -/
  printError : String → m Unit

/-- How the program ends. -/
inductive Outcome where
  /-- It did what it was asked to do. -/
  | done
  /-- It could not do that. -/
  | failed (e : Error)
  /-- It could not tell what it was asked to do. -/
  | misuse
  deriving Repr

/-- The exit code of the program. -/
def Outcome.code : Outcome → UInt32
  | done => 0
  | failed _ => 1
  | misuse => 2

/-- The name and the version of the program. -/
def versionText : String := "chipmml 0.1.0\n"

/-- How the program is used. -/
def usageText : String := "Usage: chipmml [OPTIONS] [OUTPUT]\n"

/-- The names of the platforms, each with its description on a line. -/
def targetList : String :=
  String.join (Platform.all.map fun p => Text.padRight 10 p.name ++ " " ++ p.description ++ "\n")

section Run

variable {m : Type → Type} [Monad m]

/-- Compiles, and tells how many warnings there were. The name of the platform is looked at before
the script is read, and the output is written at the end. -/
def runCompile (host : Host m) (args : Arguments) (output : String) : m Outcome := do
  match args.options with
  | .error e => return .failed e
  | .ok options =>
    let source ← match args.input with
      | some path => host.load path
      | none => some <$> host.stdin
    match source with
    | none => return .failed .file
    | some bytes =>
      match compileText options args.structured bytes with
      | .error e => return .failed e
      | .ok (text, warnings) =>
        if ← host.save output text then
          if !warnings.isEmpty then host.printError s!"{warnings.size} warning(s)\n"
          return .done
        else return .failed .file

/-- What the program does. -/
def runProgram (host : Host m) (args : List String) : m Outcome := do
  match Arguments.parse args with
  | .misuse => return .misuse
  | .version =>
    host.print versionText
    return .done
  | .help =>
    host.print usageText
    return .done
  | .listTargets =>
    host.print targetList
    return .done
  | .compile args output => runCompile host args output

end Run

end Chiptune
