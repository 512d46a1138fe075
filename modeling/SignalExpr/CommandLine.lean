import SignalExpr.Config.Read
import SignalExpr.Engine
import SignalExpr.Text.Blank

/-!
The command line: its options, and what a run with them prints.
-/

namespace SignalExpr.CommandLine

/-- What the arguments ask for. -/
structure Options where
  file : Option String := none
  exprs : List String := []
  shape : Option Shape := none
  ast : Bool := false
  listing : Bool := false
  config : Option String := none
  input : List Sample := []

/-- Why there are no options to run with. -/
inductive Refusal where
  /-- Arguments that make no sense. -/
  | usage
  /-- The caller asks for help. -/
  | help
deriving DecidableEq, Repr

/-- The options that take a value. -/
inductive Valued where
  | expr
  | shape
  | config
  | input
deriving DecidableEq, Repr

def Valued.ofLong? : String → Option Valued
  | "expr" => some .expr
  | "shape" => some .shape
  | "config" => some .config
  | "input" => some .input
  | _ => none

def Valued.ofShort? : Char → Option Valued
  | 'e' => some .expr
  | 's' => some .shape
  | _ => none

/-- Gives an option its value. Expressions and inputs add up, all else may be given once. A path is
not empty. -/
def Options.give (o : Options) (option : Valued) (value : String) : Except Refusal Options :=
  match option with
  | .expr => .ok { o with exprs := o.exprs ++ [value] }
  | .shape =>
      match o.shape, Shape.ofName? value with
      | none, some shape => .ok { o with shape := some shape }
      | _, _ => .error .usage
  | .config =>
      if o.config.isSome || value.isEmpty then .error .usage
      else .ok { o with config := some value }
  | .input =>
      match Sample.ofText? value.toList with
      | some x => .ok { o with input := o.input ++ [x] }
      | none => .error .usage

/-- Takes an argument that is no option. -/
def Options.positional (o : Options) (value : String) : Except Refusal Options :=
  if o.file.isSome || value.isEmpty then .error .usage
  else .ok { o with file := some value }

/-- Whether digits make a number: a point only behind a digit and before the exponent, and an
exponent only behind a digit and not at the end. -/
def isNumber (first seenPoint seenExponent : Bool) : List Char → Bool
  | [] => true
  | c :: cs =>
      if c.isDigit then isNumber false seenPoint seenExponent cs
      else if c == '.' && !first && !seenPoint && !seenExponent then
        isNumber false true seenExponent cs
      else if c == 'e' && !first && !seenExponent && !cs.isEmpty then
        isNumber false seenPoint true cs
      else false

/-- Whether an argument is taken for an option rather than for a value. -/
def isOption (option : Valued) (arg : List Char) : Bool :=
  match arg with
  | '-' :: rest =>
      !rest.isEmpty && !(option == .input && isNumber true false false rest)
  | _ => false

/-- A long option, with its value if that is attached. -/
def splitLong (cs : List Char) : String × Option String :=
  let name := String.ofList (cs.takeWhile (· != '='))
  match cs.dropWhile (· != '=') with
  | [] => (name, none)
  | _ :: value => (name, some (String.ofList value))

/-- The values behind an option that takes several. -/
def takeInputs (o : Options) : List String → Except Refusal (Options × List String)
  | [] => .ok (o, [])
  | arg :: args =>
      if isOption .input arg.toList then .ok (o, arg :: args)
      else do takeInputs (← o.give .input arg) args

/-- The value behind an option. -/
def takeValue (o : Options) (option : Valued) : List String → Except Refusal (Options × List String)
  | [] => .error .usage
  | arg :: args =>
      if isOption option arg.toList then .error .usage
      else do
        let o ← o.give option arg
        if option = .input then takeInputs o args else return (o, args)

/-- Sets an option without a value, which may be given once. -/
def Options.flag (o : Options) (name : String) : Except Refusal Options :=
  match name with
  | "ast" => if o.ast then .error .usage else .ok { o with ast := true }
  | "ir" => if o.listing then .error .usage else .ok { o with listing := true }
  | "help" => .error .help
  | _ => .error .usage

/-- Reads arguments; each takes at least one, so their number is fuel enough. -/
def readFrom : Nat → Options → List String → Except Refusal Options
  | 0, o, _ => .ok o
  | _ + 1, o, [] => .ok o
  | fuel + 1, o, arg :: args =>
      match arg.toList with
      | ['-', '-'] => args.foldlM Options.positional o
      | '-' :: '-' :: long =>
          let (name, value) := splitLong long
          match Valued.ofLong? name, value with
          | some option, some value => do readFrom fuel (← o.give option value) args
          | some option, none => do
              let (o, args) ← takeValue o option args
              readFrom fuel o args
          | none, some _ => .error .usage
          | none, none => do readFrom fuel (← o.flag name) args
      | '-' :: c :: rest =>
          match Valued.ofShort? c, rest with
          | some option, [] => do
              let (o, args) ← takeValue o option args
              readFrom fuel o args
          | some option, '=' :: value => do
              readFrom fuel (← o.give option (String.ofList value)) args
          | some option, value => do readFrom fuel (← o.give option (String.ofList value)) args
          | none, _ => .error (if c = 'h' then .help else .usage)
      | _ => do readFrom fuel (← o.positional arg) args

/-- Reads the arguments of a command line. -/
def Options.read (argv : List String) : Except Refusal Options :=
  readFrom argv.length {} argv

/-- The text that explains the options. -/
def helpText : String :=
  "JIT-compile audio expression statements to native code\n\n"
    ++ "Usage: jit-expr [OPTIONS] [FILE]\n\n"
    ++ "Arguments:\n"
    ++ "  [FILE]  File with one expression per line ('#' starts a comment line)\n\n"
    ++ "Options:\n"
    ++ "  -e, --expr <EXPRS>      Expression to compile, may be repeated\n"
    ++ "  -s, --shape <SHAPE>     Calling shape: scalar, block or sample [default: scalar]\n"
    ++ "      --ast               Print the typed AST\n"
    ++ "      --ir                Print the generated IR\n"
    ++ "      --config <CONFIG>   Config file (defaults to ~/.jit-expr/config.yaml)\n"
    ++ "      --input <INPUT>...  Input values for evaluating scalar expressions\n"
    ++ "  -h, --help              Print help\n"

/-- The files that a run can see. -/
structure Files where
  /-- The text at a path, if it can be read. -/
  read : String → Option String
  /-- The configuration in the home directory. -/
  home : Option String

/-- A piece of printed text. -/
inductive Printed where
  | text (s : String)
  /-- A listing and an empty line. -/
  | listing (s : String)

/-- Why a run fails. -/
inductive Failure where
  /-- The configuration cannot be read, or is none. -/
  | config (path : String)
  | file (path : String)
  | noExpressions
  | expression (text : String) (error : Error)

namespace Failure

def message : Failure → String
  | config path => s!"failed to load config {path}: no valid configuration"
  | file path => s!"failed to read {path}: no readable file"
  | noExpressions => "no expressions given (pass a file or -e)"
  | expression text error => text ++ ": " ++ error.message

end Failure

/-- What a run prints, and why it fails if it does. -/
structure Outcome where
  out : List Printed
  failure : Option Failure

/-- The exit code. -/
def Outcome.code (r : Outcome) : Nat :=
  if r.failure.isSome then 1 else 0

/-- The exit code of a refusal. -/
def Refusal.code : Refusal → Nat
  | usage => 2
  | help => 0

/-- The state between two expressions, with what was printed. -/
structure Progress where
  engine : Engine
  memory : Memory
  out : List Printed

/-- The expressions in the lines of a file. Blank lines and lines that begin with `#` hold none. -/
def expressionsOf (text : String) : List String :=
  (text.toList.splitOn '\n').map Text.trimBlanks
    |>.filter (fun l => !l.isEmpty && l.head? != some '#')
    |>.map String.ofList

/-- The line that reports a compiled function. -/
def report (f : Compiled) : String :=
  f.name ++ ": " ++ f.shape.name ++ " function, " ++ toString f.outputs ++ " output(s), inputs ["
    ++ ", ".intercalate (f.inputs.map Variable.text) ++ "]\n"

/-- The line that reports results. -/
def reportResults (xs : List Sample) : String :=
  "= " ++ ", ".intercalate (xs.map Sample.Layout.result.write) ++ "\n"

/-- Whether all inputs of a function are numbers. -/
def isNumeric (f : Compiled) : Bool :=
  f.inputs.all fun v => v.kind == .float || v.kind == .int

/-- Compiles one expression, reports it, and evaluates it if there are inputs for it. What was
printed before a failure stays. -/
def runOne (o : Options) (shape : Shape) (state : Progress) (text : String) :
    Progress × Option Error :=
  match Program.parse text with
  | .error e => (state, some e)
  | .ok p =>
      let out := if o.ast then state.out ++ [.text p.render] else state.out
      match state.engine.compile p shape with
      | .error cause => ({ state with out }, some (.ofCause cause))
      | .ok (f, engine) =>
          let listing := (f.listing.map Printed.listing).toList
          let out := out ++ .text (report f) :: listing
          if !o.input.isEmpty && shape == .scalar && isNumeric f then
            match f.eval (o.input.map .number) state.memory with
            | .error cause => (⟨engine, state.memory, out⟩, some (.ofCause cause))
            | .ok (xs, memory) => (⟨engine, memory, out ++ [.text (reportResults xs)]⟩, none)
          else (⟨engine, state.memory, out⟩, none)

/-- Runs one expression after another up to the first failure. -/
def runAll (o : Options) (shape : Shape) : Progress → List String → Outcome
  | state, [] => ⟨state.out, none⟩
  | state, text :: texts =>
      match runOne o shape state text with
      | (state, none) => runAll o shape state texts
      | (state, some e) => ⟨state.out, some (.expression text e)⟩

/-- The configuration of a run. A file that was asked for has to hold one; the one in the home
directory counts only if it does. -/
def Options.chooseConfig (o : Options) (files : Files) : Except Failure Config :=
  match o.config with
  | none => .ok ((files.home.bind Config.read).getD {})
  | some path =>
      match (files.read path).bind Config.read with
      | none => .error (.config path)
      | some config => .ok config

/-- The expressions of a run: those of the command line before those of the file. -/
def Options.expressions (o : Options) (files : Files) : Except Failure (List String) := do
  let exprs ←
    match o.file with
    | none => pure o.exprs
    | some path =>
        match files.read path with
        | none => throw (.file path)
        | some text => pure (o.exprs ++ expressionsOf text)
  if exprs.isEmpty then throw .noExpressions else return exprs

/-- Runs with options. A bad configuration is reported before a bad file. -/
def Options.run (o : Options) (files : Files) : Outcome :=
  let task : Except Failure (Config × List String) := do
    let config ← o.chooseConfig files
    return (config, ← o.expressions files)
  match task with
  | .error failure => ⟨[], some failure⟩
  | .ok (config, exprs) =>
      let config := { config with keepListing := config.keepListing || o.listing }
      runAll o (o.shape.getD .scalar) ⟨.new config, .initial, []⟩ exprs

end SignalExpr.CommandLine
