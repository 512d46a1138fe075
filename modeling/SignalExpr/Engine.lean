import SignalExpr.Code.Listing
import SignalExpr.Code.Lower
import SignalExpr.Compiled
import SignalExpr.Config

/-!
The engine compiles statement lists one after another. A link symbol is resolved when a function
is compiled: to the newest function exported under it, else to what the host has registered, which
at first are the routines.
-/

namespace SignalExpr

/-- An exported function: its name and its handle. -/
structure Export where
  name : String
  handle : Nat
deriving DecidableEq, Repr

/-- What symbols can be resolved to. -/
structure Linker where
  /-- Exported functions, the newest first. -/
  exports : List Export
  /-- Functions that the host provides. -/
  hosts : Linkage

namespace Linker

/-- The routines as bindings of their symbols. -/
def routines : Linkage :=
  Routine.all.foldl (fun links r => links.insert r.link (.routine r)) .empty

/-- A linker that knows the routines. -/
def initial : Linker := ⟨[], routines⟩

/-- The newest function exported under a name. -/
def exported? (l : Linker) (name : String) : Option Nat :=
  (l.exports.find? (·.name == name)).map Export.handle

/-- What a symbol is resolved to: exported functions come before the host. -/
def resolve? (l : Linker) (name : String) : Option Binding :=
  match l.exported? name with
  | some handle => some (.compiled handle)
  | none => l.hosts.get? name

/-- Provides a function of the host under a name. -/
def register (l : Linker) (name : String) (f : HostFunction) : Linker :=
  { l with hosts := l.hosts.insert name (.host f) }

/-- Exports a function. -/
def addExport (l : Linker) (name : String) (handle : Nat) : Linker :=
  { l with exports := ⟨name, handle⟩ :: l.exports }

/-- Resolves all symbols, or refuses the first one that nothing provides. -/
def link (l : Linker) : List String → Except Cause Linkage
  | [] => .ok .empty
  | name :: names =>
      match l.resolve? name with
      | none => .error (.unresolved name)
      | some binding => return (← l.link names).insert name binding

end Linker

/-- A compiler with the functions that it has compiled. -/
structure Engine where
  config : Config
  linker : Linker
  nextHandle : Nat

namespace Engine

def new (config : Config) : Engine := ⟨config, .initial, 0⟩

/-- The number of functions compiled so far. -/
def modules (e : Engine) : Nat := e.linker.exports.length

/-- The newest function exported under a name. -/
def lookup (e : Engine) (name : String) : Option Nat := e.linker.exported? name

def register (e : Engine) (name : String) (f : HostFunction) : Engine :=
  { e with linker := e.linker.register name f }

/-- The symbols that statements import, in the order in which they are met, each once. -/
def importsOf (statements : List Code) : List String :=
  ((statements.flatMap Code.imports).map Routine.link).eraseDups

/-- The function of compiled statements, and the engine with that function exported. -/
def emit (e : Engine) (p : Program) (shape : Shape) (name : String) (statements : List Code)
    (links : Linkage) : Compiled × Engine :=
  ({ name, handle := e.nextHandle, shape, inputs := p.inputs, statements, links,
     listing := if e.config.keepListing then some (Code.listing statements) else none },
   { e with
     linker := e.linker.addExport name e.nextHandle
     nextHandle := e.nextHandle + 1 })

/-- Compiles a statement list and exports it under a name, which must not be one that it
imports. -/
def compileAs (e : Engine) (p : Program) (shape : Shape) (name : String) :
    Except Cause (Compiled × Engine) := do
  let statements ← p.code shape
  let imports := importsOf statements
  let links ← e.linker.link imports
  if imports.contains name then throw (.exportedImport name)
  else return e.emit p shape name statements links

/-- The name of a function that is exported without one. -/
def defaultName (handle : Nat) : String :=
  s!"jit_expr_fn_{handle}"

/-- Compiles a statement list under the next default name. -/
def compile (e : Engine) (p : Program) (shape : Shape) : Except Cause (Compiled × Engine) :=
  e.compileAs p shape (defaultName e.nextHandle)

end Engine

end SignalExpr
