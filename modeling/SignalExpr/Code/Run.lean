import SignalExpr.Buffer
import SignalExpr.Code
import SignalExpr.Store.Memory

/-!
Running code. A run of an expression takes the state of the machine to a value and a new state;
operands run from left to right, and of a choice only the branch that is taken runs. The three
shapes run the same frames: once, or once per frame.
-/

namespace SignalExpr

/-- A function of the host. It sees the numbers of a call. -/
structure HostFunction where
  label : String
  apply : List Sample → Sample

/-- What a link symbol was resolved to. -/
inductive Binding where
  | routine (r : Routine)
  | host (f : HostFunction)
  /-- The entry of a compiled statement list. -/
  | compiled (handle : Nat)

/-- The symbols of a function with what they were resolved to. -/
abbrev Linkage := NameMap Binding

/-- What a call puts into an input slot. -/
inductive Slot where
  | number (x : Sample)
  | symbol (name : String)
  | buffer (samples : Array Sample)
deriving Inhabited

/-- What stays the same while a frame runs. -/
structure Context where
  links : Linkage
  slots : Array Slot
  /-- The number of frames of the call. -/
  frames : Int32
  /-- The number of the current frame. -/
  frame : Int32

/-- What changes while a frame runs. -/
structure Machine where
  memory : Memory
  outputs : Array (Array Sample)

namespace Context

/-- The number in a slot; zero if there is none. -/
def number (ctx : Context) (i : Nat) : Sample :=
  match ctx.slots[i]? with
  | some (.number x) => x
  | _ => 0

/-- The samples in a slot; none if it holds something else. -/
def buffer (ctx : Context) (i : Nat) : Array Sample :=
  match ctx.slots[i]? with
  | some (.buffer samples) => samples
  | _ => #[]

/-- The name of a table. -/
def symbol (ctx : Context) : SymbolRef → Option String
  | .named name => some name
  | .slot i =>
      match ctx.slots[i]? with
      | some (.symbol name) => some name
      | _ => none

/-- Calls what a routine was linked to. A function of the host is taken as pure: it sees the
numbers of the call and changes nothing. The entry of a statement list is called in another
convention than a routine, which leaves open what such a call does; that it gives zero and changes
nothing stands in for it. -/
def call (ctx : Context) (r : Routine) (numbers : List Sample) (m : Machine)
    (routine : Sample × Machine) : Sample × Machine :=
  match ctx.links.get? r.link with
  | some (.host f) => (f.apply numbers, m)
  | some (.compiled _) => (0, m)
  | _ => routine

/-- The cell of a table at an index, if the look-up is linked to the routine itself. -/
def cell? (ctx : Context) (m : Machine) (table : SymbolRef) (index : Sample) : Option Cell :=
  match ctx.links.get? Routine.cell.link with
  | some (.host _) | some (.compiled _) => none
  | _ => (ctx.symbol table).bind fun name => m.memory.tables.cell? name index

end Context

namespace Machine

/-- The samples of an output. -/
def output (m : Machine) (k : Nat) : Array Sample :=
  (m.outputs[k]?).getD #[]

/-- Stores the result of a statement. -/
def store (m : Machine) (k : Nat) (frame : Int32) (x : Sample) : Machine :=
  { m with outputs := m.outputs.modify k (·.setIfInBounds frame.toInt.toNat x) }

/-- Stores a sample in a cell. -/
def write (m : Machine) (cell : Option Cell) (x : Sample) : Machine :=
  { m with memory := { m.memory with tables := m.memory.tables.write cell x } }

/-- Takes a random number. -/
def random (m : Machine) (low high : Sample) : Sample × Machine :=
  let (x, g) := m.memory.random.between low high
  (x, { m with memory := { m.memory with random := g } })

/-- A property of a table; zero without a name. -/
def ofTable (m : Machine) (f : Tables → String → Sample) (name : Option String) : Sample :=
  (name.map (f m.memory.tables)).getD 0

end Machine

/-- Runs the code of an expression. -/
def Code.run (ctx : Context) : Code → Machine → Sample × Machine
  | .const x, m => (x, m)
  | .number i, m => (ctx.number i, m)
  | .vector i, m => (Buffer.sample (ctx.buffer i) ctx.frame.toInt, m)
  | .vectorAt i index, m =>
      let r := index.run ctx m
      (Buffer.sample (ctx.buffer i) (Buffer.clampPosition ctx.frames r.1).toInt, r.2)
  | .input i, m =>
      (Buffer.sample (ctx.buffer i) (Buffer.inputPosition ctx.frames ctx.frame).toInt, m)
  | .inputAt i offset, m =>
      let r := offset.run ctx m
      ctx.call .arrayRead [Buffer.historyIndex ctx.frames ctx.frame 0 r.1] r.2
        (Buffer.readInput (ctx.buffer i) ctx.frames ctx.frame r.1, r.2)
  | .outputAt k offset, m =>
      let r := offset.run ctx m
      ctx.call .arrayRead [Buffer.historyIndex ctx.frames ctx.frame (-1) r.1] r.2
        (Buffer.readOutput (r.2.output k) ctx.frames ctx.frame r.1, r.2)
  | .unary op e, m =>
      let r := e.run ctx m
      (op.apply r.1, r.2)
  | .binary op left right, m =>
      let l := left.run ctx m
      let r := right.run ctx l.2
      (op.apply l.1 r.1, r.2)
  | .trunc e, m =>
      let r := e.run ctx m
      (r.1.trunc, r.2)
  | .choose condition yes no, m =>
      let r := condition.run ctx m
      if r.1.toInt32 ≠ 0 then yes.run ctx r.2 else no.run ctx r.2
  | .call1 f x, m =>
      let r := x.run ctx m
      ctx.call (.unary f) [r.1] r.2 (f.apply r.1, r.2)
  | .call2 f x y, m =>
      let l := x.run ctx m
      let r := y.run ctx l.2
      ctx.call (.binary f) [l.1, r.1] r.2 (f.apply l.1 r.1, r.2)
  | .random low high, m =>
      let l := low.run ctx m
      let r := high.run ctx l.2
      ctx.call .random [l.1, r.1] r.2 (r.2.random l.1 r.1)
  | .size table, m =>
      ctx.call .tableSize [] m (m.ofTable Tables.length (ctx.symbol table), m)
  | .sum table, m =>
      ctx.call .tableSum [] m (m.ofTable Tables.sum (ctx.symbol table), m)
  | .rangeSum table first last, m =>
      let l := first.run ctx m
      let r := last.run ctx l.2
      ctx.call .tableRangeSum [l.1, r.1] r.2
        (r.2.ofTable (fun t name => t.rangeSum name l.1 r.1) (ctx.symbol table), r.2)
  | .readCell table index, m =>
      let r := index.run ctx m
      let cell := ctx.cell? r.2 table r.1
      ctx.call .deref [] r.2 (r.2.memory.tables.read cell, r.2)
  | .assignCell table index content, m =>
      let i := index.run ctx m
      let cell := ctx.cell? i.2 table i.1
      let r := content.run ctx i.2
      (r.1, r.2.write cell r.1)
  | .value name, m => ctx.call .valueGet [] m (m.memory.value name, m)
  | .assign name content, m =>
      let r := content.run ctx m
      ctx.call .valueAssign [r.1] r.2
        (r.1, { r.2 with memory := r.2.memory.setValue name r.1 })

namespace Code

/-- Runs statements from the one with number `k` on; each stores its result before the next one
runs. -/
def runStatements (ctx : Context) : Nat → List Code → Machine → Machine
  | _, [], m => m
  | k, c :: cs, m =>
      let r := c.run ctx m
      runStatements ctx (k + 1) cs (r.2.store k ctx.frame r.1)

/-- Runs all statements for one frame. -/
def runFrame (ctx : Context) (statements : List Code) (m : Machine) : Machine :=
  runStatements ctx 0 statements m

/-- Runs the frames from `first` on, `count` of them. -/
def runFrames (ctx : Context) (statements : List Code) : Nat → Nat → Machine → Machine
  | _, 0, m => m
  | first, count + 1, m =>
      let ctx := { ctx with frame := Int32.ofNat first }
      runFrames ctx statements (first + 1) count (runFrame ctx statements m)

end Code

end SignalExpr
