import SignalExpr.Code.Run
import SignalExpr.History
import SignalExpr.Shape
import SignalExpr.Text.Quoted

/-!
Compiled functions and their calls. A call is checked in full before anything runs, so a refused
call changes nothing and an accepted one always ends with results.
-/

namespace SignalExpr

/-- What a caller passes for one input slot. -/
inductive Argument where
  | number (x : Sample)
  | symbol (name : String)
  | vector (samples : Array Sample)
  | history (h : InputHistory)

/-- An argument in messages. -/
def Argument.describe : Argument → String
  | number _ => "a float"
  | symbol _ => "a symbol"
  | vector _ => "a vector"
  | history _ => "an input history"

/-- The slot for an argument, if the argument fits the variable in a call with this number of
frames. A block has to cover the frames, an input history has to hold exactly two blocks. -/
def Argument.slot? (frames : Nat) (kind : VariableKind) (arg : Argument) : Option Slot :=
  match kind, arg with
  | .float, number x => some (.number x)
  | .int, number x => some (.number x.trunc)
  | .symbol, symbol name => some (.symbol name)
  | .vector, vector samples =>
      if frames ≤ samples.size then some (.buffer samples) else none
  | .input, vector samples =>
      if samples.size = frames * 2 then some (.buffer samples) else none
  | .input, history h => if h.frames = frames then some (.buffer h.samples) else none
  | _, _ => none

/-- A statement list that is ready to be called. -/
structure Compiled where
  name : String
  handle : Nat
  shape : Shape
  inputs : List Variable
  statements : List Code
  links : Linkage
  listing : Option String

namespace Compiled

/-- The number of outputs, one for each statement. -/
def outputs (f : Compiled) : Nat := f.statements.length

/-- One variable in the text form of a function. -/
def describeVariable (v : Variable) : String :=
  "Variable \x7b kind: " ++ v.kind.label ++ ", index: " ++ toString v.index ++ " \x7d"

/-- The text form of a function. -/
def describe (f : Compiled) : String :=
  "CompiledFunction \x7b name: " ++ Text.quote f.name ++ ", handle: " ++ toString f.handle
    ++ ", shape: " ++ f.shape.label ++ ", outputs: " ++ toString f.outputs ++ ", inputs: ["
    ++ ", ".intercalate (f.inputs.map describeVariable) ++ "] \x7d"

/-- The slots for arguments, from the one with number `i` on. The first argument that does not
fit is refused. -/
def packFrom (frames : Nat) : Nat → List Variable → List Argument → Except Cause (List Slot)
  | i, v :: vs, arg :: args =>
      match arg.slot? frames v.kind with
      | some slot => return slot :: (← packFrom frames (i + 1) vs args)
      | none => .error (.wrongArgument i v arg.describe frames)
  | _, _, _ => .ok []

/-- The slots of a call. -/
def pack (f : Compiled) (frames : Nat) (args : List Argument) : Except Cause (Array Slot) := do
  if args.length ≠ f.inputs.length then
    throw (.wrongArgumentCount f.name f.inputs.length args.length)
  let slots ← packFrom frames 0 f.inputs args
  return slots.toArray

/-- Whether a buffer can take the results of so many frames. -/
def fits (shape : Shape) (frames length : Nat) : Bool :=
  match shape with
  | .sample => length == frames
  | _ => decide (frames ≤ length)

/-- Refuses the first output buffer, from the one with number `k` on, of a wrong length. -/
def checkOutputs (shape : Shape) (frames : Nat) : Nat → List (Array Sample) → Except Cause Unit
  | _, [] => .ok ()
  | k, out :: outs =>
      if fits shape frames out.size then checkOutputs shape frames (k + 1) outs
      else .error (.wrongOutputLength k out.size frames)

/-- The greatest number of frames of a call. -/
def maxFrames : Nat := 0x7fffffff

/-- Evaluates a scalar function once. -/
def eval (f : Compiled) (args : List Argument) (memory : Memory) :
    Except Cause (List Sample × Memory) := do
  if f.shape ≠ .scalar then throw (.useProcess f.name f.shape)
  let slots ← f.pack 0 args
  let ctx : Context := ⟨f.links, slots, 0, 0⟩
  let m := Code.runFrame ctx f.statements ⟨memory, Array.replicate f.outputs #[0]⟩
  return (m.outputs.toList.map (Buffer.sample · 0), m.memory)

/-- Runs a block or sample function over a number of frames and gives back the output buffers.
The buffers of a sample function are also its output histories. -/
def process (f : Compiled) (outs : List (Array Sample)) (args : List Argument) (frames : Nat)
    (memory : Memory) : Except Cause (List (Array Sample) × Memory) := do
  if f.shape = .scalar then throw (.useEval f.name)
  if maxFrames < frames then throw (.tooManyFrames frames)
  if outs.length ≠ f.outputs then throw (.wrongOutputs f.name f.outputs outs.length)
  checkOutputs f.shape frames 0 outs
  let slots ← f.pack frames args
  let ctx : Context := ⟨f.links, slots, Int32.ofNat frames, 0⟩
  let m := Code.runFrames ctx f.statements 0 frames ⟨memory, outs.toArray⟩
  return (m.outputs.toList, m.memory)

end Compiled

end SignalExpr
