import SignalExpr.Proofs.FrameRuns

/-!
Which calls of a compiled function are accepted, said by the data that the caller passes. A call
is made in place: if it is accepted it ends with results in the caller's buffers, and if it is
refused the caller's data and the shared memory are what they were.
-/

namespace SignalExpr

/-- An argument that can be passed for a variable of a kind. A block covers the frames; an input
history is a buffer of exactly two blocks. -/
inductive Argument.Fits (frames : Nat) : VariableKind → Argument → Prop where
  | float (x : Sample) : Fits frames .float (.number x)
  | int (x : Sample) : Fits frames .int (.number x)
  | symbol (name : String) : Fits frames .symbol (.symbol name)
  | vector {samples : Array Sample} (size : frames ≤ samples.size) :
      Fits frames .vector (.vector samples)
  | input {samples : Array Sample} (size : samples.size = 2 * frames) :
      Fits frames .input (.vector samples)
  | history {h : InputHistory} (size : h.frames = frames) : Fits frames .input (.history h)

theorem Argument.fits_iff {frames : Nat} {kind : VariableKind} {arg : Argument} :
    arg.Fits frames kind ↔ ∃ slot, arg.slot? frames kind = some slot := by
  constructor
  · intro h
    cases h with
    | float | int | symbol => exact ⟨_, rfl⟩
    | vector size => exact ⟨_, if_pos size⟩
    | input size => exact ⟨_, if_pos (size.trans (Nat.mul_comm 2 frames))⟩
    | history size => exact ⟨_, if_pos size⟩
  · rintro ⟨slot, h⟩
    unfold slot? at h
    split at h
    case h_1 x => exact .float x
    case h_2 x => exact .int x
    case h_3 name => exact .symbol name
    case h_4 => exact .vector (Option.ite_none_right_eq_some.mp h).1
    case h_5 => exact .input ((Option.ite_none_right_eq_some.mp h).1.trans (Nat.mul_comm _ _))
    case h_6 => exact .history (Option.ite_none_right_eq_some.mp h).1
    case h_7 => cases h

/-- What a caller passes to a function, and what all calls share. The output histories of a
sample function are its output buffers; input histories are among the arguments. -/
structure CallState where
  outs : List (Array Sample)
  args : List Argument
  memory : Memory

inductive Request where
  | eval
  | process (frames : Nat)

namespace Compiled

/-- Makes a call in place. A single evaluation gives its results back, a run over frames leaves
them in the output buffers. -/
def call (f : Compiled) (s : CallState) : Request → Except Cause (List Sample) × CallState
  | .eval =>
      match f.eval s.args s.memory with
      | .ok (results, memory) => (.ok results, { s with memory })
      | .error cause => (.error cause, s)
  | .process frames =>
      match f.process s.outs s.args frames s.memory with
      | .ok (outs, memory) => (.ok [], { s with outs, memory })
      | .error cause => (.error cause, s)

/-- There are as many arguments as inputs, and each fits its variable. -/
def AcceptsArguments (f : Compiled) (frames : Nat) (args : List Argument) : Prop :=
  List.Forall₂ (fun v arg => Argument.Fits frames v.kind arg) f.inputs args

structure AcceptsFrames (f : Compiled) (frames : Nat) (s : CallState) : Prop where
  looped : f.shape.isLooped = true
  frames_le : (frames : Int) ≤ Int32.maxValue.toInt
  length_outs : s.outs.length = f.outputs
  size_outs : ∀ out ∈ s.outs, frames ≤ out.size ∧ (f.shape = .sample → out.size = frames)
  args : f.AcceptsArguments frames s.args

def Accepts (f : Compiled) (s : CallState) : Request → Prop
  | .eval => f.shape = .scalar ∧ f.AcceptsArguments 0 s.args
  | .process frames => f.AcceptsFrames frames s

variable {f : Compiled} {args : List Argument} {frames : Nat}

/-! ### Arguments -/

theorem exists_packFrom_iff {i : Nat} {vs : List Variable} (hlength : args.length = vs.length) :
    (∃ slots, packFrom frames i vs args = .ok slots) ↔
      List.Forall₂ (fun v arg => Argument.Fits frames v.kind arg) vs args := by
  induction vs generalizing i args with
  | nil =>
      obtain rfl := List.length_eq_zero_iff.mp hlength
      exact iff_of_true ⟨[], rfl⟩ .nil
  | cons v vs ih =>
      cases args with
      | nil => cases hlength
      | cons arg args =>
          rw [packFrom, List.forall₂_cons, Argument.fits_iff,
            ← ih (i := i + 1) (Nat.succ.inj hlength)]
          cases arg.slot? frames v.kind with
          | none => simp
          | some slot =>
              simp only [Outcome.bind_eq_ok_iff, Option.some.injEq, exists_eq', true_and]
              constructor
              · rintro ⟨_, rest, hrest, -⟩
                exact ⟨rest, hrest⟩
              · rintro ⟨rest, hrest⟩
                exact ⟨slot :: rest, rest, hrest, rfl⟩

theorem exists_pack_iff :
    (∃ slots, f.pack frames args = .ok slots) ↔ f.AcceptsArguments frames args := by
  simp only [pack_eq_ok_iff]
  constructor
  · rintro ⟨slots, hlength, hslots⟩
    exact (exists_packFrom_iff hlength).mp ⟨_, hslots⟩
  · intro h
    obtain ⟨slots, hslots⟩ := (exists_packFrom_iff (i := 0) h.length_eq.symm).mpr h
    exact ⟨slots.toArray, h.length_eq.symm, hslots⟩

theorem exists_eval_iff {memory : Memory} :
    (∃ r, f.eval args memory = .ok r) ↔ f.shape = .scalar ∧ f.AcceptsArguments 0 args := by
  simp only [eval_eq_ok_iff, ← exists_pack_iff]
  constructor
  · rintro ⟨r, hshape, slots, hpack, -⟩
    exact ⟨hshape, slots, hpack⟩
  · rintro ⟨hshape, slots, hpack⟩
    exact ⟨_, hshape, slots, hpack, rfl⟩

/-! ### Output buffers -/

theorem fits_iff {shape : Shape} {length : Nat} :
    fits shape frames length = true ↔ frames ≤ length ∧ (shape = .sample → length = frames) := by
  cases shape with
  | sample =>
      rw [fits, beq_iff_eq]
      exact ⟨fun h => ⟨Nat.le_of_eq h.symm, fun _ => h⟩, fun h => h.2 rfl⟩
  | scalar | block => simp [fits]

theorem isLooped_iff {shape : Shape} : shape.isLooped = true ↔ shape ≠ .scalar := by
  cases shape <;> decide

theorem le_maxFrames_iff : frames ≤ maxFrames ↔ (frames : Int) ≤ Int32.maxValue.toInt := by
  have hmax : Int32.maxValue.toInt = (maxFrames : Int) := by decide
  rw [hmax, Int.ofNat_le]

theorem exists_process_iff {s : CallState} :
    (∃ r, f.process s.outs s.args frames s.memory = .ok r) ↔ f.AcceptsFrames frames s := by
  simp only [process_eq_ok_iff, fits_iff, le_maxFrames_iff, ← isLooped_iff]
  constructor
  · rintro ⟨r, ⟨hshape, hframes, hlength, hsize⟩, slots, hpack, -⟩
    exact ⟨hshape, hframes, hlength, hsize, exists_pack_iff.mp ⟨slots, hpack⟩⟩
  · rintro ⟨hshape, hframes, hlength, hsize, hargs⟩
    obtain ⟨slots, hpack⟩ := exists_pack_iff.mpr hargs
    exact ⟨_, ⟨hshape, hframes, hlength, hsize⟩, slots, hpack, rfl⟩

/-! ### Refusals -/

theorem kind_of_packFrom {i : Nat} {vs : List Variable} {cause : Cause}
    (h : packFrom frames i vs args = .error cause) : cause.kind = .argument := by
  induction vs generalizing i args with
  | nil => cases h
  | cons v vs ih =>
      cases args with
      | nil => cases h
      | cons arg args =>
          rw [packFrom] at h
          split at h
          next slot _ =>
            rcases Outcome.bind_eq_error_iff.mp h with h | ⟨_, _, ⟨⟩⟩
            exact ih h
          next =>
            cases h
            rfl

theorem kind_of_pack {cause : Cause} (h : f.pack frames args = .error cause) :
    cause.kind = .argument := by
  rw [pack] at h
  split at h
  next =>
    cases h
    rfl
  next =>
    rcases Outcome.bind_eq_error_iff.mp h with h | ⟨_, _, ⟨⟩⟩
    exact kind_of_packFrom h

theorem kind_of_checkOutputs {shape : Shape} {k : Nat} {outs : List (Array Sample)} {cause : Cause}
    (h : checkOutputs shape frames k outs = .error cause) : cause.kind = .argument := by
  induction outs generalizing k with
  | nil => cases h
  | cons out outs ih =>
      rw [checkOutputs] at h
      split at h
      next => exact ih h
      next =>
        cases h
        rfl

theorem kind_of_eval {memory : Memory} {cause : Cause} (h : f.eval args memory = .error cause) :
    cause.kind = .argument := by
  rw [eval] at h
  split at h
  next =>
    cases h
    rfl
  next =>
    rcases Outcome.bind_eq_error_iff.mp h with h | ⟨_, _, ⟨⟩⟩
    exact kind_of_pack h

theorem kind_of_process {outs : List (Array Sample)} {memory : Memory} {cause : Cause}
    (h : f.process outs args frames memory = .error cause) : cause.kind = .argument := by
  rw [process] at h
  by_cases hshape : f.shape = .scalar
  · rw [if_pos hshape] at h
    cases h
    rfl
  rw [if_neg hshape] at h
  by_cases hframes : maxFrames < frames
  · rw [if_pos hframes] at h
    cases h
    rfl
  rw [if_neg hframes] at h
  by_cases hlength : outs.length = f.outputs
  swap
  · rw [if_pos hlength] at h
    cases h
    rfl
  rw [if_neg (not_not.mpr hlength)] at h
  rcases Outcome.bind_eq_error_iff.mp h with houts | ⟨_, -, h⟩
  · exact kind_of_checkOutputs houts
  · rcases Outcome.bind_eq_error_iff.mp h with hpack | ⟨_, _, ⟨⟩⟩
    exact kind_of_pack hpack

/-! ### Calls in place -/

theorem length_of_eval {memory : Memory} {r : List Sample × Memory}
    (h : f.eval args memory = .ok r) : r.1.length = f.outputs := by
  obtain ⟨-, slots, -, rfl⟩ := eval_eq_ok_iff.mp h
  rw [List.length_map, Array.length_toList, Code.runFrame, Code.size_outputs_runStatements]
  exact Array.size_replicate

theorem sizes_of_process {outs : List (Array Sample)} {memory : Memory}
    {r : List (Array Sample) × Memory} (h : f.process outs args frames memory = .ok r) :
    r.1.map Array.size = outs.map Array.size := by
  obtain ⟨-, slots, -, rfl⟩ := process_eq_ok_iff.mp h
  exact sizes_machineAt f slots outs frames memory frames

/-- What an accepted call leaves behind: a result for each output, or buffers of the lengths that
they had. The arguments stay as they were. -/
def Answers (f : Compiled) (s : CallState) (results : List Sample) (s' : CallState) : Request → Prop
  | .eval => results.length = f.outputs ∧ s'.outs = s.outs ∧ s'.args = s.args
  | .process _ => s'.outs.map Array.size = s.outs.map Array.size ∧ s'.args = s.args

theorem call_eq_ok {s : CallState} {request : Request} (h : f.Accepts s request) :
    ∃ results s', f.call s request = (.ok results, s') ∧ f.Answers s results s' request := by
  cases request with
  | eval =>
      obtain ⟨r, hr⟩ := exists_eval_iff.mpr h
      exact ⟨r.1, { s with memory := r.2 }, by rw [call, hr], length_of_eval hr, rfl, rfl⟩
  | process frames =>
      obtain ⟨r, hr⟩ := exists_process_iff.mpr h
      exact ⟨[], { s with outs := r.1, memory := r.2 }, by rw [call, hr], sizes_of_process hr, rfl⟩

theorem call_eq_error {s : CallState} {request : Request} (h : ¬ f.Accepts s request) :
    ∃ cause, f.call s request = (.error cause, s) ∧ cause.kind = .argument := by
  cases request with
  | eval =>
      cases hr : f.eval s.args s.memory with
      | ok r => exact absurd (exists_eval_iff.mp ⟨r, hr⟩) h
      | error cause => exact ⟨cause, by rw [call, hr], kind_of_eval hr⟩
  | process frames =>
      cases hr : f.process s.outs s.args frames s.memory with
      | ok r => exact absurd (exists_process_iff.mp ⟨r, hr⟩) h
      | error cause => exact ⟨cause, by rw [call, hr], kind_of_process hr⟩

/-- A call succeeds exactly if it is one that the function accepts. Any other call is refused as a
wrong call, and leaves the buffers, the arguments with their histories, and the memory with its
tables, values and generator as they were. -/
theorem call_succeeds_iff (f : Compiled) (s : CallState) (request : Request) :
    ((∃ results s', f.call s request = (.ok results, s') ∧ f.Answers s results s' request) ↔
        f.Accepts s request) ∧
      ((∃ cause, f.call s request = (.error cause, s) ∧ cause.kind = .argument) ↔
        ¬ f.Accepts s request) := by
  refine ⟨⟨?_, call_eq_ok⟩, ?_, call_eq_error⟩
  · rintro ⟨results, s', hcall, -⟩
    by_contra hrefused
    obtain ⟨cause, herror, -⟩ := call_eq_error hrefused
    rw [hcall] at herror
    cases herror
  · rintro ⟨cause, herror, -⟩ haccepted
    obtain ⟨results, s', hcall, -⟩ := call_eq_ok haccepted
    rw [hcall] at herror
    cases herror

end Compiled

end SignalExpr
