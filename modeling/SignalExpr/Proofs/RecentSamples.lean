import SignalExpr.Proofs.CallAcceptance

/-!
What histories hold. A stream is told from its newest sample back, without end. It begins as
silence, goes on with blocks, and its newest samples may be replaced. Whatever is done to a history,
it holds the last samples of such a stream, the oldest first, and keeps its length.
-/

namespace SignalExpr

/-- A stream up to now, from its newest sample back. -/
abbrev Past := Stream' Sample

namespace Past

def silence : Past := Stream'.const 0

/-- The stream goes on with a block. -/
def extend (past : Past) (block : Array Sample) : Past :=
  block.toList.reverse ++ₛ past

/-- The newest samples are replaced, as many as there are values but at most `capacity`. The first
value becomes the newest sample. -/
def revise (past : Past) (capacity : Nat) (values : Array Sample) : Past :=
  values.toList.take capacity ++ₛ past.drop (min values.size capacity)

/-- The last `n` samples, the oldest first. -/
def recent (past : Past) (n : Nat) : Array Sample :=
  (past.take n).reverse.toArray

variable (past : Past)

@[simp]
theorem size_recent (n : Nat) : (past.recent n).size = n := by
  simp [recent]

theorem recent_silence (n : Nat) : silence.recent n = Array.replicate n 0 := by
  have htake : ∀ k, silence.take k = List.replicate k 0 := by
    intro k
    induction k with
    | zero => rfl
    | succ k ih =>
        rw [Stream'.take_succ, List.replicate_succ]
        exact congrArg _ ih
  rw [recent, htake, List.reverse_replicate, List.toArray_replicate]

theorem recent_append (newest : List Sample) (n : Nat) :
    recent (newest ++ₛ past) (newest.length + n) = past.recent n ++ newest.reverse.toArray := by
  rw [recent, ← Stream'.append_take, List.reverse_append, ← List.append_toArray, recent]

theorem recent_add (m n : Nat) :
    past.recent (m + n) = recent (past.drop m) n ++ past.recent m := by
  have happend := recent_append (past.drop m) (past.take m) n
  rw [Stream'.append_take_drop, Stream'.length_take] at happend
  exact happend

theorem recent_extend (block : Array Sample) (n : Nat) :
    (past.extend block).recent (block.size + n) = past.recent n ++ block := by
  have happend := recent_append past block.toList.reverse n
  rw [List.length_reverse, Array.length_toList, List.reverse_reverse, Array.toArray_toList]
    at happend
  exact happend

theorem recent_extend_self (block : Array Sample) :
    (past.extend block).recent block.size = block := by
  have hextend := past.recent_extend block 0
  rw [Nat.add_zero] at hextend
  rw [hextend, recent, Stream'.take_zero]
  exact Array.empty_append

theorem recent_revise (n : Nat) (values : Array Sample) :
    (past.revise n values).recent n = writeRecent (past.recent n) values := by
  obtain ⟨k, hk⟩ := Nat.exists_eq_add_of_le (Nat.min_le_right values.size n)
  have hlength : (values.toList.take n).length = min values.size n := by
    rw [List.length_take, Array.length_toList, Nat.min_comm]
  have hnew := recent_append (past.drop (min values.size n)) (values.toList.take n) k
  rw [hlength, ← hk] at hnew
  have hold : (past.recent n).extract 0 (n - min values.size n) =
      recent (past.drop (min values.size n)) k := by
    have hadd := past.recent_add (min values.size n) k
    rw [← hk] at hadd
    rw [hadd, Nat.sub_eq_of_eq_add' hk]
    simp [Array.extract_append]
  have htake : values.toList.take n = (values.extract 0 (min values.size n)).toList := by
    simp [Array.toList_extract, List.extract_eq_take_drop, List.take_eq_take_iff,
      Nat.min_comm]
  rw [revise, hnew, writeRecent, size_recent, hold, htake, ← Array.toList_reverse,
    Array.toArray_toList]

end Past

/-! ### Input histories -/

namespace InputHistory

inductive Action where
  | push (block : Array Sample)
  | set (values : Array Sample)
  | clear

/-- A block that is refused leaves the history as it was. -/
def perform (h : InputHistory) : Action → InputHistory
  | .push block => (h.push block).toOption.getD h
  | .set values => h.set values
  | .clear => h.clear

/-- What the actions make of a silent history. -/
def after (frames : Nat) (actions : List Action) : InputHistory :=
  actions.foldl perform (silent frames)

/-- What an action does to the stream. Only blocks of the right length make it longer. -/
def Action.advance (frames : Nat) (past : Past) : Action → Past
  | .push block => if block.size = frames then past.extend block else past
  | .set values => past.revise (2 * frames) values
  | .clear => .silence

def stream (frames : Nat) (actions : List Action) : Past :=
  actions.foldl (Action.advance frames) .silence

variable {h : InputHistory} {past : Past}

/-- The history holds the last samples of the stream. -/
def Holds (h : InputHistory) (past : Past) : Prop :=
  h.samples = past.recent (2 * h.frames)

theorem holds_silent (frames : Nat) : (silent frames).Holds .silence :=
  (Past.recent_silence _).symm

theorem Holds.previous_eq (hholds : h.Holds past) :
    h.previous = Past.recent (past.drop h.frames) h.frames := by
  rw [previous, hholds, Nat.two_mul, Past.recent_add]
  simp [Array.extract_append]

theorem Holds.current_eq (hholds : h.Holds past) : h.current = past.recent h.frames := by
  rw [current, h.size_samples, hholds, Nat.two_mul, Past.recent_add,
    Array.extract_append_of_size_left_le_start (by simp)]
  simp

theorem push_of_size_eq {block : Array Sample} (hsize : block.size = h.frames) :
    h.push block = .ok (h.perform (.push block)) := by
  rw [perform, push, dif_pos hsize]
  rfl

theorem push_of_size_ne {block : Array Sample} (hsize : block.size ≠ h.frames) :
    h.push block = .error (.wrongBlockLength block.size h.frames) :=
  dif_neg hsize

theorem perform_of_refused {block : Array Sample} {cause : Cause}
    (hpush : h.push block = .error cause) : h.perform (.push block) = h := by
  rw [perform, hpush]
  rfl

theorem frames_perform (h : InputHistory) (action : Action) :
    (h.perform action).frames = h.frames := by
  cases action with
  | push block =>
      by_cases hsize : block.size = h.frames
      · rw [perform, push, dif_pos hsize]
        rfl
      · rw [perform_of_refused (push_of_size_ne hsize)]
  | set values => rfl
  | clear => rfl

theorem Holds.perform (hholds : h.Holds past) (action : Action) :
    (h.perform action).Holds (action.advance h.frames past) := by
  rw [Holds, frames_perform]
  cases action with
  | push block =>
      by_cases hsize : block.size = h.frames
      · rw [Action.advance, if_pos hsize, Nat.two_mul, ← hsize, Past.recent_extend, hsize,
          ← hholds.current_eq, InputHistory.perform, push, dif_pos hsize]
        rfl
      · rw [Action.advance, if_neg hsize, perform_of_refused (push_of_size_ne hsize)]
        exact hholds
  | set values =>
      rw [Action.advance, Past.recent_revise, ← hholds]
      rfl
  | clear =>
      rw [Action.advance, Past.recent_silence, ← h.size_samples]
      rfl

theorem Holds.performs (hholds : h.Holds past) (actions : List Action) :
    (actions.foldl InputHistory.perform h).frames = h.frames ∧
      (actions.foldl InputHistory.perform h).Holds
        (actions.foldl (Action.advance h.frames) past) := by
  induction actions generalizing h past with
  | nil => exact ⟨rfl, hholds⟩
  | cons action actions ih =>
      have hrest := ih (hholds.perform action)
      rw [frames_perform] at hrest
      exact hrest

theorem frames_after (frames : Nat) (actions : List Action) :
    (after frames actions).frames = frames :=
  ((holds_silent frames).performs actions).1

theorem holds_after (frames : Nat) (actions : List Action) :
    (after frames actions).Holds (stream frames actions) :=
  ((holds_silent frames).performs actions).2

end InputHistory

/-! ### Output histories -/

namespace OutputHistory

inductive Action (frames : Nat) where
  | set (values : Array Sample)
  | clear
  /-- The whole buffer is overwritten. -/
  | write (block : Vector Sample frames)

variable {frames : Nat} {h : OutputHistory} {past : Past}

def perform (h : OutputHistory) : Action frames → OutputHistory
  | .set values => h.set values
  | .clear => h.clear
  | .write block => ⟨block.toArray⟩

/-- What the actions make of a silent history. -/
def after (actions : List (Action frames)) : OutputHistory :=
  actions.foldl perform (silent frames)

/-- What an action does to the stream. -/
def Action.advance (past : Past) : Action frames → Past
  | .set values => past.revise frames values
  | .clear => .silence
  | .write block => past.extend block.toArray

def stream (actions : List (Action frames)) : Past :=
  actions.foldl Action.advance .silence

theorem samples_perform (hholds : h.samples = past.recent frames) (action : Action frames) :
    (h.perform action).samples = (action.advance past).recent frames := by
  cases action with
  | set values =>
      rw [Action.advance, Past.recent_revise, ← hholds]
      rfl
  | clear =>
      have hsize : h.samples.size = frames := by rw [hholds, Past.size_recent]
      rw [Action.advance, Past.recent_silence, ← hsize]
      rfl
  | write block =>
      have hblock := past.recent_extend_self block.toArray
      rw [block.size_toArray] at hblock
      exact hblock.symm

theorem samples_performs (hholds : h.samples = past.recent frames)
    (actions : List (Action frames)) :
    (actions.foldl perform h).samples = (actions.foldl Action.advance past).recent frames := by
  induction actions generalizing h past with
  | nil => exact hholds
  | cons action actions ih => exact ih (samples_perform hholds action)

theorem samples_after (actions : List (Action frames)) :
    (after actions).samples = (stream actions).recent frames :=
  samples_performs (Past.recent_silence frames).symm actions

theorem exists_block_of_process {f : Compiled} {outs : List (Array Sample)} {args : List Argument}
    {n : Nat} {memory : Memory} {r : List (Array Sample) × Memory} {k : Nat}
    (hout : outs[k]? = some h.samples) (hframes : h.frames = frames)
    (hcall : f.process outs args n memory = .ok r) :
    ∃ block : Vector Sample frames, r.1[k]? = some block.toArray := by
  have hsizes := congrArg (·[k]?) (Compiled.sizes_of_process hcall)
  simp only [List.getElem?_map, hout, Option.map_some] at hsizes
  obtain ⟨out, hk, hsize⟩ := Option.map_eq_some_iff.mp hsizes
  exact ⟨⟨out, hsize.trans hframes⟩, hk⟩

end OutputHistory

/-- Whatever is pushed, set and cleared, accepted or refused, an input history of `frames` frames
holds the last `2 * frames` samples of the stream, the older half as the previous block and the
newer one as the current block; a block of another length is refused and changes nothing. Whatever
is set, cleared and written over the whole buffer, an output history holds the last `frames`
samples, and what a call leaves in its buffer is such a write. -/
theorem histories_hold_recent (frames : Nat) :
    (∀ actions : List InputHistory.Action,
      let h := InputHistory.after frames actions
      h.frames = frames ∧ h.samples.size = 2 * frames ∧
      h.samples = (InputHistory.stream frames actions).recent (2 * frames) ∧
      h.previous.size = frames ∧ h.current.size = frames ∧
      h.previous ++ h.current = h.samples ∧
      ∀ block : Array Sample,
        (block.size = frames → h.push block = .ok (h.perform (.push block))) ∧
        (block.size ≠ frames →
          h.push block = .error (.wrongBlockLength block.size frames) ∧
          h.perform (.push block) = h)) ∧
    ∀ actions : List (OutputHistory.Action frames),
      let h := OutputHistory.after actions
      h.frames = frames ∧ h.samples.size = frames ∧
      h.samples = (OutputHistory.stream actions).recent frames ∧
      ∀ (f : Compiled) outs args n memory r (k : Nat), outs[k]? = some h.samples →
        f.process outs args n memory = .ok r →
        ∃ block : Vector Sample frames, r.1[k]? = some block.toArray := by
  constructor
  · intro actions h
    have hframes : h.frames = frames := InputHistory.frames_after frames actions
    have hholds := InputHistory.holds_after frames actions
    have hprevious := hholds.previous_eq
    have hcurrent := hholds.current_eq
    change h.samples = Past.recent _ (2 * h.frames) at hholds
    rw [hframes] at hholds hprevious hcurrent
    refine ⟨hframes, ?_, hholds, ?_, ?_, ?_, ?_⟩
    · rw [hholds, Past.size_recent]
    · rw [hprevious, Past.size_recent]
    · rw [hcurrent, Past.size_recent]
    · rw [hprevious, hcurrent, hholds, Nat.two_mul, Past.recent_add]
    · intro block
      rw [← hframes]
      refine ⟨InputHistory.push_of_size_eq, ?_⟩
      intro hsize
      have hpush := InputHistory.push_of_size_ne hsize
      exact ⟨hpush, InputHistory.perform_of_refused hpush⟩
  · intro actions h
    have hholds : h.samples = _ := OutputHistory.samples_after actions
    have hsize : h.samples.size = frames := by rw [hholds, Past.size_recent]
    refine ⟨hsize, hsize, hholds, ?_⟩
    intro f outs args n memory r k hout hcall
    exact OutputHistory.exists_block_of_process hout hsize hcall

/-- A refused block between two accepted ones, a value that replaces the newest sample, and more
values than an output history holds. -/
theorem histories_hold_recent_two :
    (InputHistory.after 2 [.push #[1, 2], .push #[5], .push #[3, 4], .set #[6]]).samples =
        #[1, 2, 3, 6] ∧
      (InputHistory.after 2 [.push #[1, 2]]).push #[5] = .error (.wrongBlockLength 1 2) ∧
      (@OutputHistory.after 2 [.write #v[1, 2], .set #[3, 4, 5]]).samples = #[4, 3] := by
  obtain ⟨hinput, houtput⟩ := histories_hold_recent 2
  refine ⟨?_, ?_, ?_⟩
  · obtain ⟨-, -, hsamples, -⟩ := hinput [.push #[1, 2], .push #[5], .push #[3, 4], .set #[6]]
    rw [hsamples]
    rfl
  · obtain ⟨-, -, -, -, -, -, hpush⟩ := hinput [.push #[1, 2]]
    exact ((hpush #[5]).2 (by decide)).1
  · obtain ⟨-, -, hsamples, -⟩ := houtput [.write #v[1, 2], .set #[3, 4, 5]]
    rw [hsamples]
    rfl

end SignalExpr
