import SignalExpr.Error

/-!
Sample histories. An input history holds the previous and the current block of a stream; an
output history holds the block that a statement writes, which is also what it reads back.
-/

namespace SignalExpr

/-- Replaces the newest samples of a buffer that has the newest at its end. The first value
becomes the newest sample; values beyond the length of the buffer are ignored. -/
def writeRecent (samples values : Array Sample) : Array Sample :=
  let n := min values.size samples.size
  samples.extract 0 (samples.size - n) ++ (values.extract 0 n).reverse

@[simp]
theorem size_writeRecent (samples values : Array Sample) :
    (writeRecent samples values).size = samples.size := by
  simp only [writeRecent, Array.size_append, Array.size_reverse, Array.size_extract]
  omega

/-- Two blocks of a stream, the previous one first. -/
structure InputHistory where
  frames : Nat
  samples : Array Sample
  size_samples : samples.size = 2 * frames

namespace InputHistory

/-- A history of silence. -/
def silent (frames : Nat) : InputHistory :=
  ⟨frames, Array.replicate (2 * frames) 0, Array.size_replicate⟩

def previous (h : InputHistory) : Array Sample :=
  h.samples.extract 0 h.frames

def current (h : InputHistory) : Array Sample :=
  h.samples.extract h.frames h.samples.size

@[simp]
theorem size_current (h : InputHistory) : h.current.size = h.frames := by
  rw [current, Array.size_extract, h.size_samples]
  omega

/-- Makes the current block the previous one, and a new block the current one. -/
def push (h : InputHistory) (block : Array Sample) : Except Cause InputHistory :=
  if size : block.size = h.frames then
    .ok { h with
      samples := h.current ++ block
      size_samples := by rw [Array.size_append, size_current, size, Nat.two_mul] }
  else .error (.wrongBlockLength block.size h.frames)

/-- Replaces the newest samples, the first value being the newest. -/
def set (h : InputHistory) (values : Array Sample) : InputHistory :=
  { h with
    samples := writeRecent h.samples values
    size_samples := (size_writeRecent h.samples values).trans h.size_samples }

def clear (h : InputHistory) : InputHistory :=
  { h with
    samples := Array.replicate h.samples.size 0
    size_samples := Array.size_replicate.trans h.size_samples }

end InputHistory

/-- The block that a statement writes. -/
structure OutputHistory where
  samples : Array Sample

namespace OutputHistory

/-- A history of silence. -/
def silent (frames : Nat) : OutputHistory :=
  ⟨Array.replicate frames 0⟩

def frames (h : OutputHistory) : Nat := h.samples.size

/-- Replaces the newest samples, the first value being the newest. -/
def set (h : OutputHistory) (values : Array Sample) : OutputHistory :=
  ⟨writeRecent h.samples values⟩

def clear (h : OutputHistory) : OutputHistory :=
  ⟨Array.replicate h.samples.size 0⟩

end OutputHistory

end SignalExpr
