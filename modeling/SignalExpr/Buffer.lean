import SignalExpr.Sample.Arithmetic

/-!
Reads from buffers of samples at positions that expressions compute.
-/

namespace SignalExpr.Buffer

/-- The sample at a position; zero outside of the buffer. -/
def sample (buffer : Array Sample) (position : Int) : Sample :=
  if 0 ≤ position then (buffer[position.toNat]?).getD 0 else 0

/-- The position of the block of `frames` samples that is nearest to a truncated index. -/
def clampPosition (frames : Int32) (index : Sample) : Int32 :=
  min (max index.toInt32 0) (frames - 1)

/-- The number of a cell in a ring of `length` cells. -/
def ringCell (length : Int32) (i : Int64) : Int :=
  i.toInt % length.toInt

/-- The two neighbouring cells of a ring between which an index falls, and the weight of the
second one. -/
def neighbours (index : Sample) (length : Int32) : Int × Int × Sample :=
  let whole := index.floor
  let i := whole.toInt64
  (ringCell length i, ringCell length (i + 1), index - whole)

/-- Interpolates between the two cells of a ring around an index; zero without cells. -/
def interpolate (buffer : Array Sample) (index : Sample) (length : Int32) : Sample :=
  if length ≤ 0 then 0
  else
    let (a, b, weight) := neighbours index length
    sample buffer b * weight + sample buffer a * (1 - weight)

/-- The length of an input history of `frames` frames, in 32 bits. -/
def inputLength (frames : Int32) : Int32 :=
  frames <<< 1

/-- The position of the current sample in an input history, in 32 bits. -/
def inputPosition (frames frame : Int32) : Int32 :=
  frames + frame

/-- The index in a history that lies `offset` frames from the current one. The offset goes to the
nearest one from `-frames` to `latest`. -/
def historyIndex (frames frame : Int32) (latest offset : Sample) : Sample :=
  let n := Sample.ofInt frames.toInt
  let offset := (offset.strictGreater (-n)).strictLesser latest
  n + Sample.ofInt frame.toInt + offset

/-- Reads an input history. Offsets reach from the current frame back. -/
def readInput (buffer : Array Sample) (frames frame : Int32) (offset : Sample) : Sample :=
  interpolate buffer (historyIndex frames frame 0 offset) (inputLength frames)

/-- Reads an output history, a ring of `frames` samples. The current frame is being written, so
offsets reach from the frame before it back. -/
def readOutput (buffer : Array Sample) (frames frame : Int32) (offset : Sample) : Sample :=
  interpolate buffer (historyIndex frames frame (-1) offset) frames

end SignalExpr.Buffer
