import SignalExpr.Sample.Integral

/-!
The generator of random numbers: the stream of words of the ChaCha cipher with eight rounds under
a key that is expanded from a 64-bit seed. A generator is its key and its place in the stream.
-/

namespace SignalExpr

namespace Random

/-- Four words that are worked on side by side. -/
structure Row where
  a : UInt32
  b : UInt32
  c : UInt32
  d : UInt32
deriving DecidableEq, Repr

namespace Row

def add (x y : Row) : Row := ⟨x.a + y.a, x.b + y.b, x.c + y.c, x.d + y.d⟩

def rotateWord (n : UInt32) (w : UInt32) : UInt32 := (w <<< n) ||| (w >>> (32 - n))

/-- The exclusive or, each word rotated to the left by `n` bits. -/
def xorRotate (n : UInt32) (x y : Row) : Row :=
  ⟨rotateWord n (x.a ^^^ y.a), rotateWord n (x.b ^^^ y.b),
   rotateWord n (x.c ^^^ y.c), rotateWord n (x.d ^^^ y.d)⟩

/-- The words moved by one place to the left. -/
def shift (x : Row) : Row := ⟨x.b, x.c, x.d, x.a⟩

def toList (x : Row) : List UInt32 := [x.a, x.b, x.c, x.d]

end Row

/-- Sixteen words in four rows. -/
structure State where
  first : Row
  second : Row
  third : Row
  fourth : Row
deriving DecidableEq, Repr

namespace State

/-- One round on the four columns at once. -/
def columnRound (s : State) : State :=
  let a := s.first.add s.second
  let d := s.fourth.xorRotate 16 a
  let c := s.third.add d
  let b := s.second.xorRotate 12 c
  let a := a.add b
  let d := d.xorRotate 8 a
  let c := c.add d
  let b := b.xorRotate 7 c
  ⟨a, b, c, d⟩

/-- Brings the diagonals into columns. -/
def slant (s : State) : State :=
  ⟨s.first, s.second.shift, s.third.shift.shift, s.fourth.shift.shift.shift⟩

/-- Brings the columns back into diagonals. -/
def unslant (s : State) : State :=
  ⟨s.first, s.second.shift.shift.shift, s.third.shift.shift, s.fourth.shift⟩

/-- A round on the columns and one on the diagonals. -/
def doubleRound (s : State) : State :=
  s.columnRound.slant.columnRound.unslant

def add (s t : State) : State :=
  ⟨s.first.add t.first, s.second.add t.second, s.third.add t.third, s.fourth.add t.fourth⟩

def toList (s : State) : List UInt32 :=
  s.first.toList ++ s.second.toList ++ s.third.toList ++ s.fourth.toList

end State

/-- A key of eight words. -/
structure Key where
  low : Row
  high : Row
deriving DecidableEq, Repr

/-- The state before a block: constants, key, and the number of the block. -/
def Key.initial (key : Key) (block : UInt64) : State where
  first := ⟨0x61707865, 0x3320646e, 0x79622d32, 0x6b206574⟩
  second := key.low
  third := key.high
  fourth := ⟨block.toUInt32, (block >>> 32).toUInt32, 0, 0⟩

/-- The sixteen words of a block. -/
def Key.block (key : Key) (block : UInt64) : List UInt32 :=
  let s := key.initial block
  (s.add s.doubleRound.doubleRound.doubleRound.doubleRound).toList

/-- One step of the expansion of a seed: the next state and a word of the key. -/
def expand (state : UInt64) : UInt64 × UInt32 :=
  let state := state * 6364136223846793005 + 11634580027462260723
  let word := (((state >>> 18) ^^^ state) >>> 27).toUInt32
  let turn := (state >>> 59).toUInt32
  (state, (word >>> turn) ||| (word <<< ((32 - turn) % 32)))

/-- Four words of a key. -/
def expandRow (state : UInt64) : UInt64 × Row :=
  let (s, a) := expand state
  let (s, b) := expand s
  let (s, c) := expand s
  let (s, d) := expand s
  (s, ⟨a, b, c, d⟩)

/-- The key of a seed. -/
def Key.ofSeed (seed : UInt64) : Key :=
  let (state, low) := expandRow seed
  let (_, high) := expandRow state
  ⟨low, high⟩

end Random

/-- A stream of random words: the key, and how many words were taken. -/
structure Generator where
  key : Random.Key
  taken : Nat
deriving DecidableEq, Repr

namespace Generator

def ofSeed (seed : UInt64) : Generator := ⟨.ofSeed seed, 0⟩

/-- The word at a place of the stream. -/
def word (g : Generator) (n : Nat) : UInt32 :=
  ((g.key.block (n / 16).toUInt64)[n % 16]?).getD 0

/-- Takes two words, the low half first. -/
def next (g : Generator) : Nat × Generator :=
  ((g.word g.taken).toNat + 0x100000000 * (g.word (g.taken + 1)).toNat, { g with taken := g.taken + 2 })

/-- Takes a number below `n`. A draw is taken again if it falls into the part of the range that
would favour some numbers; less than half of the range does, so `fuel` is hardly ever used up. -/
def below (n : Nat) : Nat → Generator → Nat × Generator
  | 0, g =>
      let (v, g) := g.next
      (v * n / 0x10000000000000000, g)
  | fuel + 1, g =>
      let (v, g) := g.next
      let zone := (n <<< (63 - n.log2)) - 1
      if v * n % 0x10000000000000000 ≤ zone then (v * n / 0x10000000000000000, g) else below n fuel g

/-- How often a draw is repeated at most. The rule itself has no bound; this one only makes the
repetition total. Draws are refused less than half of the time. -/
def patience : Nat := 4096

/-- A random whole number from the truncated `a` up to, and without, the truncated `b`. If there
is none the result is zero and nothing is taken from the stream. -/
def between (g : Generator) (a b : Sample) : Sample × Generator :=
  let lo := a.toInt64.toInt
  let hi := b.toInt64.toInt
  if hi ≤ lo then (0, g)
  else
    let (k, g) := below (hi - lo).toNat patience g
    (Sample.ofInt (lo + k), g)

end Generator

end SignalExpr
