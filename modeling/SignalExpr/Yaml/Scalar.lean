import SignalExpr.Yaml.Cursor

/-!
Scalars of a YAML text, in five styles. Plain and quoted scalars may go over several lines, which
are folded; a block scalar keeps its lines, or folds them.
-/

namespace SignalExpr.Yaml

/-- How a scalar is written. -/
inductive Style where
  | plain
  | singleQuoted
  | doubleQuoted
  | literal
  | folded
deriving DecidableEq, Repr

/-- White space between two words of a scalar. -/
structure Gap where
  /-- Blanks, if the words are on one line. -/
  blanks : List Char := []
  /-- Whether the words are on two lines. -/
  broken : Bool := false
  /-- The end of the first line, unless a backslash hides it. -/
  lineBreak : Option Char := none
  /-- The ends of empty lines. -/
  further : List Char := []

namespace Gap

/-- What a gap is read as. The end of a line is a space, or nothing in front of empty lines; a
Unicode separator stays. -/
def text (g : Gap) : List Char :=
  if g.broken then
    match g.lineBreak with
    | some '\n' => if g.further.isEmpty then [' '] else g.further
    | some c => c :: g.further
    | none => g.further
  else g.blanks

def addBlank (g : Gap) (c : Char) : Gap :=
  if g.broken then g else { g with blanks := g.blanks ++ [c] }

def addBreak (g : Gap) (c : Char) : Gap :=
  if g.broken then { g with further := g.further ++ [c] }
  else { blanks := [], broken := true, lineBreak := some c, further := [] }

/-- Takes a gap. At the start of a line no tab may stand in the columns before `indent`. -/
def take (indent : Nat) : Gap → (line column offset : Nat) → List Char → Option (Gap × Cursor)
  | g, line, column, offset, [] => some (g, ⟨[], line, column, offset⟩)
  | g, line, column, offset, c :: cs =>
      if isBlank c then
        if g.broken && c == '\t' && decide (column < indent) then none
        else take indent (g.addBlank c) line (column + 1) (offset + 1) cs
      else if isBreak c then take indent (g.addBreak c) (line + 1) 0 (offset + 1) cs
      else some (g, ⟨c :: cs, line, column, offset⟩)

end Gap

/-- Takes a gap at a place. -/
def Cursor.takeGap (c : Cursor) (indent : Nat) (g : Gap) : Option (Gap × Cursor) :=
  Gap.take indent g c.line c.column c.offset c.rest

/-! ### Plain scalars -/

/-- Takes a word of a plain scalar. It ends at a gap, at a colon before one and, inside of a flow
collection, at a mark of it. A colon in front of such a mark is refused. -/
def takeWord (flow : Bool) : List Char → Option (List Char)
  | [] => some []
  | c :: cs =>
      if isGap c then some []
      else if flow && c == ':' && cs.head?.any (fun d => isFlowMark d || d == '?') then none
      else if (c == ':' && startsGap cs) || (flow && isFlowMark c) then some []
      else (takeWord flow cs).map (c :: ·)

/-- Takes words of a plain scalar behind a gap, at most `fuel` of them. Outside of flow collections
a line that starts before the column `indent` does not belong to it. Tells, too, whether a line
ended behind the last word. -/
def takePlainWords (flow : Bool) (indent : Nat) :
    Nat → Gap → Cursor → Option (List Char × Bool × Cursor)
  | 0, _, _ => none
  | fuel + 1, gap, c =>
      if c.atDocumentMark || c.rest.head? == some '#' then some ([], gap.broken, c)
      else do
        let word ← takeWord flow c.rest
        if word.isEmpty then some ([], gap.broken, c)
        else
          let text := gap.text ++ word
          let c := c.skip word.length
          if c.rest.isEmpty || !startsGap c.rest then some (text, false, c)
          else
            let (gap, c) ← c.takeGap indent {}
            if !flow && decide (c.column < indent) then some (text, gap.broken, c)
            else
              let (more, broken, c) ← takePlainWords flow indent fuel gap c
              some (text ++ more, broken, c)

/-- Takes a plain scalar. -/
def takePlain (flow : Bool) (indent : Nat) (c : Cursor) : Option (List Char × Bool × Cursor) :=
  takePlainWords flow indent (c.rest.length + 1) {} c

/-! ### Quoted scalars -/

/-- The character for a letter behind a backslash. -/
def escaped? (c : Char) : Option Char :=
  match c with
  | '0' => some '\x00'
  | 'a' => some '\x07'
  | 'b' => some '\x08'
  | 't' | '\t' => some '\t'
  | 'n' => some '\n'
  | 'v' => some '\x0b'
  | 'f' => some '\x0c'
  | 'r' => some '\r'
  | 'e' => some '\x1b'
  | 'N' => some '\x85'
  | '_' => some '\xa0'
  | 'L' => some '\u2028'
  | 'P' => some '\u2029'
  | ' ' | '"' | '/' | '\\' => some c
  | _ => none

/-- How many hexadecimal digits follow a letter behind a backslash. -/
def codeLength? : Char → Option Nat
  | 'x' => some 2
  | 'u' => some 4
  | 'U' => some 8
  | _ => none

def hexDigit? (c : Char) : Option Nat :=
  if c.isDigit then some (c.toNat - '0'.toNat)
  else if 'a' ≤ c ∧ c ≤ 'f' then some (c.toNat - 'a'.toNat + 10)
  else if 'A' ≤ c ∧ c ≤ 'F' then some (c.toNat - 'A'.toNat + 10)
  else none

/-- The value of hexadecimal digits. -/
def hexValue? (cs : List Char) : Option Nat :=
  cs.foldlM (fun n c => (hexDigit? c).map (16 * n + ·)) 0

/-- The character with a code point given in `n` hexadecimal digits. -/
def ofCode? (n : Nat) (cs : List Char) : Option Char := do
  let digits := cs.take n
  if digits.length < n then none
  let code ← hexValue? digits
  if code.isValidChar then some (Char.ofNat code) else none

/-- The character that an escape stands for, and the length of the escape without its
backslash. -/
def escape? : List Char → Option (Char × Nat)
  | [] => none
  | c :: cs =>
      match codeLength? c with
      | some n => (ofCode? n cs).map (·, n + 1)
      | none => (escaped? c).map (·, 1)

/-- Takes text between single quotes up to a gap or the end, and tells how many characters it is
written in; two quotes stand for one. -/
def takeSingleQuoted : List Char → List Char × Nat
  | '\'' :: '\'' :: cs =>
      let (text, n) := takeSingleQuoted cs
      ('\'' :: text, n + 2)
  | c :: cs =>
      if isGap c || c == '\'' then ([], 0)
      else
        let (text, n) := takeSingleQuoted cs
        (c :: text, n + 1)
  | [] => ([], 0)

/-- Takes text between double quotes up to a gap or the end, and tells how many characters it is
written in. It ends before a backslash that hides the end of a line, too. -/
def takeDoubleQuoted (cs : List Char) : Option (List Char × Nat) :=
  match cs with
  | [] => some ([], 0)
  | '\\' :: rest =>
      if rest.head?.any isBreak then some ([], 0)
      else
        (escape? rest).bind fun (c, k) =>
          (takeDoubleQuoted (rest.drop k)).map fun (text, n) => (c :: text, n + k + 1)
  | c :: rest =>
      if isGap c || c == '"' then some ([], 0)
      else (takeDoubleQuoted rest).map fun (text, n) => (c :: text, n + 1)
termination_by cs.length

/-- Takes the inside of a quoted scalar and the quote behind it, at most `fuel` words of it. A
document cannot start or end inside. -/
def takeQuotedWords (quote : Char) : Nat → Cursor → Option (List Char × Cursor)
  | 0, _ => none
  | fuel + 1, c =>
      if c.atDocumentMark || c.rest.isEmpty then none
      else do
        let (word, n) ←
          if quote == '"' then takeDoubleQuoted c.rest else some (takeSingleQuoted c.rest)
        let c := c.skip n
        let hidden := quote == '"' && c.rest.head? == some '\\'
        let c := if hidden then (c.skip 1).skipBreak else c
        if c.rest.head? == some quote then some (word, c.skip 1)
        else
          let (gap, c) ← c.takeGap 0 { broken := hidden }
          let (more, c) ← takeQuotedWords quote fuel c
          some (word ++ gap.text ++ more, c)

/-- Takes a quoted scalar from its first quote on. -/
def takeQuoted (quote : Char) (c : Cursor) : Option (List Char × Cursor) :=
  takeQuotedWords quote (c.rest.length + 1) (c.skip 1)

/-! ### Block scalars -/

/-- What happens to the ends of lines at the end of a block scalar. -/
inductive Chomping where
  /-- None is kept. -/
  | strip
  /-- That of the last line with text is kept. -/
  | clip
  /-- All are kept. -/
  | keep
deriving DecidableEq, Repr

def takeChomping (c : Cursor) : Option Chomping × Cursor :=
  match c.rest.head? with
  | some '+' => (some .keep, c.skip 1)
  | some '-' => (some .strip, c.skip 1)
  | _ => (none, c)

/-- Takes the number of columns by which a block scalar is indented; zero if it is left out, and
never written as zero. -/
def takeIncrement? (c : Cursor) : Option (Nat × Cursor) :=
  match c.rest with
  | d :: _ =>
      if d == '0' then none
      else if d.isDigit then some (d.toNat - '0'.toNat, c.skip 1)
      else some (0, c)
  | [] => some (0, c)

/-- Takes the line of a block scalar on which its mark stands, from the mark on. Both indicators
may be left out, and they may come in either order. -/
def takeBlockHeader? (c : Cursor) : Option (Chomping × Nat × Cursor) := do
  let (before, c) := takeChomping (c.skip 1)
  let (increment, c) ← takeIncrement? c
  let (after, c) := if before.isNone && increment != 0 then takeChomping c else (none, c)
  return (before.getD (after.getD .clip), increment, ← c.endLine?)

/-- Takes the indentation of a line of a block scalar and empty lines before it. As long as the
indentation is not known, `indent` is zero. Tells the greatest column met, too. -/
def takeIndentation (indent : Nat) : (breaks : List Char) → (widest : Nat) →
    (line column offset : Nat) → List Char → Option (List Char × Nat × Cursor)
  | breaks, widest, line, column, offset, [] =>
      some (breaks, max widest column, ⟨[], line, column, offset⟩)
  | breaks, widest, line, column, offset, c :: cs =>
      let inside := indent == 0 || decide (column < indent)
      if inside && c == ' ' then
        takeIndentation indent breaks widest line (column + 1) (offset + 1) cs
      else if inside && c == '\t' then none
      else if isBreak c then
        takeIndentation indent (breaks ++ [c]) (max widest column) (line + 1) 0 (offset + 1) cs
      else some (breaks, max widest column, ⟨c :: cs, line, column, offset⟩)

/-- Takes the indentation of a line of a block scalar at a place. -/
def Cursor.takeIndentation (c : Cursor) (indent : Nat) : Option (List Char × Nat × Cursor) :=
  Yaml.takeIndentation indent [] 0 c.line c.column c.offset c.rest

/-- A block scalar while its lines are read: the text so far, the end of the last line, the ends
of the empty lines behind it, and whether it started with a blank. -/
structure BlockText where
  text : List Char := []
  lineBreak : List Char := []
  further : List Char := []
  indented : Bool := false

namespace BlockText

/-- Adds a line. In a folded scalar two lines that do not start with a blank are joined by a
space, or by the empty lines between them. -/
def addLine (b : BlockText) (fold : Bool) (line lineBreak : List Char) : BlockText :=
  let indented := startsBlank line
  let joined :=
    if fold && b.lineBreak == ['\n'] && !b.indented && !indented then
      if b.further.isEmpty then [' '] else []
    else b.lineBreak
  { text := b.text ++ joined ++ b.further ++ line, lineBreak, further := [], indented }

/-- The text of the scalar. -/
def finish (b : BlockText) : Chomping → List Char
  | .strip => b.text
  | .clip => b.text ++ b.lineBreak
  | .keep => b.text ++ b.lineBreak ++ b.further

end BlockText

/-- Takes the lines of a block scalar that start in the column `indent`, at most `fuel` of
them. -/
def takeLines (fold : Bool) (indent : Nat) : Nat → BlockText → Cursor → Option (BlockText × Cursor)
  | 0, _, _ => none
  | fuel + 1, b, c =>
      if c.column == indent && !c.rest.isEmpty then do
        let (line, c) := c.takeWhile (!isBreak ·)
        let b := b.addLine fold line (c.rest.take 1)
        let (further, _, c) ← c.skipBreak.takeIndentation indent
        takeLines fold indent fuel { b with further } c
      else some (b, c)

/-- Takes a block scalar from its mark on. The block around it starts its lines in the column
before `level`, or there is none if that is zero. -/
def takeBlock (fold : Bool) (level : Nat) (c : Cursor) : Option (List Char × Cursor) := do
  let (chomping, increment, c) ← takeBlockHeader? c
  let given := if increment == 0 then 0 else level - 1 + increment
  let (further, widest, c) ← c.takeIndentation given
  let indent := if given == 0 then max (max widest level) 1 else given
  let (b, c) ← takeLines fold indent (c.rest.length + 1) { further } c
  return (b.finish chomping, c)

end SignalExpr.Yaml
