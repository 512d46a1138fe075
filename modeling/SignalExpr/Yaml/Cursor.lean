/-!
Places in a YAML text, and the classes of characters that the rules of YAML speak of. Line ends
are written in one way before a text is read, so a line ends with a single character.
-/

namespace SignalExpr.Yaml

/-- Characters that a text may hold. -/
def isPermitted (c : Char) : Bool :=
  let n := c.toNat
  n == 0x09 || n == 0x0a || n == 0x0d || n == 0x85
    || decide (0x20 ≤ n ∧ n ≤ 0x7e) || decide (0xa0 ≤ n ∧ n ≤ 0xfffd) || decide (0x10000 ≤ n)

/-- The mark that may stand at the start of a text and at the start of a line. -/
def byteOrderMark : Char := '\ufeff'

/-- Writes all ends of lines in one way; the two Unicode separators stay as they are. -/
def unifyBreaks : List Char → List Char
  | '\r' :: '\n' :: cs => '\n' :: unifyBreaks cs
  | '\r' :: cs => '\n' :: unifyBreaks cs
  | '\x85' :: cs => '\n' :: unifyBreaks cs
  | c :: cs => c :: unifyBreaks cs
  | [] => []

def isBlank (c : Char) : Bool := c == ' ' || c == '\t'

/-- Ends of lines. -/
def isBreak (c : Char) : Bool := c == '\n' || c == '\u2028' || c == '\u2029'

def isGap (c : Char) : Bool := isBlank c || isBreak c

/-- Characters of names. -/
def isNameChar (c : Char) : Bool := c.isAlphanum || c == '_' || c == '-'

/-- The marks of flow collections. -/
def isFlowMark (c : Char) : Bool :=
  c == ',' || c == '[' || c == ']' || c == '\x7b' || c == '\x7d'

/-- Whether a text ends here, or goes on with a gap. -/
def startsGap : List Char → Bool
  | [] => true
  | c :: _ => isGap c

/-- Whether a text ends here, or goes on with the end of a line. -/
def startsBreak : List Char → Bool
  | [] => true
  | c :: _ => isBreak c

/-- Whether a text goes on with a blank. -/
def startsBlank : List Char → Bool
  | [] => false
  | c :: _ => isBlank c

/-- A place in a text: what is left of it, the numbers of the line and of the column, and how many
characters are behind. All count from zero. -/
structure Cursor where
  rest : List Char
  line : Nat := 0
  column : Nat := 0
  offset : Nat := 0

namespace Cursor

/-- Goes on by some characters of one line. -/
def skip (c : Cursor) (n : Nat) : Cursor :=
  { c with rest := c.rest.drop n, column := c.column + n, offset := c.offset + n }

/-- Takes the characters of a class, which holds no ends of lines. -/
def takeWhile (p : Char → Bool) (c : Cursor) : List Char × Cursor :=
  let taken := c.rest.takeWhile p
  (taken, c.skip taken.length)

def skipWhile (p : Char → Bool) (c : Cursor) : Cursor :=
  (c.takeWhile p).2

/-- Goes on behind the end of the line, if this is one. -/
def skipBreak (c : Cursor) : Cursor :=
  match c.rest with
  | ch :: cs => if isBreak ch then ⟨cs, c.line + 1, 0, c.offset + 1⟩ else c
  | [] => c

/-- Skips blanks and a comment up to the end of the line; nothing else may be there. -/
def endLine? (c : Cursor) : Option Cursor :=
  let c := c.skipWhile isBlank
  let c := if c.rest.head? == some '#' then c.skipWhile (!isBreak ·) else c
  if startsBreak c.rest then some c.skipBreak else none

/-- Whether a line starts here with a mark of three characters and a gap. -/
def atMark (c : Cursor) (mark : String) : Bool :=
  c.column == 0 && mark.toList.isPrefixOf c.rest && startsGap (c.rest.drop 3)

/-- Whether a document starts or ends here. -/
def atDocumentMark (c : Cursor) : Bool :=
  c.atMark "---" || c.atMark "..."

/-- Skips blanks, comments and ends of lines up to the next token. A tab is a blank inside of a
flow collection and where no key can start; behind the end of a line, outside of flow
collections, a key can start. Tells where a key can start, too. -/
def toToken (flow : Bool) : (inComment keyAllowed : Bool) → (line column offset : Nat) →
    List Char → Bool × Cursor
  | _, allowed, line, column, offset, [] => (allowed, ⟨[], line, column, offset⟩)
  | inComment, allowed, line, column, offset, c :: cs =>
      if isBreak c then toToken flow false (allowed || !flow) (line + 1) 0 (offset + 1) cs
      else if inComment || c == ' ' || (c == '\t' && (flow || !allowed))
          || (c == byteOrderMark && column == 0) then
        toToken flow inComment allowed line (column + 1) (offset + 1) cs
      else if c == '#' then toToken flow true allowed line (column + 1) (offset + 1) cs
      else (allowed, ⟨c :: cs, line, column, offset⟩)

end Cursor

end SignalExpr.Yaml
