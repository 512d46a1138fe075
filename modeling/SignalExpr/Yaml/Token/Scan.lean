import SignalExpr.Yaml.Token

/-!
Cutting a YAML text into tokens. A key is written without a mark of its own, so it is known as one
only when its colon is met: until then its place is kept, and the tokens for it are put in there
afterwards.
-/

namespace SignalExpr.Yaml

/-! ### Directives, anchors and tags -/

/-- The code of an octet that is written as a percent sign and two hexadecimal digits. -/
def octet? : List Char → Option UInt8
  | '%' :: a :: b :: _ => (hexValue? [a, b]).map Nat.toUInt8
  | _ => none

/-- The length of a character in UTF-8, by its first octet. -/
def encodedLength? (b : UInt8) : Option Nat :=
  if b < 0x80 then some 1
  else if b &&& 0xe0 == 0xc0 then some 2
  else if b &&& 0xf0 == 0xe0 then some 3
  else if b &&& 0xf8 == 0xf0 then some 4
  else none

/-- The octets of one character, the first of which is written at the head of a text. -/
def octets? (cs : List Char) : Option (List UInt8) := do
  let first ← octet? cs
  let length ← encodedLength? first
  let others ← (List.range (length - 1)).mapM fun k => octet? (cs.drop (3 * (k + 1)))
  if others.all (· &&& 0xc0 == 0x80) then some (first :: others) else none

/-- Characters of a tag. Some marks of flow collections belong to it only where its end is
marked. -/
def isTagChar (marked : Bool) (c : Char) : Bool :=
  isNameChar c || ";/?:@&=+$.!~*'()".toList.contains c || (marked && ",[]".toList.contains c)

/-- Takes the characters of a tag, and tells how many they are. -/
def takeTagText (marked : Bool) (cs : List Char) : Option (TagText × Nat) :=
  match cs with
  | [] => some ([], 0)
  | c :: rest =>
      if c == '%' then
        (octets? cs).bind fun octets =>
          (takeTagText marked (rest.drop (3 * octets.length - 1))).map fun (text, n) =>
            (octets ++ text, n + 3 * octets.length)
      else if isTagChar marked c then
        (takeTagText marked rest).map fun (text, n) => (c.toNat.toUInt8 :: text, n + 1)
      else some ([], 0)
termination_by cs.length

/-- Takes a part of a tag at a place, behind some text of it. There has to be something, and what
follows a null character is dropped. -/
def Cursor.takeTagText? (c : Cursor) (marked : Bool) : Option (TagText × Cursor) := do
  let (text, n) ← takeTagText marked c.rest
  if n == 0 then none else some (text.takeWhile (· != 0), c.skip n)

/-- Takes an exclamation mark, a name, and a second exclamation mark if there is one. -/
def Cursor.takeHandle? (c : Cursor) : Option (List Char × Cursor) :=
  if c.rest.head? == some '!' then
    let (name, c) := (c.skip 1).takeWhile isNameChar
    if c.rest.head? == some '!' then some ('!' :: name ++ ['!'], c.skip 1)
    else some ('!' :: name, c)
  else none

/-- Whether a handle is complete: it has a mark at both ends. -/
def isClosedHandle (handle : List Char) : Bool :=
  decide (2 ≤ handle.length) && handle.getLast? == some '!'

/-- Takes a tag: in full between angle brackets, or a handle and what follows it, or a mark and a
name, or a mark alone. -/
def takeTag? (flow : Bool) (c : Cursor) : Option (Token × Cursor) := do
  let (token, c) ←
    if c.rest[1]? == some '<' then do
      let (text, c) ← (c.skip 2).takeTagText? true
      if c.rest.head? == some '>' then some (Token.tag [] text, c.skip 1) else none
    else do
      let (handle, c) ← c.takeHandle?
      if isClosedHandle handle then do
        let (suffix, c) ← c.takeTagText? false
        some (Token.tag handle suffix, c)
      else do
        let (text, n) ← takeTagText false c.rest
        let suffix := handle.tail.map (·.toNat.toUInt8) ++ text.takeWhile (· != 0)
        let tag := if suffix.isEmpty then Token.tag [] ['!'.toNat.toUInt8] else .tag ['!'] suffix
        some (tag, c.skip n)
  if startsGap c.rest || (flow && c.rest.head? == some ',') then some (token, c) else none

/-- Takes a name behind the mark of an anchor or an alias. -/
def takeAnchorName? (c : Cursor) : Option (List Char × Cursor) :=
  let (name, c) := (c.skip 1).takeWhile isNameChar
  if !name.isEmpty && (startsGap c.rest || c.rest.head?.any "?:,]\x7d%@`".toList.contains) then
    some (name, c)
  else none

/-- Takes a number of at most nine digits. -/
def takeVersionNumber? (c : Cursor) : Option (Nat × Cursor) :=
  let (digits, c) := c.takeWhile Char.isDigit
  if digits.isEmpty || decide (9 < digits.length) then none
  else some (digits.foldl (fun n d => 10 * n + (d.toNat - '0'.toNat)) 0, c)

/-- Takes a directive from its percent sign on, up to the end of the line. -/
def takeDirective? (c : Cursor) : Option (Token × Cursor) := do
  let (name, c) := (c.skip 1).takeWhile isNameChar
  if !startsGap c.rest then none
  let c := c.skipWhile isBlank
  match String.ofList name with
  | "YAML" =>
      let (major, c) ← takeVersionNumber? c
      if c.rest.head? != some '.' then none
      let (minor, c) ← takeVersionNumber? (c.skip 1)
      return (.version major minor, ← c.endLine?)
  | "TAG" =>
      let (handle, c) ← c.takeHandle?
      if handle != ['!'] && !isClosedHandle handle then none
      if !startsBlank c.rest then none
      let (expansion, c) ← (c.skipWhile isBlank).takeTagText? true
      if !startsGap c.rest then none
      return (.handle handle expansion, ← c.endLine?)
  | _ => none

/-! ### Keys and blocks -/

/-- A place where a key may have started. -/
structure KeyPlace where
  /-- How many tokens are before it. -/
  tokens : Nat
  /-- It stands in the column of a block mapping, so it has to be a key. -/
  required : Bool
  line : Nat
  column : Nat
  offset : Nat

/-- Whether a place is out of reach for a colon: a key does not go beyond its line, and it has at
most 1024 characters. -/
def KeyPlace.isStale (p : KeyPlace) (c : Cursor) : Bool :=
  decide (p.line < c.line ∨ p.offset + 1024 < c.offset)

/-- A text that is cut into tokens up to a place. -/
structure Scanner where
  cursor : Cursor
  tokens : Array Token := #[]
  /-- One more than the columns of the blocks around the place, the innermost first. -/
  levels : List Nat := []
  /-- Whether a key can start here. -/
  keyAllowed : Bool := true
  /-- Where a key may have started in the innermost flow collection, or outside of any. -/
  keyPlace : Option KeyPlace := none
  /-- The same for what is around that flow collection, one place for each. -/
  outerPlaces : List (Option KeyPlace) := []

namespace Scanner

/-- Whether the place is inside of a flow collection. -/
def inFlow (s : Scanner) : Bool := !s.outerPlaces.isEmpty

/-- One more than the column of the innermost block; zero outside of blocks. -/
def level (s : Scanner) : Nat := s.levels.headD 0

/-- Adds a token that is read from the next `n` characters. -/
def push (s : Scanner) (t : Token) (n : Nat) : Scanner :=
  { s with tokens := s.tokens.push t, cursor := s.cursor.skip n }

/-- Adds a token that is read up to a place. -/
def pushTo (s : Scanner) (t : Token) (c : Cursor) : Scanner :=
  { s with tokens := s.tokens.push t, cursor := c }

/-- Puts a token in behind the first `n`. -/
def insert (s : Scanner) (n : Nat) (t : Token) : Scanner :=
  { s with tokens := s.tokens.extract 0 n ++ #[t] ++ s.tokens.extract n s.tokens.size }

/-- Starts a block in a column, unless there is one already. Its token goes behind the first
`n`. -/
def openBlock (s : Scanner) (column n : Nat) (t : Token) : Scanner :=
  if !s.inFlow && decide (s.level < column + 1) then
    { s.insert n t with levels := (column + 1) :: s.levels }
  else s

/-- Ends the blocks above a level. -/
def closeBlocks (s : Scanner) (level : Nat) : Scanner :=
  if s.inFlow then s
  else
    let closed := s.levels.takeWhile (level < ·)
    { s with
      tokens := s.tokens ++ Array.replicate closed.length Token.blockEnd
      levels := s.levels.drop closed.length }

/-- Gives up the place where a key may have started; refused if it has to be one. -/
def dropKey (s : Scanner) : Option Scanner :=
  if s.keyPlace.any (·.required) then none else some { s with keyPlace := none }

/-- Keeps the place if a key can start here. -/
def saveKey (s : Scanner) : Option Scanner :=
  if s.keyAllowed then do
    let c := s.cursor
    let required := !s.inFlow && s.level == c.column + 1
    let s ← s.dropKey
    return { s with keyPlace := some ⟨s.tokens.size, required, c.line, c.column, c.offset⟩ }
  else some s

/-- Gives up the places that are out of reach; refused if one has to be a key. -/
def dropStale (s : Scanner) : Option Scanner := do
  let check (p : Option KeyPlace) : Option (Option KeyPlace) :=
    match p with
    | some k =>
        if !k.isStale s.cursor then some p else if k.required then none else some none
    | none => some none
  return { s with keyPlace := ← check s.keyPlace, outerPlaces := ← s.outerPlaces.mapM check }

/-- Whether a mark may stand here that starts an item or a key of a block. -/
def blockAllowed (s : Scanner) : Bool := s.inFlow || s.keyAllowed

/-! ### Tokens -/

/-- The end of the text. -/
def takeEnd (s : Scanner) : Option Scanner :=
  (s.closeBlocks 0).dropKey

/-- A directive. -/
def takeDirective (s : Scanner) : Option Scanner := do
  let s ← (s.closeBlocks 0).dropKey
  let (t, c) ← takeDirective? s.cursor
  return { s.pushTo t c with keyAllowed := false }

/-- The start or the end of a document. -/
def takeDocumentMark (s : Scanner) (t : Token) : Option Scanner := do
  let s ← (s.closeBlocks 0).dropKey
  return { s.push t 3 with keyAllowed := false }

/-- The start of a flow collection. -/
def takeFlowStart (s : Scanner) (t : Token) : Option Scanner := do
  let s ← s.saveKey
  return { s.push t 1 with
    keyAllowed := true
    keyPlace := none
    outerPlaces := s.keyPlace :: s.outerPlaces }

/-- The end of a flow collection. -/
def takeFlowEnd (s : Scanner) (t : Token) : Option Scanner := do
  let s ← s.dropKey
  return { s.push t 1 with
    keyAllowed := false
    keyPlace := s.outerPlaces.headD none
    outerPlaces := s.outerPlaces.tail }

/-- A comma. -/
def takeFlowEntry (s : Scanner) : Option Scanner := do
  let s ← s.dropKey
  return { s.push .flowEntry 1 with keyAllowed := true }

/-- A dash in front of an item. -/
def takeBlockEntry (s : Scanner) : Option Scanner := do
  if !s.blockAllowed then none
  let s ← (s.openBlock s.cursor.column s.tokens.size .blockSequence).dropKey
  return { s.push .blockEntry 1 with keyAllowed := true }

/-- The mark of a key. -/
def takeKey (s : Scanner) : Option Scanner := do
  if !s.blockAllowed then none
  let s ← (s.openBlock s.cursor.column s.tokens.size .blockMapping).dropKey
  return { s.push .key 1 with keyAllowed := !s.inFlow }

/-- The colon in front of a value. If a key may have started, it did. -/
def takeValue (s : Scanner) : Option Scanner :=
  match s.keyPlace with
  | some p =>
      let s := (s.insert p.tokens .key).openBlock p.column p.tokens .blockMapping
      some { s.push .value 1 with keyAllowed := false, keyPlace := none }
  | none =>
      if s.blockAllowed then
        let s := s.openBlock s.cursor.column s.tokens.size .blockMapping
        some { s.push .value 1 with keyAllowed := !s.inFlow }
      else none

/-- An alias, an anchor, a tag or a quoted scalar, each of which may start a key. -/
def takeWith (s : Scanner) (take : Cursor → Option (Token × Cursor)) : Option Scanner := do
  let s ← s.saveKey
  let (t, c) ← take s.cursor
  return { s.pushTo t c with keyAllowed := false }

/-- A block scalar. -/
def takeBlockScalar (s : Scanner) (style : Style) : Option Scanner := do
  let s ← s.dropKey
  let (text, c) ← takeBlock (style == .folded) s.level s.cursor
  return { s.pushTo (.scalar style text) c with keyAllowed := true }

/-- A plain scalar. A key can start behind it if its line has ended. -/
def takePlainScalar (s : Scanner) : Option Scanner := do
  let s ← s.saveKey
  let (text, broken, c) ← takePlain s.inFlow s.level s.cursor
  return { s.pushTo (.scalar .plain text) c with keyAllowed := broken }

/-- Whether a plain scalar may start with a character in front of some text. -/
def startsPlain (flow : Bool) (c : Char) (rest : List Char) : Bool :=
  if c == '-' then !startsBlank rest
  else if c == '?' || c == ':' then !flow && !startsGap rest
  else !(isGap c || isFlowMark c || "#&*!|>'\"%@`".toList.contains c)

/-- Takes the token that starts with a character in front of some text. -/
def takeToken (s : Scanner) (c : Char) (rest : List Char) : Option Scanner :=
  let quoted (style : Style) (place : Cursor) : Option (Token × Cursor) :=
    (takeQuoted c place).map fun (text, place) => (.scalar style text, place)
  if c == '%' && s.cursor.column == 0 then s.takeDirective
  else if s.cursor.atMark "---" then s.takeDocumentMark .documentStart
  else if s.cursor.atMark "..." then s.takeDocumentMark .documentEnd
  else if c == '[' then s.takeFlowStart .flowSequence
  else if c == '\x7b' then s.takeFlowStart .flowMapping
  else if c == ']' then s.takeFlowEnd .flowSequenceEnd
  else if c == '\x7d' then s.takeFlowEnd .flowMappingEnd
  else if c == ',' then s.takeFlowEntry
  else if c == '-' && startsGap rest then s.takeBlockEntry
  else if c == '?' && (s.inFlow || startsGap rest) then s.takeKey
  else if c == ':' && (s.inFlow || startsGap rest) then s.takeValue
  else if c == '*' then s.takeWith fun place => (takeAnchorName? place).map (·.map Token.reference id)
  else if c == '&' then s.takeWith fun place => (takeAnchorName? place).map (·.map Token.anchor id)
  else if c == '!' then s.takeWith (takeTag? s.inFlow)
  else if c == '|' && !s.inFlow then s.takeBlockScalar .literal
  else if c == '>' && !s.inFlow then s.takeBlockScalar .folded
  else if c == '\'' then s.takeWith (quoted .singleQuoted)
  else if c == '"' then s.takeWith (quoted .doubleQuoted)
  else if startsPlain s.inFlow c rest then s.takePlainScalar
  else none

/-- Goes to the next token. -/
def toNext (s : Scanner) : Option Scanner := do
  let c := s.cursor
  let (keyAllowed, c) :=
    Cursor.toToken s.inFlow false s.keyAllowed c.line c.column c.offset c.rest
  let s ← { s with keyAllowed, cursor := c }.dropStale
  return s.closeBlocks (c.column + 1)

/-- Takes all tokens, each of which has at least one character, so a text has no more tokens than
`fuel` if it has fewer characters. -/
def run : Nat → Scanner → Option (Array Token)
  | 0, _ => none
  | fuel + 1, s => do
      let s ← s.toNext
      match s.cursor.rest with
      | [] => return (← s.takeEnd).tokens
      | c :: rest => run fuel (← s.takeToken c rest)

end Scanner

/-- Cuts a text into tokens. A byte order mark at its start is dropped. -/
def Token.scan (text : String) : Option (List Token) :=
  let cs := text.toList
  if cs.all isPermitted then
    let cs := if cs.head? == some byteOrderMark then cs.tail else cs
    let cs := unifyBreaks cs
    (Scanner.run (cs.length + 1) { cursor := { rest := cs } }).map Array.toList
  else none

end SignalExpr.Yaml
