import SignalExpr.Error
import SignalExpr.Text.Blank

/-!
The lexer. `lexeme` reads the one lexeme at the head of a text and gives back what is behind it;
`tokenize` skips blanks, reads a lexeme, and goes on.
-/

namespace SignalExpr.Lexer

/-- One lexeme: what it stands for, its characters, and the text behind it. -/
structure Lexeme where
  kind : TokenKind
  text : List Char
  rest : List Char

/-- The operator or delimiter at the head of a text, and its length. The longer one wins. -/
def mark? : List Char → Option (TokenKind × Nat)
  | '(' :: _ => some (.leftParen, 1)
  | ')' :: _ => some (.rightParen, 1)
  | '[' :: _ => some (.leftBracket, 1)
  | ']' :: _ => some (.rightBracket, 1)
  | ',' :: _ => some (.comma, 1)
  | ';' :: _ => some (.semicolon, 1)
  | '+' :: _ => some (.plus, 1)
  | '-' :: _ => some (.minus, 1)
  | '*' :: _ => some (.star, 1)
  | '/' :: _ => some (.slash, 1)
  | '^' :: _ => some (.caret, 1)
  | '~' :: _ => some (.tilde, 1)
  | '<' :: '<' :: _ => some (.shiftLeft, 2)
  | '<' :: '=' :: _ => some (.lessEqual, 2)
  | '<' :: _ => some (.less, 1)
  | '>' :: '>' :: _ => some (.shiftRight, 2)
  | '>' :: '=' :: _ => some (.greaterEqual, 2)
  | '>' :: _ => some (.greater, 1)
  | '=' :: '=' :: _ => some (.equalEqual, 2)
  | '=' :: _ => some (.assign, 1)
  | '!' :: '=' :: _ => some (.notEqual, 2)
  | '!' :: _ => some (.bang, 1)
  | '&' :: '&' :: _ => some (.andAnd, 2)
  | '&' :: _ => some (.ampersand, 1)
  | '|' :: '|' :: _ => some (.orOr, 2)
  | '|' :: _ => some (.pipe, 1)
  | _ => none

/-- The parts of a numeral and the text behind it. The fraction begins with the point and the
exponent with its mark; either may be missing. -/
structure Numeral where
  whole : List Char
  fraction : List Char
  exponent : List Char
  rest : List Char

namespace Numeral

def text (n : Numeral) : List Char :=
  n.whole ++ n.fraction ++ n.exponent

/-- A numeral with a point or an exponent denotes a sample. -/
def isFractional (n : Numeral) : Bool :=
  n.fraction != [] || n.exponent != []

/-- An exponent mark has to be followed by a digit. -/
def exponentIsComplete (n : Numeral) : Bool :=
  match n.exponent.getLast? with
  | none => true
  | some c => c.isDigit

/-- The head of a text with the fraction of a numeral taken off. -/
def takeFraction : List Char → List Char × List Char
  | '.' :: cs => ('.' :: cs.takeWhile Char.isDigit, cs.dropWhile Char.isDigit)
  | cs => ([], cs)

/-- The sign of an exponent taken off. -/
def takeSign : List Char → List Char × List Char
  | '+' :: cs => (['+'], cs)
  | '-' :: cs => (['-'], cs)
  | cs => ([], cs)

/-- The head of a text with the exponent of a numeral taken off. -/
def takeExponent : List Char → List Char × List Char
  | [] => ([], [])
  | c :: cs =>
      if c = 'e' ∨ c = 'E' then
        let (sign, ds) := takeSign cs
        (c :: sign ++ ds.takeWhile Char.isDigit, ds.dropWhile Char.isDigit)
      else ([], c :: cs)

/-- The longest numeral at the head of a text. -/
def scan (cs : List Char) : Numeral :=
  let whole := cs.takeWhile Char.isDigit
  let (fraction, behindFraction) := takeFraction (cs.dropWhile Char.isDigit)
  let (exponent, rest) := takeExponent behindFraction
  ⟨whole, fraction, exponent, rest⟩

/-- A character that must not follow a numeral directly. -/
def clashes (c : Char) : Bool :=
  c.isAlphanum || c == '.'

/-- Whole numbers have to be below `2 ^ 63`. -/
def integerLimit : Nat := 0x8000000000000000

/-- What a numeral denotes. -/
def kind (n : Numeral) : Except Cause TokenKind :=
  let text := String.ofList n.text
  if n.isFractional then
    match Sample.ofText? n.text with
    | some x => .ok (.number x)
    | none => .error (.invalidNumber text)
  else
    let value := Text.digitsValue n.whole
    if value < integerLimit then .ok (.integer value) else .error (.invalidInteger text)

/-- The lexeme of a numeral. An incomplete exponent is refused before what follows is looked at,
and what follows before the value. -/
def lexeme (n : Numeral) : Except Cause Lexeme :=
  if n.exponentIsComplete then
    match n.rest with
    | c :: _ =>
        if clashes c then .error (.malformedNumber (String.ofList (n.text ++ [c])))
        else n.kind.map fun kind => ⟨kind, n.text, n.rest⟩
    | [] => n.kind.map fun kind => ⟨kind, n.text, n.rest⟩
  else .error (.malformedNumber (String.ofList n.text))

end Numeral

/-- Text up to the closing quote. There are no escapes. -/
def stringLexeme (cs : List Char) : Except Cause Lexeme :=
  let body := cs.takeWhile (· != '"')
  match cs.dropWhile (· != '"') with
  | [] => .error .unclosedString
  | _ :: rest => .ok ⟨.str (String.ofList body), '"' :: body ++ ['"'], rest⟩

/-- The letters and digits behind a dollar sign, of which the first has to be a letter. Whether
they name a variable is decided when the variable is used. -/
def variableLexeme (cs : List Char) : Except Cause Lexeme :=
  if (cs.head?.map Char.isAlpha).getD false then
    let text := '$' :: cs.takeWhile Char.isAlphanum
    .ok ⟨.sigil (String.ofList text), text, cs.dropWhile Char.isAlphanum⟩
  else .error .malformedVariable

/-- A character that may stand in a name. -/
def isNameChar (c : Char) : Bool :=
  c.isAlphanum || c == '_'

def nameLexeme (cs : List Char) : Lexeme :=
  let text := cs.takeWhile isNameChar
  ⟨.ident (String.ofList text), text, cs.dropWhile isNameChar⟩

/-- A numeral begins with a digit, or with a point before a digit. -/
def startsNumeral (c : Char) (cs : List Char) : Bool :=
  c.isDigit || (c == '.' && (cs.head?.map Char.isDigit).getD false)

/-- The lexeme that begins with `c`. -/
def lexeme (c : Char) (cs : List Char) : Except Cause Lexeme :=
  match mark? (c :: cs) with
  | some (kind, n) => .ok ⟨kind, (c :: cs).take n, (c :: cs).drop n⟩
  | none =>
      if c = '"' then stringLexeme cs
      else if c = '$' then variableLexeme cs
      else if startsNumeral c cs then (Numeral.scan (c :: cs)).lexeme
      else if c.isAlpha || c == '_' then .ok (nameLexeme (c :: cs))
      else .error (.unexpectedCharacter c)

/-- The tokens of a text that begins at `p`. Every lexeme has a character, so the length of the
text is fuel enough. -/
def scan : Nat → Position → List Char → Except Error TokenList
  | 0, p, _ => .ok ⟨[], p⟩
  | fuel + 1, p, cs =>
      let here := p.after (cs.takeWhile Text.isBlank)
      match cs.dropWhile Text.isBlank with
      | [] => .ok ⟨[], here⟩
      | c :: rest =>
          match lexeme c rest with
          | .error cause => .error (.atPosition here cause)
          | .ok l =>
              match scan fuel (here.after l.text) l.rest with
              | .error e => .error e
              | .ok ts => .ok ⟨⟨l.kind, here⟩ :: ts.tokens, ts.stop⟩

/-- The tokens of a text. -/
def tokenize (text : String) : Except Error TokenList :=
  let cs := text.toList
  scan (cs.length + 1) Position.start cs

end SignalExpr.Lexer
