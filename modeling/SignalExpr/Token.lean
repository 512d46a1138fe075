import SignalExpr.Sample.Decimal
import SignalExpr.Text.Position
import SignalExpr.Text.Quoted

/-!
Tokens: what one lexeme of the source text stands for, and where it begins.
-/

namespace SignalExpr

/-- What a lexeme stands for. -/
inductive TokenKind where
  | integer (value : Nat)
  | number (value : Sample)
  /-- A variable as written. -/
  | sigil (text : String)
  | ident (name : String)
  /-- The text between two double quotes. -/
  | str (text : String)
  | leftParen
  | rightParen
  | leftBracket
  | rightBracket
  | comma
  | semicolon
  | plus
  | minus
  | star
  | slash
  | shiftLeft
  | shiftRight
  | equalEqual
  | notEqual
  | less
  | greater
  | lessEqual
  | greaterEqual
  | andAnd
  | orOr
  | ampersand
  | pipe
  | caret
  | tilde
  | bang
  | assign
deriving DecidableEq, Inhabited

namespace TokenKind

/-- The name of a kind in messages. -/
def label : TokenKind → String
  | integer _ => "Integer"
  | number _ => "Number"
  | sigil _ => "Variable"
  | ident _ => "Ident"
  | str _ => "Str"
  | leftParen => "LParen"
  | rightParen => "RParen"
  | leftBracket => "LBracket"
  | rightBracket => "RBracket"
  | comma => "Comma"
  | semicolon => "Semicolon"
  | plus => "Plus"
  | minus => "Minus"
  | star => "Star"
  | slash => "Slash"
  | shiftLeft => "Shl"
  | shiftRight => "Shr"
  | equalEqual => "EqEq"
  | notEqual => "NotEq"
  | less => "Lt"
  | greater => "Gt"
  | lessEqual => "LtEq"
  | greaterEqual => "GtEq"
  | andAnd => "AndAnd"
  | orOr => "OrOr"
  | ampersand => "Amp"
  | pipe => "Pipe"
  | caret => "Caret"
  | tilde => "Tilde"
  | bang => "Bang"
  | assign => "Assign"

/-- The kind in messages, with what it carries in parentheses. -/
def describe (kind : TokenKind) : String :=
  match kind with
  | integer n => kind.label ++ "(" ++ toString n ++ ")"
  | number x => kind.label ++ "(" ++ Sample.Layout.constant.write x ++ ")"
  | sigil text | ident text | str text => kind.label ++ "(" ++ Text.quote text ++ ")"
  | _ => kind.label

/-- Separates two statements. -/
def isSeparator : TokenKind → Bool
  | comma | semicolon => true
  | _ => false

end TokenKind

/-- A token and the place of its first character. -/
structure Token where
  kind : TokenKind
  position : Position
deriving DecidableEq, Inhabited

/-- The tokens of a text, and the place of its end. -/
structure TokenList where
  tokens : List Token
  stop : Position
deriving DecidableEq, Inhabited

namespace TokenList

/-- The place of the next token, or of the end. -/
def position (ts : TokenList) : Position :=
  match ts.tokens with
  | [] => ts.stop
  | t :: _ => t.position

/-- The name that messages give to the end of the text. -/
def endLabel : String := "Eof"

end TokenList

end SignalExpr
