import SignalExpr.Yaml.Scalar

/-!
Tokens of a YAML text. The nesting of blocks, which the text gives by indentation, is written out
by tokens at the start and at the end of each block.
-/

namespace SignalExpr.Yaml

/-- A part of a tag, in UTF-8. -/
abbrev TagText := List UInt8

inductive Token where
  /-- The version of YAML that a document is written in. -/
  | version (major minor : Nat)
  /-- An abbreviation for the first part of tags. -/
  | handle (name : List Char) (expansion : TagText)
  | documentStart
  | documentEnd
  | blockSequence
  | blockMapping
  /-- The end of a block sequence or mapping. -/
  | blockEnd
  | flowSequence
  | flowSequenceEnd
  | flowMapping
  | flowMappingEnd
  /-- A dash in front of an item. -/
  | blockEntry
  /-- A comma. -/
  | flowEntry
  /-- What follows is a key. -/
  | key
  /-- What follows is a value. -/
  | value
  | reference (name : List Char)
  | anchor (name : List Char)
  /-- A tag without a handle is written out in full. -/
  | tag (handle : List Char) (suffix : TagText)
  | scalar (style : Style) (text : List Char)
deriving DecidableEq, Repr

end SignalExpr.Yaml
