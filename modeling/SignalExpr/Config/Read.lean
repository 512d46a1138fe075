import SignalExpr.Config
import SignalExpr.Yaml.Node

/-!
Reading and writing configurations. Every setting may be left out, each may be given once, and
keys of no setting are ignored.
-/

namespace SignalExpr.Config

open Yaml (Document Properties)

/-- The tag of truth values. -/
def boolTag : Yaml.TagText := "tag:yaml.org,2002:bool".toUTF8.toList

/-- The name in a tag that starts with an exclamation mark. -/
def localTag? (p : Properties) : Option String :=
  match p.tag with
  | some (mark :: name) =>
      if mark = '!'.toNat.toUInt8 then String.fromUTF8? ⟨name.toArray⟩ else none
  | _ => none

/-- Whether a text stands for nothing. -/
def isNull (text : List Char) : Bool :=
  ["", "~", "null", "Null", "NULL"].any (·.toList == text)

/-- A truth value: a scalar in one of three spellings, plain, or literal with the tag for it. -/
def readBool (d : Document) (n : Yaml.Node) : Option Bool :=
  match d.resolve? n with
  | some (.scalar p style text) =>
      if style = .plain ∨ (style = .literal ∧ p.tag = some boolTag) then
        if ["true", "True", "TRUE"].any (·.toList == text) then some true
        else if ["false", "False", "FALSE"].any (·.toList == text) then some false
        else none
      else none
  | _ => none

/-- A level, by its name as a tag in front of nothing, or else as a scalar of any style. -/
def readLevel (d : Document) (n : Yaml.Node) : Option OptLevel :=
  match d.resolve? n with
  | some (.scalar p style text) =>
      match localTag? p with
      | some name => if style = .plain ∧ isNull text then OptLevel.ofName? name else none
      | none => OptLevel.ofName? (String.ofList text)
  | _ => none

/-- The settings met so far. -/
structure Settings where
  optLevel : Option OptLevel := none
  verify : Option Bool := none
  keepListing : Option Bool := none

/-- Puts in a setting that was not given before. -/
def once {α : Type} (given : Option α) (value : Option α) : Option (Option α) :=
  match given, value with
  | none, some v => some (some v)
  | _, _ => none

/-- Adds one entry, whose key is a scalar. -/
def Settings.add (d : Document) (s : Settings) (entry : Yaml.Node × Yaml.Node) : Option Settings :=
  match d.resolve? entry.1 with
  | some (.scalar _ _ key) =>
      match String.ofList key with
      | "opt_level" => (once s.optLevel (readLevel d entry.2)).map ({ s with optLevel := · })
      | "verify" => (once s.verify (readBool d entry.2)).map ({ s with verify := · })
      | "keep_ir" => (once s.keepListing (readBool d entry.2)).map ({ s with keepListing := · })
      | _ => some s
  | _ => none

/-- The settings with defaults for those that were left out. -/
def Settings.complete (s : Settings) : Config :=
  let default : Config := {}
  { optLevel := s.optLevel.getD default.optLevel
    verify := s.verify.getD default.verify
    keepListing := s.keepListing.getD default.keepListing }

/-- The configuration of a document. An empty one leaves everything out. -/
def ofDocument (d : Document) : Option Config :=
  match d.root with
  | none | some (.scalar _ .plain []) => some {}
  | some (.mapping _ entries) => (entries.foldlM (Settings.add d) {}).map Settings.complete
  | _ => none

/-- Reads a configuration. -/
def read (text : String) : Option Config :=
  (Document.ofText? text).bind ofDocument

/-- Writes a configuration, all settings included. -/
def write (c : Config) : String :=
  s!"opt_level: {c.optLevel.name}\nverify: {c.verify}\nkeep_ir: {c.keepListing}\n"

end SignalExpr.Config
