/-!
The configuration of an engine.
-/

namespace SignalExpr

/-- How much effort goes into the code. -/
inductive OptLevel where
  | none
  | speed
  | speedAndSize
deriving DecidableEq, Repr, Inhabited

namespace OptLevel

def name : OptLevel → String
  | none => "none"
  | speed => "speed"
  | speedAndSize => "speed_and_size"

def ofName? : String → Option OptLevel
  | "none" => some none
  | "speed" => some speed
  | "speed_and_size" => some speedAndSize
  | _ => Option.none

end OptLevel

/-- The configuration of an engine. -/
structure Config where
  optLevel : OptLevel := .speed
  /-- Check the code before it is used. -/
  verify : Bool := true
  /-- Keep a listing of the code with each function. -/
  keepListing : Bool := false
deriving DecidableEq, Repr, Inhabited

end SignalExpr
