import SignalExpr.CommandLine

/-!
The program: reads the files that the options name, runs, and prints.
-/

open SignalExpr.CommandLine

/-- The text of a file, if it can be read. -/
def readText (path : String) : IO (Option String) := do
  try
    return some (← IO.FS.readFile path)
  catch _ =>
    return none

/-- The files that options name, and the configuration in the home directory. -/
def readFiles (o : Options) : IO Files := do
  let texts ← (o.file.toList ++ o.config.toList).mapM fun path => do
    return (path, ← readText path)
  let home ← IO.getEnv "HOME"
  return {
    read := fun path => (texts.lookup path).join
    home := (← home.mapM fun dir => readText (dir ++ "/.jit-expr/config.yaml")).join }

def main (argv : List String) : IO UInt32 := do
  match Options.read argv with
  | .error refusal =>
      if refusal = .help then IO.print helpText else IO.eprint helpText
      return refusal.code.toUInt32
  | .ok o =>
      let outcome := o.run (← readFiles o)
      for piece in outcome.out do
        match piece with
        | .text s => IO.print s
        | .listing s => IO.println s
      for failure in outcome.failure do
        IO.eprintln failure.message
      return outcome.code.toUInt32
