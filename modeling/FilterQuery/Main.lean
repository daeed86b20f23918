import FilterQuery.Cli.Run

open FilterQuery.Cli

def main (args : List String) : IO UInt32 := do
  let environment ← (Key.all.filterMap Key.environmentName?).filterMapM fun name => do
    return (← IO.getEnv name).map (name, ·)
  let output := run args environment
  IO.print output.stdout
  IO.eprint output.stderr
  return output.code.toUInt32
