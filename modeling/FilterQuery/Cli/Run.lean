import FilterQuery.Cli.Arguments
import FilterQuery.Cli.DryRun

/-! A run of the command line. -/

namespace FilterQuery.Cli

def run (args : List String) (environment : List (String × String)) : Output :=
  match readSettings args environment with
  | .ok settings => runSettings settings
  | .error .displayHelp => { code := 0, stdout := ArgumentError.displayHelp.message ++ "\n" }
  | .error e => { code := 2, stderr := "error: " ++ e.message ++ "\n" }

end FilterQuery.Cli
