import MixedRadix.Config.Problem
import MixedRadix.Path

/-!
# Where a kernel is written
-/

namespace MixedRadix.Config

/-- The path of the file to write. A relative one is taken from the directory of the file that holds
the configuration. -/
def outputPath (c : Config) (configPath : String) : Except Problem String :=
  match c.output with
  | none => .error .missingOutput
  | some output =>
    if Path.isAbsolute output then .ok output
    else .ok (Path.join ((Path.parent? configPath).getD "") output)

end MixedRadix.Config
