import EnvAudit.KeyList
import EnvAudit.IgnorePattern

/-!
# Findings

What differs between the keys that are used and those that are declared.
-/
namespace EnvAudit

structure Findings where
  /-- Used and not declared, in the order of use. -/
  missing : List String
  /-- Declared and not used, in the order of declaration. -/
  unused : List String
  deriving DecidableEq, Repr

namespace Findings

def between (used declared : KeyList) : Findings where
  missing := used.keys.filter fun key => !declared.contains key
  unused := declared.keys.filter fun key => !used.contains key

/-- Leaves out the keys that a pattern covers. -/
def without (findings : Findings) (patterns : List String) : Findings where
  missing := findings.missing.filter fun key => !IgnorePattern.anyCovers patterns key
  unused := findings.unused.filter fun key => !IgnorePattern.anyCovers patterns key

end Findings

end EnvAudit
