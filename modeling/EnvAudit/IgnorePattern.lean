/-!
# Ignore patterns

A pattern that ends in an asterisk covers the keys that begin with the rest of it, one that only begins with an
asterisk those that end with the rest, and any other pattern one key.
-/
namespace EnvAudit

inductive IgnorePattern where
  | startsWith (text : List Char)
  | endsWith (text : List Char)
  | exactly (key : List Char)
  deriving DecidableEq, Repr

namespace IgnorePattern

/-- The asterisk at the end comes first, so `*A*` covers the keys that begin with `*A`. -/
def ofText (text : String) : IgnorePattern :=
  let chars := text.toList
  if chars.getLast? = some '*' then startsWith chars.dropLast
  else
    match chars with
    | '*' :: rest => endsWith rest
    | _ => exactly chars

def covers (pattern : IgnorePattern) (key : String) : Bool :=
  match pattern with
  | startsWith text => text.isPrefixOf key.toList
  | endsWith text => text.isSuffixOf key.toList
  | exactly text => text == key.toList

/-- Whether one of some patterns covers a key. -/
def anyCovers (patterns : List String) (key : String) : Bool :=
  patterns.any fun pattern => (ofText pattern).covers key

end IgnorePattern

end EnvAudit
