import Tenancy.Pattern.Machine
import Tenancy.Pattern.Nesting
import Tenancy.Pattern.Reader

namespace Tenancy

/-!
# Limits — which patterns can be used

* `Pattern.ofText?` — the pattern that a text denotes, if it can be used.
-/

namespace Pattern

/-- How deep a pattern may be nested. -/
def maxNesting : Nat := 250

/-- The pattern that a text denotes, unless it is nested too deep or the machines that look for it
are too large. -/
def ofText? (text : String) : Option Pattern := do
  let p ← parse text
  if p.nesting ≤ maxNesting && p.outline.fits then return p else none

end Pattern

end Tenancy
