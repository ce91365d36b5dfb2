/-
**Handles.**

Two kinds of handles have to be closed: cursors over results, and prepared queries.
-/

namespace ScopedHandles

/-- The kind of a handle. -/
inductive HandleKind where
  | cursor
  | query
  deriving DecidableEq, Repr, Inhabited

/-- The name of a kind in reports. -/
def HandleKind.label : HandleKind → String
  | cursor => "cursor"
  | query => "query"

end ScopedHandles
