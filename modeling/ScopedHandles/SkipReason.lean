/-
**Why a declaration is left alone.**
-/

namespace ScopedHandles

/-- A reason to leave a declaration as it is. -/
inductive SkipReason where
  /-- No terminator stands before the block closes. -/
  | noInitializer
  /-- The block returns the handle, or a call chained to it. -/
  | returnsHandle
  /-- The handle is assigned again in its block. -/
  | reassigned
  /-- Block comments do not balance. -/
  | unbalancedComment
  /-- The block never closes. -/
  | unterminatedScope
  /-- The initializer is no single call. -/
  | notACall
  /-- Every numbered name is taken. -/
  | namesExhausted
  deriving DecidableEq, Repr, Inhabited

namespace SkipReason

/-- The name of a reason in reports. -/
def label : SkipReason → String
  | noInitializer => "no_initializer_match"
  | returnsHandle => "returns_handle"
  | reassigned => "reassigned"
  | unbalancedComment => "unbalanced_comment"
  | unterminatedScope => "unterminated_scope"
  | notACall => "synthesis_mismatch"
  | namesExhausted => "name_exhausted"

/-- A reason in words. -/
def message : SkipReason → String
  | noInitializer => "declaration has no terminated initializer"
  | returnsHandle => "handle is returned from its block"
  | reassigned => "handle is reassigned inside its block"
  | unbalancedComment => "malformed comment nesting"
  | unterminatedScope => "enclosing block never closes"
  | notACall => "initializer is not a single call expression"
  | namesExhausted => "no fresh symbol name left for this prefix"

end SkipReason

end ScopedHandles
