/-
**Resource headers.**

The header of a block declares a handle as its resource: type, name, initializer. Comment lines inside
the initializer are dropped, because what follows the header must not become a comment. The call of a
query is laid out anew; the initializer of a cursor is kept.
-/

import ScopedHandles.Header.SingleCall
import ScopedHandles.Header.Call
import ScopedHandles.SkipReason
import ScopedHandles.Declaration.Scan

namespace ScopedHandles

/-! ### Comment lines -/

/-- The text without the lines that hold only a line comment, where `lineStart` says whether a line
begins here and `inComment` whether the rest of the line is dropped. -/
def dropCommentLines (lineStart inComment : Bool) : Text → Text
  | [] => []
  | c :: rest =>
    if inComment then dropCommentLines (c == '\n') (c != '\n') rest
    else if lineStart && "//".toList.isPrefixOf ((c :: rest).dropWhile isIndentChar) then
      dropCommentLines false true rest
    else c :: dropCommentLines (c == '\n') false rest

/-- The text without its comment lines. -/
def withoutCommentLines (text : Text) : Text :=
  dropCommentLines true false text

/-! ### Headers -/

namespace Declaration

/-- The initializer as it stands in a header. -/
def resource (kind : HandleKind) (initializer : Text) : Except SkipReason Text :=
  match kind with
  | .cursor => .ok (trim initializer)
  | .query =>
    match Call.read? initializer with
    | none => .error .notACall
    | some call =>
      if (collapse call.target).isEmpty then .error .notACall else .ok call.render

/-- The header that declares the handle as the resource of a block. -/
def header (declaration : Declaration) : Except SkipReason Text :=
  match declaration.initializer with
  | none => .error .noInitializer
  | some initializer =>
    let expression := withoutCommentLines initializer
    if isSingleCall expression then
      (resource declaration.kind expression).map fun value =>
        trim declaration.declaredType ++ ' ' :: declaration.name ++ " = ".toList ++ value
    else .error .notACall

end Declaration

end ScopedHandles
