/-
**The rest of a block.**

A text that begins inside an open block has a scope: what stands before the brace that closes the block.
Braces in comments and literals do not count.
-/

import ScopedHandles.Region
import ScopedHandles.SkipReason

namespace ScopedHandles

/-- What is wrong with a block that has no closing brace. -/
def Scanner.unclosed (scanner : Scanner) : SkipReason :=
  if scanner.depth = 0 then .unterminatedScope else .unbalancedComment

/-- The scope at the beginning of a text, `depth` inner blocks being open. -/
def scopeFrom (scanner : Scanner) (depth : Nat) : Text → Except SkipReason Text
  | [] => .error scanner.unclosed
  | c :: rest =>
    let later := scanner.next c
    if scanner.regionOf c = .code ∧ c = '}' then
      match depth with
      | 0 => if later.depth = 0 then .ok [] else .error .unbalancedComment
      | outer + 1 => (scopeFrom later outer rest).map (c :: ·)
    else if scanner.regionOf c = .code ∧ c = '{' then
      (scopeFrom later (depth + 1) rest).map (c :: ·)
    else
      (scopeFrom later depth rest).map (c :: ·)

/-- The text before the brace that closes the block in which `text` begins. -/
def scope (text : Text) : Except SkipReason Text :=
  scopeFrom .start 0 text

end ScopedHandles
