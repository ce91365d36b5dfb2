/-
**Where a statement ends.**

A statement ends at a semicolon that is code and stands in no bracket. The semicolons of literals,
comments and nested blocks do not count. A closing bracket without an opener belongs to the enclosing
block, and no terminator is looked for behind it.
-/

import ScopedHandles.Region

namespace ScopedHandles

/-- The place of the terminator, where `depth` brackets are open. -/
def statementEndFrom (scanner : Scanner) (depth : Nat) : Text → Option Nat
  | [] => none
  | c :: rest =>
    let later := scanner.next c
    if scanner.regionOf c ≠ .code then (statementEndFrom later depth rest).map (· + 1)
    else if opensBracket c then (statementEndFrom later (depth + 1) rest).map (· + 1)
    else if closesBracket c then
      match depth with
      | 0 => none
      | outer + 1 => (statementEndFrom later outer rest).map (· + 1)
    else if c = ';' ∧ depth = 0 then some 0
    else (statementEndFrom later depth rest).map (· + 1)

/-- The place of the semicolon that ends the statement in which `text` begins. -/
def statementEnd (text : Text) : Option Nat :=
  statementEndFrom .start 0 text

end ScopedHandles
