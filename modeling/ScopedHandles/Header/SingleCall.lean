/-
**Initializers that are a single call.**

Only an expression whose last token closes a call can be the resource of a block: brackets balance in
code, no comma stands outside of brackets, and the last character that is no white space is a closing
parenthesis in code.
-/

import ScopedHandles.Region

namespace ScopedHandles

/-- Whether the rest of an expression completes a call, where `depth` brackets are open and `closed`
says whether the last character was a closing parenthesis. -/
def completesCall (scanner : Scanner) (depth : Nat) (closed : Bool) : Text → Bool
  | [] => depth == 0 && closed
  | c :: rest =>
    let later := scanner.next c
    if isWhiteSpace c then completesCall later depth closed rest
    else if scanner.regionOf c ≠ .code then completesCall later depth false rest
    else if opensBracket c then completesCall later (depth + 1) false rest
    else if closesBracket c then
      match depth with
      | 0 => false
      | outer + 1 => completesCall later outer (c == ')') rest
    else if c = ',' ∧ depth = 0 then false
    else completesCall later depth false rest

/-- Whether an expression is a single call. -/
def isSingleCall (expression : Text) : Bool :=
  completesCall .start 0 false expression

end ScopedHandles
