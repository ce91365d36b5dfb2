/-
**The call of a query.**

A call has a target, an argument list, and sometimes a last argument that asks for generated keys. It is
laid out anew on one line: white space around the dots of its target vanishes, the argument list is
trimmed, commas at its end are dropped, and the argument for keys follows a comma and a blank.

* `Call.read?` — the parts of a call.
* `Call.render` — a call laid out anew.
-/

import ScopedHandles.Text.Basic

namespace ScopedHandles

/-- The target of a call on one line: white space runs become a blank, and none stands beside a dot. -/
def collapseFrom : (last : Option Char) → (blank : Bool) → Text → Text
  | _, _, [] => []
  | last, blank, c :: rest =>
    if isWhiteSpace c then collapseFrom last true rest
    else if blank && c != '.' && last != some '.' then ' ' :: c :: collapseFrom (some c) false rest
    else c :: collapseFrom (some c) false rest

/-- The target of a call without superfluous white space. -/
def collapse (target : Text) : Text :=
  collapseFrom none false (trim target)

/-- A call in parts: its target, its arguments, and a last argument that asks for generated keys. -/
structure Call where
  target : Text
  arguments : Text
  keys : Option Text
  deriving DecidableEq, Repr

namespace Call

/-- Cuts off the last argument if it is a name that ends in `KEYS`. -/
def splitKeys (inner : Text) : Text × Option Text :=
  let last := (inner.reverse.takeWhile (· != ',')).reverse
  match before? (',' :: last) inner with
  | none => (inner, none)
  | some arguments =>
    let keys := trim last
    if keys.all isDottedChar && "KEYS".toList.isSuffixOf keys then (trimEnd arguments, some keys)
    else (inner, none)

/-- The parts of an expression that reads target, opening parenthesis, arguments, closing
parenthesis. The first parenthesis opens the arguments and the last one closes them. -/
def read? (expression : Text) : Option Call :=
  let target := expression.takeWhile (· != '(')
  match expression.dropWhile (· != '(') with
  | [] => none
  | _ :: rest =>
    match before? [')'] (trimEnd rest) with
    | none => none
    | some inner =>
      if target.contains ';' then none
      else
        let (arguments, keys) := splitKeys (trim inner)
        some { target := trim target, arguments, keys }

/-- The argument list without commas at its end. -/
def trimArguments (arguments : Text) : Text :=
  trim (arguments.reverse.dropWhile (· == ',')).reverse

/-- A call written on one line. -/
def render (call : Call) : Text :=
  let arguments := trimArguments call.arguments
  let keys :=
    match call.keys with
    | none => []
    | some keys => if arguments.isEmpty then keys else ", ".toList ++ keys
  collapse call.target ++ '(' :: arguments ++ keys ++ [')']

end Call

end ScopedHandles
