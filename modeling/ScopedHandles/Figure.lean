/-
**Sums of figures.**
-/

namespace ScopedHandles

/-- The sum of a figure over a list. -/
def total {α : Type} (figure : α → Nat) : List α → Nat
  | [] => 0
  | item :: rest => figure item + total figure rest

end ScopedHandles
