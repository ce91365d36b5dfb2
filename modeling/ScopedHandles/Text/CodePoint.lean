/-
**Classes of code points.**

A class is a list of inclusive ranges in ascending order. A look-up stops at the first range that
begins behind the code point, so the common characters are answered within a few steps.
-/

namespace ScopedHandles.CodePoint

/-- Whether `code` lies in one of the ascending `ranges`. -/
def isIn (code : Nat) : (ranges : List (Nat × Nat)) → Bool
  | [] => false
  | (first, last) :: later =>
    if code < first then false else if code ≤ last then true else isIn code later

/-- Code points with the property `White_Space`. -/
def whiteSpace : List (Nat × Nat) :=
  [(0x9, 0xd), (0x20, 0x20), (0x85, 0x85), (0xa0, 0xa0), (0x1680, 0x1680), (0x2000, 0x200a),
   (0x2028, 0x2029), (0x202f, 0x202f), (0x205f, 0x205f), (0x3000, 0x3000)]

/-- Code points of the general category `Connector_Punctuation`. -/
def connector : List (Nat × Nat) :=
  [(0x5f, 0x5f), (0x203f, 0x2040), (0x2054, 0x2054), (0xfe33, 0xfe34), (0xfe4d, 0xfe4f),
   (0xff3f, 0xff3f)]

/-- Code points with the property `Join_Control`. -/
def joinControl : List (Nat × Nat) :=
  [(0x200c, 0x200d)]

end ScopedHandles.CodePoint
