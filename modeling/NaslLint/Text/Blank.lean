import NaslLint.Text.Range

/-!
# Blank characters

The characters that count as blank between the parts of a script: the white space of
Unicode together with the information separators `U+001C` to `U+001F`.
-/

namespace NaslLint.Text

def blankRanges : List (Nat × Nat) :=
  [(0x9, 0xd), (0x1c, 0x20), (0x85, 0x85), (0xa0, 0xa0), (0x1680, 0x1680), (0x2000, 0x200a),
   (0x2028, 0x2029), (0x202f, 0x202f), (0x205f, 0x205f), (0x3000, 0x3000)]

def isBlank (c : Char) : Bool :=
  inRanges blankRanges c.toNat

def trimStart (t : List Char) : List Char :=
  t.dropWhile isBlank

def trimEnd (t : List Char) : List Char :=
  (t.reverse.dropWhile isBlank).reverse

def trim (t : List Char) : List Char :=
  trimEnd (trimStart t)

theorem blankRanges_ascending : Ascending blankRanges := by decide

end NaslLint.Text
