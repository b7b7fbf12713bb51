/-!
# Letters regardless of case

Comparison of a character with an ASCII letter when upper and lower case do not matter. Three
ASCII letters have partners outside ASCII: the dotted capital and the dotless small `i`, the long
`s` and the Kelvin sign.
-/

namespace NaslLint.Text

/-- The small letter that stands for a character when case does not matter. -/
def foldCase (c : Char) : Char :=
  if 'A' ≤ c && c ≤ 'Z' then Char.ofNat (c.toNat + 32)
  else if c = '\u0130' || c = '\u0131' then 'i'
  else if c = '\u017f' then 's'
  else if c = '\u212a' then 'k'
  else c

def sameLetter (a b : Char) : Bool :=
  foldCase a == foldCase b

/-- The characters that a character may stand for when case does not matter. -/
def caseVariants (c : Char) : List Char :=
  let small := foldCase c
  if 'a' ≤ small && small ≤ 'z' then
    let partners := match small with
      | 'i' => ['\u0130', '\u0131']
      | 's' => ['\u017f']
      | 'k' => ['\u212a']
      | _ => []
    small :: Char.ofNat (small.toNat - 32) :: partners
  else [c]

/-- A class of characters widened to the case variants of its members. -/
def anyCase (cls : Char → Bool) (c : Char) : Bool :=
  (caseVariants c).any cls

theorem sameLetter_self (c : Char) : sameLetter c c = true := by
  simp [sameLetter]

end NaslLint.Text
