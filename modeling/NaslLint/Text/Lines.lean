/-!
# Lines of a text

A text is cut into lines at every line boundary character; the two-character boundary `\r\n`
counts once. Reading a file turns its carriage returns into newlines first.
-/

namespace NaslLint.Text

def isLineBreak (c : Char) : Bool :=
  match c with
  | '\n' | '\r' | '\x0b' | '\x0c' | '\x1c' | '\x1d' | '\x1e' | '\u0085' | '\u2028' | '\u2029' => true
  | _ => false

/-- The lines of a text without their line ends. A line end at the very end opens no further
line. -/
def lines : List Char → List (List Char)
  | [] => []
  | '\r' :: '\n' :: more => [] :: lines more
  | c :: more =>
    if isLineBreak c then [] :: lines more
    else match lines more with
      | [] => [[c]]
      | l :: ls => (c :: l) :: ls

/-- The lines of a text with their numbers, from 1 on. -/
def numberedLines (t : List Char) : List (Nat × List Char) :=
  ((lines t).zipIdx 1).map fun (l, n) => (n, l)

/-- Text with `\r\n` and `\r` turned into `\n`. -/
def unifyNewlines : List Char → List Char
  | [] => []
  | '\r' :: '\n' :: more => '\n' :: unifyNewlines more
  | '\r' :: more => '\n' :: unifyNewlines more
  | c :: more => c :: unifyNewlines more

end NaslLint.Text
