/-!
# Lines on the terminal

What is shown to the user: lines of several kinds, indented by some columns.
-/

namespace NaslLint

inductive LineKind where
  | plain
  | ok
  | error
  | warning
  | info
  | heading
deriving DecidableEq, Repr

structure Line where
  kind : LineKind
  indent : Nat
  message : String
deriving DecidableEq, Repr

end NaslLint
