import NaslLint.FileTree
import NaslLint.Text.Blank

/-!
# Other programs

Finding an executable file, and reading what a program has written.
-/

namespace NaslLint

def FileTree.isExecutable (t : FileTree) (p : Path) : Bool :=
  match t.at? p with
  | some (.file mode _) => mode &&& 0o111 != 0
  | _ => false

/-- Finds a program: as it is given, or else in one of the directories. -/
def findProgram? (tree : FileTree) (directories : List Path) (program : String) :
    Option String :=
  if tree.isExecutable (.ofString program) then some program
  else ((directories.map fun d => d / program).find? tree.isExecutable).map Path.toString

inductive TextEncoding where
  | utf8
  | latin1
  | ascii
deriving DecidableEq, Repr

namespace TextEncoding

def decode? : TextEncoding → Bytes → Option (List Char)
  | utf8, bytes => Text.ofUtf8? bytes
  | latin1, bytes => some (Text.ofLatin1 bytes)
  | ascii, bytes => if bytes.all (· < 128) then some (Text.ofLatin1 bytes) else none

end TextEncoding

inductive ProgramOutput where
  | nothing
  | text (t : List Char)
  | bytes (b : Bytes)
deriving DecidableEq, Repr

/-- What a program has written as text without the blanks around it. -/
def ProgramOutput.read? (encoding : TextEncoding) : ProgramOutput → Option (List Char)
  | nothing => some []
  | text t => some (Text.trim t)
  | bytes b => (encoding.decode? b).map Text.trim

end NaslLint
