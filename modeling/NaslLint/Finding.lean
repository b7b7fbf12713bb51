import NaslLint.Fault

/-!
# Findings

What a check has to say. A remark is what a check says about the file it looks at; a finding is a
remark together with the file and the check it comes from. Work that fails half way keeps what it
has produced up to there: an outcome is a list of results and, possibly, the fault that ended it.
-/

namespace NaslLint

inductive Severity where
  | error
  | warning
  | fix
  | note
deriving DecidableEq, Repr

/-- The weight of a complaint. A check that looks at a file complains; fixes are told of by repairs
alone. -/
inductive Weight where
  | error
  | warning
deriving DecidableEq, Repr

def Weight.severity : Weight → Severity
  | error => .error
  | warning => .warning

/-- A remark on the file under examination. An unsigned one names neither file nor check. -/
structure Remark where
  weight : Weight
  message : String
  line : Option Nat := none
  signed : Bool := true
deriving DecidableEq, Repr

namespace Remark

def error (message : String) : Remark :=
  { weight := .error, message }

def warning (message : String) : Remark :=
  { weight := .warning, message }

/-- An error in a line, counted from 1. -/
def errorInLine (line : Nat) (message : String) : Remark :=
  { weight := .error, message, line := some line }

def unsignedError (message : String) : Remark :=
  { weight := .error, message, signed := false }

end Remark

/-- A remark with its origin: the file as it is written and the name of the check. -/
structure Finding where
  severity : Severity
  message : String
  file : Option String := none
  check : Option String := none
  line : Option Nat := none
deriving DecidableEq, Repr

def Remark.toFinding (r : Remark) (file : Path) (check : String) : Finding :=
  { severity := r.weight.severity
    message := r.message
    file := if r.signed then some file.toString else none
    check := if r.signed then some check else none
    line := r.line }

/-- The results of work and what ended it early, if anything did. -/
structure Outcome (α : Type) where
  results : List α
  fault : Option Fault := none
deriving DecidableEq, Repr

namespace Outcome

def done {α : Type} (results : List α) : Outcome α :=
  { results }

def fail {α : Type} (fault : Fault) : Outcome α :=
  { results := [], fault := some fault }

/-- Work followed by other work, which is not begun if the first one fails. -/
def andThen {α : Type} (a b : Outcome α) : Outcome α :=
  match a.fault with
  | none => { results := a.results ++ b.results, fault := b.fault }
  | some _ => a

instance {α : Type} : Append (Outcome α) := ⟨andThen⟩

def following {α : Type} (results : List α) (rest : Outcome α) : Outcome α :=
  { rest with results := results ++ rest.results }

def forEach {α β : Type} (items : List β) (work : β → Outcome α) : Outcome α :=
  items.foldr (fun b rest => work b ++ rest) (done [])

def map {α β : Type} (f : α → β) (o : Outcome α) : Outcome β :=
  { results := o.results.map f, fault := o.fault }

end Outcome

end NaslLint
