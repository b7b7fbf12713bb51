/-!
# Script categories

The phase of a scan in which a script runs.
-/

namespace NaslLint

/-- The category of a script, in the order in which the phases of a scan run. -/
inductive Category where
  | init
  | scanner
  | settings
  | gatherInfo
  | attack
  | mixedAttack
  | destructiveAttack
  | denial
  | killHost
  | flood
  | finish
deriving DecidableEq, Repr

namespace Category

def all : List Category :=
  [.init, .scanner, .settings, .gatherInfo, .attack, .mixedAttack, .destructiveAttack, .denial,
   .killHost, .flood, .finish]

def name : Category → String
  | init => "ACT_INIT"
  | scanner => "ACT_SCANNER"
  | settings => "ACT_SETTINGS"
  | gatherInfo => "ACT_GATHER_INFO"
  | attack => "ACT_ATTACK"
  | mixedAttack => "ACT_MIXED_ATTACK"
  | destructiveAttack => "ACT_DESTRUCTIVE_ATTACK"
  | denial => "ACT_DENIAL"
  | killHost => "ACT_KILL_HOST"
  | flood => "ACT_FLOOD"
  | finish => "ACT_END"

/-- The names that a script may state, with the numbers that a scan gives to them. -/
def numbers : List (String × Nat) :=
  [("ACT_INIT", 0), ("ACT_SCANNER", 1), ("ACT_SETTINGS", 2), ("ACT_GATHER_INFO", 3),
   ("ACT_ATTACK", 4), ("ACT_MIXED_ATTACK", 5), ("ACT_DESTRUCTIVE_ATTACK", 6), ("ACT_DENIAL", 7),
   ("ACT_KILL_HOST", 8), ("ACT_FLOOD", 9), ("ACT_END", 10)]

def number : Category → Nat
  | init => 0
  | scanner => 1
  | settings => 2
  | gatherInfo => 3
  | attack => 4
  | mixedAttack => 5
  | destructiveAttack => 6
  | denial => 7
  | killHost => 8
  | flood => 9
  | finish => 10

def ofName? (name : String) : Option Category :=
  all.find? (·.name == name)

end Category

inductive CategoryFault where
  /-- The script states no category. -/
  | missing
  /-- What the script states is the name of no category. -/
  | unknown (name : String)
deriving DecidableEq, Repr

end NaslLint
