import NaslLint.Text.Digit
import NaslLint.Text.Find

/-!
# Command line options

A command line is a list of words. A word is an option if it starts with a hyphen; options have a
long name such as `--full`, of which a unique beginning suffices, or a short one such as `-f`. A
value follows as the next word, behind an equals sign, or directly behind a short name; short names
without values can be joined in one word.

* `Command.readWord?` tells what a word is.
* `Command.events` finds the values of the options.
* `Command.read` carries out what the options ask for.
-/

namespace NaslLint

inductive Arity where
  | flag
  | one
  | several
deriving DecidableEq, Repr

/-- An option with its names. The key tells what it stands for; the request for help has none. -/
structure OptionForm (κ : Type) where
  names : List String
  arity : Arity
  key : Option κ

def OptionForm.help {κ : Type} : OptionForm κ :=
  { names := ["-h", "--help"], arity := .flag, key := none }

/-- Text that stands in one word with an option. -/
structure Attachment where
  text : List Char
  /-- The text follows an equals sign. -/
  equals : Bool
  /-- The text follows a long name. -/
  long : Bool

inductive Word (κ : Type) where
  | argument (text : String)
  /-- Two hyphens, behind which there are no options. -/
  | divider
  | unknown (text : String)
  | option (form : OptionForm κ) (attached : Option Attachment)

inductive Event (κ : Type) where
  | use (form : OptionForm κ) (values : List String)
  /-- A word that belongs to no option. -/
  | stray
  | misuse

inductive Refusal where
  | help
  | misuse
deriving DecidableEq, Repr

/-- A command with options that fill in a setting. A value can be refused. Of the options of an
exclusive group at most one may be used, of those of a required group at least one must be. -/
structure Command (κ σ : Type) where
  forms : List (OptionForm κ)
  start : σ
  take : κ → List String → σ → Option σ
  exclusive : List (List κ) := []
  required : List (List κ) := []

namespace Command

variable {κ σ : Type}

/-! ## Words -/

def formNamed? (forms : List (OptionForm κ)) (name : List Char) : Option (OptionForm κ) :=
  forms.find? fun f => f.names.contains (String.ofList name)

/-- The options a name of which starts with a text, once for each such name. -/
def formsStarting (forms : List (OptionForm κ)) (start : List Char) : List (OptionForm κ) :=
  forms.flatMap fun f => (f.names.filter fun n => start.isPrefixOf n.toList).map fun _ => f

/-- A negative number in decimal notation, which is no option. A line end may follow it. -/
def isNegativeNumber (t : List Char) : Bool :=
  match t with
  | '-' :: number =>
    let number := if number.getLast? == some '\n' then number.dropLast else number
    match number.dropWhile Text.isDigit with
    | [] => !number.isEmpty
    | '.' :: decimals => !decimals.isEmpty && decimals.all Text.isDigit
    | _ => false
  | _ => false

/-- A word that has the form of an option but is the name of none. -/
def unnamed (t : List Char) : Word κ :=
  if isNegativeNumber t || t.contains ' ' then .argument (String.ofList t)
  else .unknown (String.ofList t)

def splitEquals (t : List Char) : List Char × Option (List Char) :=
  match t.dropWhile (· != '=') with
  | [] => (t, none)
  | _ :: value => (t.takeWhile (· != '='), some value)

/-- Tells what a word is, unless it is the beginning of several names. -/
def readWord? (forms : List (OptionForm κ)) (word : String) : Option (Word κ) :=
  let t := word.toList
  match t with
  | '-' :: second :: tail =>
    let long := second == '-'
    let (name, value) := splitEquals t
    match formNamed? forms t, formNamed? forms name, value with
    | some f, _, _ => some (.option f none)
    | none, some f, some v => some (.option f (some ⟨v, true, long⟩))
    | none, _, _ =>
      if long then
        match formsStarting forms name with
        | [] => some (unnamed t)
        | [f] => some (.option f (value.map fun v => ⟨v, true, true⟩))
        | _ => none
      else
        match formNamed? forms ['-', second] with
        | some f => some (.option f (some ⟨tail, false, false⟩))
        | none => some (unnamed t)
  | _ => some (.argument word)

def readWords? (forms : List (OptionForm κ)) : List String → Option (List (Word κ))
  | [] => some []
  | w :: more =>
    if w == "--" then some (.divider :: more.map .argument)
    else do return (← readWord? forms w) :: (← readWords? forms more)

/-! ## Values -/

inductive JoinedEnd (κ : Type) where
  /-- An option whose values, if it takes any, are the next words. -/
  | bare (form : OptionForm κ)
  | valued (form : OptionForm κ) (value : String)
  | stray

/-- Takes apart an option and the text attached to it: an option that takes a value takes the text,
behind a flag there are further short names. -/
def unjoin (forms : List (OptionForm κ)) :
    OptionForm κ → Bool → List Char → Option (List (OptionForm κ) × JoinedEnd κ)
  | f, equals, t =>
    if f.arity != Arity.flag then some ([], .valued f (String.ofList t))
    else
      match t with
      | [] => none
      | c :: rest =>
        if equals || c == '-' then none
        else
          match formNamed? forms ['-', c], rest with
          | none, _ => some ([f], .stray)
          | some next, [] => some ([f], .bare next)
          | some next, '=' :: value =>
            (unjoin forms next true value).map fun (flags, last) => (f :: flags, last)
          | some next, d :: more =>
            (unjoin forms next false (d :: more)).map fun (flags, last) => (f :: flags, last)
termination_by _ _ t => t.length

def leadingArguments : List (Word κ) → List String
  | .argument s :: more => s :: leadingArguments more
  | _ => []

/-- The use of an option whose values are the next words, if there are enough. -/
def useNext? (f : OptionForm κ) (next : List (Word κ)) : Option (List String) :=
  match f.arity, leadingArguments next with
  | .flag, _ => some []
  | _, [] => none
  | .one, a :: _ => some [a]
  | .several, values => some values

/-- Takes apart a word with an option. A flag with a long name takes no text. -/
def unjoinWord (forms : List (OptionForm κ)) (f : OptionForm κ) :
    Option Attachment → Option (List (OptionForm κ) × JoinedEnd κ)
  | none => some ([], .bare f)
  | some a => if a.long && f.arity == Arity.flag then none else unjoin forms f a.equals a.text

/-- What happens on a command line. The first `taken` arguments are values of the option before
them. Nothing happens after a misuse. -/
def events (forms : List (OptionForm κ)) (taken : Nat) : List (Word κ) → List (Event κ)
  | [] => []
  | .argument _ :: more =>
    match taken with
    | 0 => .stray :: events forms 0 more
    | n + 1 => events forms n more
  | .divider :: more => .stray :: events forms 0 more
  | .unknown _ :: more => .stray :: events forms 0 more
  | .option f attached :: more =>
    match unjoinWord forms f attached with
    | none => [.misuse]
    | some (flags, last) =>
      let uses : List (Event κ) := flags.map fun f => .use f []
      match last with
      | .stray => uses ++ Event.stray :: events forms 0 more
      | .valued f v => uses ++ Event.use f [v] :: events forms 0 more
      | .bare f =>
        match useNext? f more with
        | none => [.misuse]
        | some values => uses ++ Event.use f values :: events forms values.length more

/-! ## Carrying out -/

/-- How far a command line has been carried out: the setting, the options used, and whether there
were stray words. -/
structure Progress (κ σ : Type) where
  setting : σ
  used : List κ := []
  strays : Bool := false

variable [DecidableEq κ]

def conflicts (c : Command κ σ) (used : List κ) (k : κ) : Bool :=
  c.exclusive.any fun group => group.contains k && used.any fun u => u ≠ k && group.contains u

def step (c : Command κ σ) (p : Progress κ σ) : Event κ → Except Refusal (Progress κ σ)
  | .misuse => .error .misuse
  | .stray => .ok { p with strays := true }
  | .use f values =>
    match f.key with
    | none => .error .help
    | some k =>
      match c.take k values p.setting with
      | none => .error .misuse
      | some setting =>
        if c.conflicts p.used k then .error .misuse
        else .ok { p with setting, used := k :: p.used }

/-- Whether all that is required has been used and nothing is left over. -/
def complete (c : Command κ σ) (p : Progress κ σ) : Bool :=
  !p.strays && c.required.all fun group => group.any p.used.contains

def read (c : Command κ σ) (words : List String) : Except Refusal σ :=
  match readWords? c.forms words with
  | none => .error .misuse
  | some words => do
    let p ← (events c.forms 0 words).foldlM c.step { setting := c.start }
    if c.complete p then return p.setting else .error .misuse

end Command

end NaslLint
