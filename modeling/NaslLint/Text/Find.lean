/-!
# Finding and replacing literal text
-/

namespace NaslLint.Text

def contains (needle : List Char) : List Char → Bool
  | [] => needle.isEmpty
  | c :: more => needle.isPrefixOf (c :: more) || contains needle more

/-- Text in which the occurrences of `old`, taken from the left without overlap, are replaced. The
count tells how many characters still belong to the occurrence replaced last. -/
def replaceFrom (old new : List Char) : Nat → List Char → List Char
  | _, [] => []
  | skip + 1, _ :: more => replaceFrom old new skip more
  | 0, c :: more =>
    if old.isPrefixOf (c :: more) then new ++ replaceFrom old new (old.length - 1) more
    else c :: replaceFrom old new 0 more

/-- Text in which every occurrence of the non-empty `old` is replaced by `new`. -/
def replaceAll (old new t : List Char) : List Char :=
  replaceFrom old new 0 t

/-- The parts of a text between the occurrences of a character. -/
def splitOn (sep : Char) : List Char → List (List Char)
  | [] => [[]]
  | c :: more =>
    match splitOn sep more with
    | [] => [[c]]
    | p :: ps => if c = sep then [] :: p :: ps else (c :: p) :: ps

def occursIn (needle hay : String) : Bool :=
  contains needle.toList hay.toList

def mentionsAny (needles : List String) (hay : String) : Bool :=
  needles.any fun n => occursIn n hay

theorem contains_iff {needle hay : List Char} : contains needle hay = true ↔ needle <:+: hay := by
  induction hay with
  | nil => cases needle <;> simp [contains]
  | cons c more ih =>
    simp only [contains, Bool.or_eq_true, List.isPrefixOf_iff_prefix, ih, List.infix_cons_iff]

end NaslLint.Text
