import NaslLint.Pattern.Basic

/-!
# Searching with patterns

The first place of a text at which a pattern fits, and all places from left to right without
overlap. Places at which the pattern cannot fit are passed over without trying it:

* `Pattern.opening` gives, where it can, a test that the next character passes whenever the pattern
  fits;
* `Pattern.leadingRun` gives the class of a run with which the pattern opens: where such a pattern
  does not fit, it does not fit one character of that class further on either.
-/

namespace NaslLint

/-- A fit of a pattern: the stretch of text it covers and the groups it fills. -/
structure Match where
  span : Span
  groups : List (String × Span)

namespace Match

def start (m : Match) : Nat :=
  m.span.start

def stop (m : Match) : Nat :=
  m.span.stop

def text (m : Match) : List Char :=
  m.span.text

/-- The text of a group, if the group took part in the match. -/
def group? (m : Match) (name : String) : Option (List Char) :=
  (m.groups.lookup name).map Span.text

/-- The text of a group, empty if it took no part. -/
def group (m : Match) (name : String) : List Char :=
  (m.group? name).getD []

end Match

namespace Pattern

/-- A test passed by the next character wherever the pattern, followed by something that opens
with a character passing `next`, fits. There is none where the next character may be any or may be
missing. -/
def openingThen : Pattern → Option (Char → Bool) → Option (Char → Bool)
  | .nothing, next => next
  | .word [], next => next
  | .word (w :: _), _ => some (w == ·)
  | .wordAnyCase [], next => next
  | .wordAnyCase (w :: _), _ => some (Text.sameLetter w)
  | .one cls, _ => some cls
  | .run _ 0 _ cls, next => next.map fun f c => cls c || f c
  | .run _ (_ + 1) _ cls, _ => some cls
  | .seq p q, next => p.openingThen (q.openingThen next)
  | .alt p q, next =>
    match p.openingThen next, q.openingThen next with
    | some f, some g => some fun c => f c || g c
    | _, _ => none
  | .many 0 _ p, next =>
    match p.openingThen none, next with
    | some f, some g => some fun c => f c || g c
    | _, _ => none
  | .many (_ + 1) _ p, _ => p.openingThen none
  | .group _ p, next => p.openingThen next
  | .again _, _ => none
  | .textStart, next | .lineStart, next => next
  | .textEnd, _ | .lineEnd, _ => none

def opening (p : Pattern) : Option (Char → Bool) :=
  p.openingThen none

/-- The class of the unlimited run with which the pattern opens. -/
def leadingRun : Pattern → Option (Char → Bool)
  | .run .longest _ none cls => some cls
  | .seq p _ => p.leadingRun
  | _ => none

/-- The first way a pattern fits at a place of a text of `size` characters. -/
def matchAt? (p : Pattern) (size : Nat) (s : Place) : Option Match :=
  p.fit size s fun t => some ⟨s.spanTo t, t.groups⟩

def mayOpen (opening : Option (Char → Bool)) (rest : List Char) : Bool :=
  match opening, rest with
  | none, _ => true
  | some f, c :: _ => f c
  | some _, [] => false

/-- Whether a fit is still possible after a place without one has been passed over character
`c`. -/
def livesPast (lead : Option (Char → Bool)) (c : Char) : Bool :=
  match lead with
  | none => true
  | some cls => !cls c

/-- The first match at or after a place. While `live` is false, the pattern is known not to fit. -/
def findFrom (p : Pattern) (size : Nat) (opening lead : Option (Char → Bool)) :
    Bool → Option Char → Nat → List Char → Option Match
  | live, prev, pos, rest =>
    match if live && mayOpen opening rest then p.matchAt? size ⟨prev, pos, rest, []⟩ else none with
    | some m => some m
    | none =>
      match rest with
      | [] => none
      | c :: more => findFrom p size opening lead (livesPast lead c) (some c) (pos + 1) more

def find? (p : Pattern) (t : List Char) : Option Match :=
  p.findFrom t.length p.opening p.leadingRun true none 0 t

def occursIn (p : Pattern) (t : List Char) : Bool :=
  (p.find? t).isSome

def matchStart? (p : Pattern) (t : List Char) : Option Match :=
  p.matchAt? t.length (.ofText t)

/-- The matches at or after a place that do not start before position `resume`, each search going on
where the match before it ended. -/
def findAllFrom (p : Pattern) (size : Nat) (opening lead : Option (Char → Bool)) :
    Bool → Nat → Option Char → Nat → List Char → List Match
  | live, resume, prev, pos, rest =>
    match if live && resume ≤ pos && mayOpen opening rest
        then p.matchAt? size ⟨prev, pos, rest, []⟩ else none with
    | some m =>
      match rest with
      | [] => [m]
      | c :: more =>
        m :: findAllFrom p size opening lead true (max m.stop (pos + 1)) (some c) (pos + 1) more
    | none =>
      match rest with
      | [] => []
      | c :: more =>
        findAllFrom p size opening lead (pos < resume || livesPast lead c) resume
          (some c) (pos + 1) more

/-- All matches in a text from left to right, without overlap. -/
def findAll (p : Pattern) (t : List Char) : List Match :=
  p.findAllFrom t.length p.opening p.leadingRun true 0 none 0 t

def replaceAll (p : Pattern) (new : Match → List Char) (t : List Char) : List Char :=
  let (last, out) := (p.findAll t).foldl
    (fun (pos, out) m => (m.stop, out ++ (t.drop pos).take (m.start - pos) ++ new m)) (0, [])
  out ++ t.drop last

end Pattern

end NaslLint
