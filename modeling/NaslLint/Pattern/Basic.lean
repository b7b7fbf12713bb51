import NaslLint.Text.Blank
import NaslLint.Text.Case
import NaslLint.Text.Find

/-!
# Text patterns

A pattern describes pieces of text: literal words, characters of a class, repetitions, choices,
named groups and the text of a group once more. Where a pattern fits in several ways the ways are
ordered, and the first way that lets the whole pattern fit is the one taken.

* `Pattern` is the type of patterns, `Pattern.chain` and `Pattern.oneOf` build them from parts.
* `Place` is a place in a text together with the groups filled on the way to it.
* `Pattern.fit` finds the first way to fit a pattern at a place and to continue from its end.
-/

namespace NaslLint

/-- Which of the possible lengths of a repetition is tried first. -/
inductive Preference where
  | longest
  | shortest
deriving DecidableEq, Repr

/-- A description of pieces of text. -/
inductive Pattern where
  /-- The empty text. -/
  | nothing
  /-- A literal word. -/
  | word (w : List Char)
  /-- A literal word, in upper or lower case. -/
  | wordAnyCase (w : List Char)
  /-- A character of a class. -/
  | one (cls : Char → Bool)
  /-- At least `lo` and at most `hi` characters of a class. -/
  | run (pref : Preference) (lo : Nat) (hi : Option Nat) (cls : Char → Bool)
  /-- One pattern after the other. -/
  | seq (p q : Pattern)
  /-- The first pattern or, failing that, the second. -/
  | alt (p q : Pattern)
  /-- At least `lo` and at most `hi` times the pattern, more times preferred. -/
  | many (lo : Nat) (hi : Option Nat) (p : Pattern)
  /-- The pattern, its text remembered under a name. -/
  | group (name : String) (p : Pattern)
  /-- The text remembered under a name once more. -/
  | again (name : String)
  /-- The start of the text. -/
  | textStart
  /-- The start of a line. -/
  | lineStart
  /-- The end of the text, or the place before a newline that ends the text. -/
  | textEnd
  /-- The end of a line. -/
  | lineEnd

namespace Pattern

instance : Coe String Pattern := ⟨fun s => .word s.toList⟩

def chain : List Pattern → Pattern
  | [] => .nothing
  | [p] => p
  | p :: q :: more => .seq p (chain (q :: more))

/-- The first of several patterns that fits. -/
def oneOf : List Pattern → Pattern
  | [] => .one fun _ => false
  | [p] => p
  | p :: q :: more => .alt p (oneOf (q :: more))

/-- A pattern that may be left out, but rather is not. -/
def optional (p : Pattern) : Pattern :=
  .many 0 (some 1) p

def optionalChar (cls : Char → Bool) : Pattern :=
  .run .longest 0 (some 1) cls

/-- Any number of blanks, as many as possible. -/
def blanks : Pattern :=
  .run .longest 0 none Text.isBlank

def someBlanks : Pattern :=
  .run .longest 1 none Text.isBlank

/-- The words of a text, which a single space divides, with some pattern between them. -/
def wordsWith (between : Pattern) (words : String) : Pattern :=
  chain (((Text.splitOn ' ' words.toList).map .word).intersperse between)

def phrase (words : String) : Pattern :=
  wordsWith someBlanks words

def hyphened (words : String) : Pattern :=
  wordsWith (.run .longest 1 none fun c => Text.isBlank c || c == '-') words

def wordOf (words : List String) : Pattern :=
  oneOf (words.map fun w => .word w.toList)

def among (chars : String) (c : Char) : Bool :=
  chars.toList.contains c

def except (chars : String) (c : Char) : Bool :=
  !chars.toList.contains c

def inLine (c : Char) : Bool :=
  c != '\n'

/-- The rest of the line or a part of it, as long as possible. -/
def line : Pattern :=
  .run .longest 0 none inLine

/-- The pattern with its words and classes taken in upper and lower case. -/
def ignoringCase : Pattern → Pattern
  | .word w => .wordAnyCase w
  | .one cls => .one (Text.anyCase cls)
  | .run pref lo hi cls => .run pref lo hi (Text.anyCase cls)
  | .seq p q => .seq p.ignoringCase q.ignoringCase
  | .alt p q => .alt p.ignoringCase q.ignoringCase
  | .many lo hi p => .many lo hi p.ignoringCase
  | .group name p => .group name p.ignoringCase
  | p => p

/-- The names of the groups, in the order in which they open. -/
def groupNames : Pattern → List String
  | .seq p q | .alt p q => p.groupNames ++ q.groupNames
  | .many _ _ p => p.groupNames
  | .group name p => name :: p.groupNames
  | _ => []

end Pattern

/-- A stretch of text: where it starts and ends, and the text from its start on. -/
structure Span where
  start : Nat
  stop : Nat
  source : List Char

def Span.text (s : Span) : List Char :=
  s.source.take (s.stop - s.start)

/-- A place in a text: the character before it, the number of characters before it, the text after
it, and the groups filled so far, the latest first. -/
structure Place where
  prev : Option Char
  pos : Nat
  rest : List Char
  groups : List (String × Span)

namespace Place

def ofText (t : List Char) : Place :=
  ⟨none, 0, t, []⟩

def spanTo (s t : Place) : Span :=
  ⟨s.pos, t.pos, s.rest⟩

def group? (s : Place) (name : String) : Option Span :=
  s.groups.lookup name

def fill (s : Place) (name : String) (span : Span) : Place :=
  { s with groups := (name, span) :: s.groups }

/-- The place after a word, if it follows and its characters pass the comparison. -/
def after? (same : Char → Char → Bool) : List Char → Place → Option Place
  | [], s => some s
  | w :: ws, ⟨_, pos, c :: rest, groups⟩ =>
    if same w c then after? same ws ⟨some c, pos + 1, rest, groups⟩ else none
  | _ :: _, ⟨_, _, [], _⟩ => none

def afterRun? (cls : Char → Bool) : Nat → Place → Option Place
  | 0, s => some s
  | n + 1, ⟨_, pos, c :: rest, groups⟩ =>
    if cls c then afterRun? cls n ⟨some c, pos + 1, rest, groups⟩ else none
  | _ + 1, ⟨_, _, [], _⟩ => none

/-- The places reached from here over characters of a class, at most `limit` of them; the farthest
comes first, in front of the places given. -/
def reach (cls : Char → Bool) (groups : List (String × Span)) :
    Option Nat → Option Char → Nat → List Char → List Place → List Place
  | limit, prev, pos, c :: rest, acc =>
    if limit != some 0 && cls c then
      reach cls groups (limit.map (· - 1)) (some c) (pos + 1) rest
        (⟨prev, pos, c :: rest, groups⟩ :: acc)
    else ⟨prev, pos, c :: rest, groups⟩ :: acc
  | _, prev, pos, [], acc => ⟨prev, pos, [], groups⟩ :: acc

/-- Continues from the farthest place reached over characters of a class for which that works. -/
def tryLongest {α : Type} (cls : Char → Bool) (limit : Option Nat) (s : Place)
    (k : Place → Option α) : Option α :=
  (reach cls s.groups limit s.prev s.pos s.rest []).findSome? k

def tryShortest {α : Type} (cls : Char → Bool) (groups : List (String × Span))
    (k : Place → Option α) : Option Nat → Option Char → Nat → List Char → Option α
  | limit, prev, pos, c :: rest =>
    match k ⟨prev, pos, c :: rest, groups⟩ with
    | some a => some a
    | none =>
      if limit != some 0 && cls c then
        tryShortest cls groups k (limit.map (· - 1)) (some c) (pos + 1) rest
      else none
  | _, prev, pos, [] => k ⟨prev, pos, [], groups⟩

def atTextStart (s : Place) : Bool :=
  s.prev.isNone

def atLineStart (s : Place) : Bool :=
  match s.prev with
  | none => true
  | some c => c == '\n'

def atTextEnd (s : Place) : Bool :=
  match s.rest with
  | [] | ['\n'] => true
  | _ => false

def atLineEnd (s : Place) : Bool :=
  match s.rest with
  | [] => true
  | c :: _ => c == '\n'

end Place

namespace Pattern

def repeatFit {α : Type} (step : Place → (Place → Option α) → Option α) :
    Nat → Place → (Place → Option α) → Option α
  | 0, s, k => k s
  | n + 1, s, k => step s fun t => repeatFit step n t k

/-- Repeats a step up to `n` times, more times preferred. A repetition that does not move on is the
last one. -/
def repeatUpTo {α : Type} (step : Place → (Place → Option α) → Option α) (k : Place → Option α) :
    Nat → Place → Option α
  | 0, s => k s
  | n + 1, s =>
    match step s fun t => if t.pos = s.pos then k t else repeatUpTo step k n t with
    | some a => some a
    | none => k s

/-- Fits a pattern at a place and continues from its end, in the first way that works. In a text
of `size` characters no repetition can move on more than `size` times, so one more than that is no
limit. -/
def fit {α : Type} (size : Nat) : Pattern → Place → (Place → Option α) → Option α
  | .nothing, s, k => k s
  | .word w, s, k => (s.after? (· == ·) w).bind k
  | .wordAnyCase w, s, k => (s.after? Text.sameLetter w).bind k
  | .one cls, s, k =>
    match s.rest with
    | c :: rest => if cls c then k ⟨some c, s.pos + 1, rest, s.groups⟩ else none
    | [] => none
  | .run pref lo hi cls, s, k =>
    match s.afterRun? cls lo with
    | none => none
    | some t =>
      match pref with
      | .longest => t.tryLongest cls (hi.map (· - lo)) k
      | .shortest => Place.tryShortest cls t.groups k (hi.map (· - lo)) t.prev t.pos t.rest
  | .seq p q, s, k => fit size p s fun t => fit size q t k
  | .alt p q, s, k =>
    match fit size p s k with
    | some a => some a
    | none => fit size q s k
  | .many lo hi p, s, k =>
    repeatFit (fit size p) lo s fun t =>
      repeatUpTo (fit size p) k (match hi with | some h => h - lo | none => size + 1) t
  | .group name p, s, k => fit size p s fun t => k (t.fill name (s.spanTo t))
  | .again name, s, k =>
    match s.group? name with
    | none => none
    | some span => (s.after? (· == ·) span.text).bind k
  | .textStart, s, k => if s.atTextStart then k s else none
  | .lineStart, s, k => if s.atLineStart then k s else none
  | .textEnd, s, k => if s.atTextEnd then k s else none
  | .lineEnd, s, k => if s.atLineEnd then k s else none

end Pattern

end NaslLint
