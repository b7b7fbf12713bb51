import NaslLint.Pattern.Search
import NaslLint.Text.Digit

/-!
# Addresses of web pages

The form of an address: a scheme, possibly credentials, a host given by name or number, possibly a
port, a path, a query and a fragment.
-/

namespace NaslLint.Url

open Pattern

/-- Characters of national names, up to the end of the basic plane. -/
def isNational (c : Char) : Bool :=
  '\u00a1' ≤ c && c ≤ '\uffff'

/-- Letters of national names of all planes. -/
def isNationalLetter (c : Char) : Bool :=
  ('a' ≤ c && c ≤ 'z') || isNational c || '\uffff' < c

def isNationalAlphanum (c : Char) : Bool :=
  isNationalLetter c || Text.isAsciiDigit c

def isMark (c : Char) : Bool :=
  among "-._~%!$&'()*+,;=:" c

def isPlain (c : Char) : Bool :=
  ('a' ≤ c && c ≤ 'z') || Text.isAsciiDigit c || isMark c

def digit : Pattern :=
  .one Text.isDigit

def digitBetween (lo hi : Char) : Pattern :=
  .one fun c => lo ≤ c && c ≤ hi

def times (n : Nat) (p : Pattern) : Pattern :=
  .many n (some n) p

def credentials : Pattern :=
  .chain [.run .longest 1 none (fun c => isPlain c || isNational c),
    .optional (.chain [":", .run .longest 0 none isPlain]), "@"]

def middleOctet : Pattern :=
  .chain [".", .oneOf [.chain [.optional "1", .run .longest 1 (some 2) Text.isDigit],
    .chain ["2", digitBetween '0' '4', digit], .chain ["25", digitBetween '0' '5']]]

def lastOctet : Pattern :=
  .chain [".", .oneOf ["0", .chain [digitBetween '1' '9', optionalChar Text.isDigit],
    .chain ["1", digit, digit], .chain ["2", digitBetween '0' '4', digit],
    .chain ["25", digitBetween '0' '5']]]

def privateAddress : Pattern :=
  .oneOf
    [.chain [wordOf ["10", "127"], times 2 middleOctet, lastOctet],
     .chain [wordOf ["169.254", "192.168"], middleOctet, lastOctet],
     .chain ["172.", .oneOf [.chain ["1", digitBetween '6' '9'], .chain ["2", digit],
       .chain ["3", digitBetween '0' '1']], middleOctet, lastOctet]]

def publicAddress : Pattern :=
  .chain [.oneOf [.chain [digitBetween '1' '9', optionalChar Text.isDigit],
      .chain ["1", digit, digit], .chain ["2", .one (among "01"), digit],
      .chain ["22", digitBetween '0' '3']],
    times 2 middleOctet, lastOctet]

def isHexDigit (c : Char) : Bool :=
  Text.isAsciiDigit c || ('a' ≤ c && c ≤ 'f') || ('A' ≤ c && c ≤ 'F')

def hexGroup : Pattern :=
  .run .longest 1 (some 4) isHexDigit

/-- A group and a colon, a number of times. -/
def groupsBefore (lo hi : Nat) : Pattern :=
  .many lo (some hi) (.chain [hexGroup, ":"])

def groupsAfter (lo hi : Nat) : Pattern :=
  .many lo (some hi) (.chain [":", hexGroup])

def embeddedOctet : Pattern :=
  .oneOf [.chain ["25", digitBetween '0' '5'],
    .chain [.optional (.oneOf [.chain ["2", digitBetween '0' '4'],
      .chain [.optional "1", .one Text.isAsciiDigit]]), .one Text.isAsciiDigit]]

def embeddedAddress : Pattern :=
  .chain [times 3 (.chain [embeddedOctet, "."]), embeddedOctet]

/-- An address of eight groups, where one run of zero groups may be left out. -/
def longAddress : Pattern :=
  .oneOf
    [.chain [groupsBefore 7 7, hexGroup],
     .chain [groupsBefore 1 7, ":"],
     .chain [groupsBefore 1 6, ":", hexGroup],
     .chain [groupsBefore 1 5, groupsAfter 1 2],
     .chain [groupsBefore 1 4, groupsAfter 1 3],
     .chain [groupsBefore 1 3, groupsAfter 1 4],
     .chain [groupsBefore 1 2, groupsAfter 1 5],
     .chain [hexGroup, ":", groupsAfter 1 6],
     .chain [":", .oneOf [groupsAfter 1 7, ":"]],
     .chain ["fe80:", .many 0 (some 4) (.chain [":", .run .longest 0 (some 4) isHexDigit]), "%",
       .run .longest 1 none Char.isAlphanum],
     .chain ["::", .optional (.chain ["ffff",
       .optional (.chain [":", .run .longest 1 (some 4) (· == '0')]), ":"]), embeddedAddress],
     .chain [groupsBefore 1 4, ":", embeddedAddress]]

def hostLabel : Pattern :=
  .chain [.many 0 none (.oneOf ["xn--", .chain [.one isNationalAlphanum, optionalChar (· == '-')]]),
    .run .longest 1 none isNationalAlphanum]

def hostName : Pattern :=
  .chain [hostLabel, .many 0 none (.chain [".", hostLabel]), ".",
    .oneOf [.chain ["xn--", .run .longest 2 none isNationalAlphanum],
      .run .longest 2 none isNationalLetter]]

/-- An address of a web page, from its start to the end of the text. -/
def pattern : Pattern :=
  (Pattern.chain
    [.textStart, .oneOf [.chain ["http", .optional "s"], "ftp"], "://", .optional credentials,
     .oneOf [privateAddress, "localhost", publicAddress, .chain ["[", longAddress, "]"], hostName],
     .optional (.chain [":", .run .longest 2 (some 5) Text.isDigit]),
     .optional (.chain ["/", .run .longest 0 none fun c =>
       isNationalAlphanum c || isMark c || among "@/" c]),
     .optional (.chain ["?", .run .longest 0 none fun c => !Text.isBlank c]),
     .optional (.chain ["#", .run .longest 0 none fun c => !Text.isBlank c]),
     .textEnd]).ignoringCase

def isValid (t : List Char) : Bool :=
  (pattern.matchStart? t).isSome

end NaslLint.Url
