/-!
# Bytes and text

Scripts are stored one byte per character: the byte is the character's code point. File lists and
logs are stored as UTF-8.
-/

namespace NaslLint

abbrev Bytes := List UInt8

namespace Text

/-- The text of bytes that are code points. -/
def ofLatin1 (bytes : Bytes) : List Char :=
  bytes.map fun b => Char.ofNat b.toNat

def toLatin1 (t : List Char) : Bytes :=
  t.map fun c => UInt8.ofNat c.toNat

def ofUtf8? (bytes : Bytes) : Option (List Char) :=
  (String.fromUTF8? (ByteArray.mk bytes.toArray)).map String.toList

def toUtf8 (s : String) : Bytes :=
  s.toUTF8.data.toList

end Text

end NaslLint
