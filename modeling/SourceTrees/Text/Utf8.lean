/-!
# UTF-8

Source code is kept as bytes; a text is its UTF-8 bytes, and a range of bytes is read back as text.

## Reading

Reading never fails.  It runs a machine over the bytes whose state is the sequence begun so far:
how many bytes are still missing, the range the next one must lie in, and the value read up to
here.  A byte outside that range ends the sequence: the part read becomes one replacement
character, and the byte is taken again as a first byte.  So every maximal part that could have
begun a character is replaced as a whole.

* `encode` writes, `decode` reads, `Reading` is the machine's state.
-/

set_option autoImplicit false

namespace SourceTrees.Text.Utf8

/-- The bytes of one character, by the width its code point needs. -/
def encodeChar (c : Char) : List UInt8 :=
  let n := c.toNat
  if n < 0x80 then [n.toUInt8]
  else if n < 0x800 then [(0xC0 + n / 64).toUInt8, (0x80 + n % 64).toUInt8]
  else if n < 0x10000 then
    [(0xE0 + n / 4096).toUInt8, (0x80 + n / 64 % 64).toUInt8, (0x80 + n % 64).toUInt8]
  else
    [(0xF0 + n / 262144).toUInt8, (0x80 + n / 4096 % 64).toUInt8, (0x80 + n / 64 % 64).toUInt8,
      (0x80 + n % 64).toUInt8]

/-- The bytes of a list of characters. -/
def encodeChars (cs : List Char) : List UInt8 := cs.flatMap encodeChar

/-- The bytes of a text. -/
def encode (s : String) : List UInt8 := encodeChars s.toList

/-- The character that stands for bytes that are not a character. -/
def replacement : Char := '\uFFFD'

/-- How far the machine has come: between characters, or inside one with `missing + 1` bytes still
    to come, the next of them between `low` and `high`, and the value so far. -/
inductive Reading where
  | between
  | inside (missing low high value : Nat)
  deriving DecidableEq, Repr

/-- A byte where a character may begin: what is read and how the machine goes on. -/
def first (b : Nat) : List Char × Reading :=
  if b < 0x80 then ([Char.ofNat b], .between)
  else if 0xC2 ≤ b ∧ b ≤ 0xDF then ([], .inside 0 0x80 0xBF (b - 0xC0))
  else if b = 0xE0 then ([], .inside 1 0xA0 0xBF 0)
  else if b = 0xED then ([], .inside 1 0x80 0x9F 0xD)
  else if 0xE1 ≤ b ∧ b ≤ 0xEF then ([], .inside 1 0x80 0xBF (b - 0xE0))
  else if b = 0xF0 then ([], .inside 2 0x90 0xBF 0)
  else if b = 0xF4 then ([], .inside 2 0x80 0x8F 4)
  else if 0xF1 ≤ b ∧ b ≤ 0xF3 then ([], .inside 2 0x80 0xBF (b - 0xF0))
  else ([replacement], .between)

/-- One byte in any state. -/
def next (r : Reading) (b : Nat) : List Char × Reading :=
  match r with
  | .between => first b
  | .inside missing low high value =>
    if low ≤ b ∧ b ≤ high then
      let value := value * 64 + (b - 0x80)
      match missing with
      | 0 => ([Char.ofNat value], .between)
      | missing + 1 => ([], .inside missing 0x80 0xBF value)
    else (replacement :: (first b).1, (first b).2)

/-- What is left to say when the bytes end. -/
def last : Reading → List Char
  | .between => []
  | .inside .. => [replacement]

/-- Reads on from a state. -/
def decodeFrom (r : Reading) : List UInt8 → List Char
  | [] => last r
  | b :: rest => (next r b.toNat).1 ++ decodeFrom (next r b.toNat).2 rest

/-- The characters that the bytes spell. -/
def decodeChars (bytes : List UInt8) : List Char := decodeFrom .between bytes

/-- The text that the bytes spell. -/
def decode (bytes : List UInt8) : String := String.ofList (decodeChars bytes)

end SourceTrees.Text.Utf8
