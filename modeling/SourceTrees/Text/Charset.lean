import SourceTrees.Text.Utf8

/-!
# Character sets by name

A range of the source can be read in three character sets.  Each has one proper name and any number
of others.

## Protocol

* A name is compared without regard to letter case, and any run of characters in it that are neither
  letters nor digits nor points counts as one underscore; at its ends such a run counts as nothing.
* A point in one of the other names may also stand for an underscore, one in the proper name may not.

## Results

* `Charset.named?` finds a set; `Charset.decode` reads bytes in it and never fails.
* `named?_properName`, `named?_otherName` — every set is found under each of its names.
-/

set_option autoImplicit false

namespace SourceTrees.Text

/-- The character sets that source text can be read in. -/
inductive Charset where
  | utf8
  | ascii
  | latin1
  deriving DecidableEq, Repr

namespace Charset

/-- The compared form of a name. -/
def normalName (name : String) : String :=
  let step (acc : List Char × Bool) (c : Char) : List Char × Bool :=
    if c.isAlphanum || c == '.' then
      ((if acc.2 && !acc.1.isEmpty then [c.toLower, '_'] else [c.toLower]) ++ acc.1, false)
    else (acc.1, true)
  String.ofList (name.toList.foldl step ([], false)).1.reverse

/-- All sets. -/
def all : List Charset := [utf8, ascii, latin1]

/-- The proper name of a set, in its compared form. -/
def properName : Charset → String
  | utf8 => "utf_8"
  | ascii => "ascii"
  | latin1 => "latin_1"

/-- The other names of a set, in their compared form. -/
def otherNames : Charset → List String
  | utf8 => ["cp65001", "u8", "utf", "utf8", "utf8_ucs2", "utf8_ucs4"]
  | ascii =>
    ["646", "ansi_x3.4_1968", "ansi_x3.4_1986", "ansi_x3_4_1968", "cp367", "csascii", "ibm367",
      "iso646_us", "iso_646.irv_1991", "iso_ir_6", "us", "us_ascii"]
  | latin1 =>
    ["8859", "cp819", "csisolatin1", "ibm819", "iso8859", "iso8859_1", "iso_8859_1",
      "iso_8859_1_1987", "iso_ir_100", "l1", "latin", "latin1"]

/-- A compared form with underscores for its points. -/
def withoutPoints (name : String) : String :=
  String.ofList (name.toList.map fun c => if c = '.' then '_' else c)

/-- Does a compared form name the set? -/
def isNamed (name : String) (c : Charset) : Bool :=
  c.properName == name || c.otherNames.contains name || c.otherNames.contains (withoutPoints name)

/-- The set with the given name. -/
def named? (name : String) : Option Charset := all.find? (isNamed (normalName name))

/-- Every set is found under its proper name. -/
theorem named?_properName (c : Charset) : named? c.properName = some c := by
  cases c <;> decide +kernel

/-- Every set is found under its other names. -/
theorem named?_otherName {c : Charset} : ∀ name ∈ c.otherNames, named? name = some c := by
  cases c <;> decide +kernel

/-- The text that the bytes spell in a set.  What is no character becomes a replacement. -/
def decode : Charset → List UInt8 → String
  | .utf8, bytes => Utf8.decode bytes
  | .ascii, bytes =>
    String.ofList (bytes.map fun b =>
      if b.toNat < 0x80 then Char.ofNat b.toNat else Utf8.replacement)
  | .latin1, bytes => String.ofList (bytes.map fun b => Char.ofNat b.toNat)

end Charset

end SourceTrees.Text
