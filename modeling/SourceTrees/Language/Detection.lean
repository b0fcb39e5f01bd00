import SourceTrees.Keyed
import SourceTrees.Text.Lower

/-!
# Detecting the language of a file

The language of a file is told from its path alone: from what stands after the last dot of the file
name, in any letter case.  The file name is what follows the last separator, of either slant.

* `detect` answers with a language or with nothing; it never looks at the file.
* `extensions` lists the endings that have a language, each with its dot.
-/

set_option autoImplicit false

namespace SourceTrees.Language

/-- The language for each ending, the ending in small letters and without its dot. -/
def byExtension : Keyed String String where
  entries := [("java", "java"), ("py", "python"), ("ts", "typescript"), ("tsx", "typescript"),
    ("js", "javascript"), ("jsx", "javascript")]

/-- Do path components end here? -/
def isSeparator (c : Char) : Bool := c == '/' || c == '\\'

/-- What follows the last character of a class; the whole list if there is none. -/
def afterLast (p : Char → Bool) (cs : List Char) : List Char :=
  (cs.reverse.takeWhile fun c => !p c).reverse

/-- The file name at the end of a path. -/
def fileName (path : List Char) : List Char := afterLast isSeparator path

/-- What follows the last dot of the file name, in small letters; nothing if it has no dot. -/
def extension? (path : List Char) : Option (List Char) :=
  let name := fileName path
  if name.contains '.' then some (Text.lowerChars (afterLast (· == '.') name)) else none

/-- The language that a path's ending stands for. -/
def detect (path : String) : Option String :=
  (extension? path.toList).bind fun e => byExtension.get? (String.ofList e)

/-- Is the file one that has a language? -/
def isSupportedFile (path : String) : Bool := (detect path).isSome

/-- The endings that have a language, with their dots. -/
def extensions : List String := byExtension.keys.map ("." ++ ·)

end SourceTrees.Language
