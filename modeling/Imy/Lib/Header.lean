import Mathlib.Data.List.Basic
import Mathlib.Logic.Function.Basic
set_option autoImplicit false

/-!
The fields of an HTTP message.
-/

namespace Imy.Lib

def isTokenChar (c : Char) : Bool := c.isAlphanum || c ∈ "!#$%&'*+-.^_`|~".toList

def capitals : Bool → List Char → List Char
  | _, [] => []
  | upper, c :: cs => (if upper then c.toUpper else c.toLower) :: capitals (c = '-') cs

def canonicalKey (name : String) : String :=
  if name.toList.all isTokenChar then String.ofList (capitals true name.toList) else name

abbrev Header := String → List String

namespace Header
variable (h : Header)

/-- The first value. -/
def get (name : String) : String := (h (canonicalKey name)).headD ""

def set (name value : String) : Header := Function.update h (canonicalKey name) [value]

def del (name : String) : Header := Function.update h (canonicalKey name) []

variable {h}

theorem set_apply (name value key : String) :
    h.set name value key = if key = canonicalKey name then [value] else h key :=
  Function.update_apply ..

end Header

end Imy.Lib
