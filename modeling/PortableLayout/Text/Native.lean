import PortableLayout.Text.Utf16
import PortableLayout.Text.Utf8

/-!
# Native strings

An operating system spells its names in units of its own: bytes on narrow platforms, 16-bit units on
wide ones. Either spelling is read strictly, so that a text written back gives the same units.
-/

set_option autoImplicit false

namespace PortableLayout.Text

/-- Units that spell no text. -/
inductive InvalidUnicode where
  | invalidUnicode
  deriving DecidableEq, Repr

/-- The sentence for units that spell no text. -/
def InvalidUnicode.message : InvalidUnicode → String
  | invalidUnicode => "native string is not valid Unicode"

/-- The text that bytes spell on a narrow platform. -/
def ofNarrow (bytes : List UInt8) : Except InvalidUnicode String :=
  match Utf8.decode bytes with
  | some s => .ok s
  | none => .error .invalidUnicode

/-- The bytes that spell a text on a narrow platform. -/
def toNarrow (s : String) : List UInt8 :=
  Utf8.encode s

/-- The text that units spell on a wide platform. -/
def ofWide (units : List UInt16) : Except InvalidUnicode String :=
  match Utf16.decode units with
  | some s => .ok s
  | none => .error .invalidUnicode

/-- The units that spell a text on a wide platform. -/
def toWide (s : String) : List UInt16 :=
  Utf16.encode s

end PortableLayout.Text
