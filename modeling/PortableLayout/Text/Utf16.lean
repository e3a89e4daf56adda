/-!
# UTF-16

A scalar value below 10000 is one 16-bit unit; any other is a high surrogate followed by a low one.
`encode` writes a text as units; `decode` reads units back and refuses a surrogate that stands
alone.
-/

set_option autoImplicit false

namespace PortableLayout.Text.Utf16

/-- The first unit of a pair lies in D800 to DBFF. -/
def isHigh (u : UInt16) : Bool :=
  0xD800 ≤ u && u ≤ 0xDBFF

/-- The second unit of a pair lies in DC00 to DFFF. -/
def isLow (u : UInt16) : Bool :=
  0xDC00 ≤ u && u ≤ 0xDFFF

/-- The units of one scalar value. -/
def encodeChar (c : Char) : List UInt16 :=
  let n := c.toNat
  if n < 0x10000 then [.ofNat n]
  else [.ofNat (0xD800 + (n - 0x10000) / 1024), .ofNat (0xDC00 + (n - 0x10000) % 1024)]

/-- The units of a text. -/
def encode (s : String) : List UInt16 :=
  s.toList.flatMap encodeChar

/-- The units of two texts in a row are those of the one and then those of the other. -/
theorem encode_append (s t : String) : encode (s ++ t) = encode s ++ encode t := by
  simp [encode]

/-- The scalar value that a high and a low surrogate write. -/
def pair (high low : UInt16) : Char :=
  Char.ofNat (0x10000 + (high.toNat - 0xD800) * 1024 + (low.toNat - 0xDC00))

/-- The scalar values of a unit sequence; a surrogate outside a pair is refused. -/
def decodeChars : List UInt16 → Option (List Char)
  | [] => some []
  | [u] => if isHigh u || isLow u then none else some [Char.ofNat u.toNat]
  | u :: v :: r =>
    if isHigh u then
      if isLow v then (decodeChars r).map (pair u v :: ·) else none
    else if isLow u then none
    else (decodeChars (v :: r)).map (Char.ofNat u.toNat :: ·)

/-- The text whose units these are, if there is one. -/
def decode (units : List UInt16) : Option String :=
  (decodeChars units).map String.ofList

end PortableLayout.Text.Utf16
