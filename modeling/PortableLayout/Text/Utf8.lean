/-!
# UTF-8

A byte sequence is read front to back as *segments*: a segment is either one scalar value or one
maximal ill-formed part, that is, the longest run of bytes at the front that could still have begun
a scalar value, and at least one byte. The strict reading (`decode`) accepts a sequence when every
segment is a scalar value; the lossy reading (`decodeLossy`) shows each ill-formed part as one
replacement character. `encode` writes the scalar values of a text, one to four bytes each.

`front` reads the first segment and `segments` reads all of them; the rest left by `front` is never
longer than what followed the first byte (`front_rest_length`), which is why the reading ends.
-/

set_option autoImplicit false

namespace PortableLayout.Text.Utf8

/-- The bytes of one scalar value: the high bits go into the lead byte, six bits into each tail. -/
def encodeChar (c : Char) : List UInt8 :=
  let n := c.toNat
  if n < 0x80 then [.ofNat n]
  else if n < 0x800 then [.ofNat (0xC0 + n / 64), .ofNat (0x80 + n % 64)]
  else if n < 0x10000 then
    [.ofNat (0xE0 + n / 4096), .ofNat (0x80 + n / 64 % 64), .ofNat (0x80 + n % 64)]
  else
    [.ofNat (0xF0 + n / 262144), .ofNat (0x80 + n / 4096 % 64), .ofNat (0x80 + n / 64 % 64),
      .ofNat (0x80 + n % 64)]

/-- The bytes of a text. -/
def encode (s : String) : List UInt8 :=
  s.toList.flatMap encodeChar

/-- The bytes of two texts in a row are those of the one and then those of the other. -/
theorem encode_append (s t : String) : encode (s ++ t) = encode s ++ encode t := by
  simp [encode]

/-- A tail byte carries six bits. -/
def isTail (b : UInt8) : Bool :=
  0x80 ≤ b && b ≤ 0xBF

/--
The second byte of a three or four byte form is a tail byte, and four leads narrow it further: E0 and
F0 so that no shorter form exists, ED so that no surrogate is written, F4 so that the value stays
below 110000.
-/
def follows (lead second : UInt8) : Bool :=
  isTail second &&
    (if lead = 0xE0 then 0xA0 ≤ second
     else if lead = 0xED then second ≤ 0x9F
     else if lead = 0xF0 then 0x90 ≤ second
     else if lead = 0xF4 then second ≤ 0x8F
     else true)

/-- One step of the reading: a scalar value, or an ill-formed part, and the bytes after it. -/
inductive Front where
  | scalar (c : Char) (rest : List UInt8)
  | illFormed (rest : List UInt8)

/-- The bytes that a step leaves. -/
def Front.rest : Front → List UInt8
  | .scalar _ rest => rest
  | .illFormed rest => rest

/-- The first segment of the sequence that begins with `b` and goes on with `r`. -/
def front (b : UInt8) (r : List UInt8) : Front :=
  if b < 0x80 then .scalar (Char.ofNat b.toNat) r
  else if 0xC2 ≤ b ∧ b ≤ 0xDF then
    match r with
    | b₁ :: r₁ =>
      if isTail b₁ then .scalar (Char.ofNat ((b.toNat - 0xC0) * 64 + (b₁.toNat - 0x80))) r₁
      else .illFormed r
    | [] => .illFormed []
  else if 0xE0 ≤ b ∧ b ≤ 0xEF then
    match r with
    | b₁ :: r₁ =>
      if follows b b₁ then
        match r₁ with
        | b₂ :: r₂ =>
          if isTail b₂ then
            .scalar (Char.ofNat
              ((b.toNat - 0xE0) * 4096 + (b₁.toNat - 0x80) * 64 + (b₂.toNat - 0x80))) r₂
          else .illFormed r₁
        | [] => .illFormed []
      else .illFormed r
    | [] => .illFormed []
  else if 0xF0 ≤ b ∧ b ≤ 0xF4 then
    match r with
    | b₁ :: r₁ =>
      if follows b b₁ then
        match r₁ with
        | b₂ :: r₂ =>
          if isTail b₂ then
            match r₂ with
            | b₃ :: r₃ =>
              if isTail b₃ then
                .scalar (Char.ofNat
                  ((b.toNat - 0xF0) * 262144 + (b₁.toNat - 0x80) * 4096 +
                    (b₂.toNat - 0x80) * 64 + (b₃.toNat - 0x80))) r₃
              else .illFormed r₂
            | [] => .illFormed []
          else .illFormed r₁
        | [] => .illFormed []
      else .illFormed r
    | [] => .illFormed []
  else .illFormed r

/-- A step uses up its first byte. -/
theorem front_rest_length (b : UInt8) (r : List UInt8) : (front b r).rest.length ≤ r.length := by
  unfold front
  repeat' split
  all_goals simp [Front.rest] <;> omega

/-- What a reader meets: a scalar value, or an ill-formed part. -/
inductive Segment where
  | scalar (c : Char)
  | illFormed
  deriving DecidableEq, Repr

/-- Reads all segments of `bytes` and puts them, last one first, onto `done`. -/
def segmentsOnto (done : List Segment) (bytes : List UInt8) : List Segment :=
  match bytes with
  | [] => done
  | b :: r =>
    match h : front b r with
    | .scalar c rest =>
      have : rest.length ≤ r.length := by simpa [h, Front.rest] using front_rest_length b r
      segmentsOnto (.scalar c :: done) rest
    | .illFormed rest =>
      have : rest.length ≤ r.length := by simpa [h, Front.rest] using front_rest_length b r
      segmentsOnto (.illFormed :: done) rest
termination_by bytes.length
decreasing_by all_goals simp only [List.length_cons]; omega

/-- The segments of a byte sequence, in order. -/
def segments (bytes : List UInt8) : List Segment :=
  (segmentsOnto [] bytes).reverse

/-- The scalar value of a segment, if it is one. -/
def Segment.scalar? : Segment → Option Char
  | .scalar c => some c
  | .illFormed => none

/-- The character that stands for a segment in a lossy reading: U+FFFD for an ill-formed part. -/
def Segment.shown : Segment → Char
  | .scalar c => c
  | .illFormed => '\uFFFD'

/-- The text whose bytes these are, if there is one. -/
def decode (bytes : List UInt8) : Option String :=
  ((segments bytes).mapM Segment.scalar?).map String.ofList

/-- A text that shows these bytes, each maximal ill-formed part as one U+FFFD. -/
def decodeLossy (bytes : List UInt8) : String :=
  String.ofList ((segments bytes).map Segment.shown)

end PortableLayout.Text.Utf8
