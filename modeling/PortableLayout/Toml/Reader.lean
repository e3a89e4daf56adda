/-!
# Reading characters

A reader takes characters from the front of a text and gives a result together with the rest, or
refuses. Readers are put together in the state monad over optional results, so that an alternative
starts again where the refused one started.
-/

set_option autoImplicit false

namespace PortableLayout.Toml

/-- A reader of characters. -/
abbrev Reader := StateT (List Char) Option

namespace Reader

/-- The character in front, if there is one; nothing is taken. -/
def peek? : Reader (Option Char) :=
  fun s => some (s.head?, s)

/-- Takes the character `c`. -/
def char (c : Char) : Reader Unit
  | [] => none
  | d :: rest => if d = c then some ((), rest) else none

/-- Takes the characters of a word. -/
def word : List Char → Reader Unit
  | [] => pure ()
  | c :: cs => do
    char c
    word cs

/-- Takes one character of a class. -/
def one (p : Char → Bool) : Reader Char
  | [] => none
  | c :: rest => if p c then some (c, rest) else none

/-- Takes the characters of a class as far as they go. -/
def run (p : Char → Bool) : Reader (List Char) :=
  fun s => some (s.takeWhile p, s.dropWhile p)

/-- Takes `c` if it is in front and says whether it was. -/
def accept (c : Char) : Reader Bool
  | [] => some (false, [])
  | d :: rest => if d = c then some (true, rest) else some (false, d :: rest)

/-- Takes exactly `n` characters of a class. -/
def exactly (p : Char → Bool) : Nat → Reader (List Char)
  | 0 => pure []
  | n + 1 => do
    let c ← one p
    return c :: (← exactly p n)

/-- Takes what `r` reads, if it reads anything. -/
def optional {α : Type} (r : Reader α) : Reader (Option α) :=
  fun s =>
    match r s with
    | some (a, rest) => some (some a, rest)
    | none => some (none, s)

/-- Takes the end of a line: a line feed, with a carriage return before it or not. -/
def newline : Reader Unit
  | '\n' :: rest => some ((), rest)
  | '\r' :: '\n' :: rest => some ((), rest)
  | _ => none

/-- Takes nothing, at the end of the text. -/
def atEnd : Reader Unit
  | [] => some ((), [])
  | _ :: _ => none

end Reader

/-- A blank or a tab. -/
def isBlank (c : Char) : Bool :=
  c == ' ' || c == '\t'

/-- A character outside ASCII. -/
def isWide (c : Char) : Bool :=
  0x80 ≤ c.toNat

/-- A character that a comment can hold. -/
def isCommentChar (c : Char) : Bool :=
  c == '\t' || (0x20 ≤ c.toNat && c.toNat ≤ 0x7E) || isWide c

/-- Takes blanks. -/
def blanks : Reader Unit := do
  let _ ← Reader.run isBlank

/-- Takes a comment if there is one. -/
def comment : Reader Unit := do
  if ← Reader.accept '#' then
    let _ ← Reader.run isCommentChar

/-- Takes blanks, a comment and the end of the line or of the text. -/
def lineEnd : Reader Unit := do
  blanks
  comment
  Reader.newline <|> Reader.atEnd

end PortableLayout.Toml
