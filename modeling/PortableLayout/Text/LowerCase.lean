import PortableLayout.Text.LowerCase.Table

/-!
# Lower case

The lower case of a text, letter by letter. Two letters need more than a table: the capital I with a
dot becomes two characters, and a capital sigma has its final form where it ends a word, that is, with
a letter before it and none after it, ignorable characters passed over.
-/

set_option autoImplicit false

namespace PortableLayout.Text.LowerCase

/-- The lower case of one character that is not a sigma. -/
def ofChar (c : Char) : List Char :=
  if c = '\u0130' then ['i', '\u0307']
  else
    match runs.find? (·.has c.toNat) with
    | some r => [Char.ofNat (c.toNat + r.shift).toNat]
    | none => [c]

/-- Whether the first character that counts is a letter with a case. -/
def meetsCased (s : List Char) : Bool :=
  match s.dropWhile isIgnorable with
  | c :: _ => isCased c
  | [] => false

/-- Whether a sigma between the characters `before`, nearest first, and `after` ends a word. -/
def endsWord (before after : List Char) : Bool :=
  meetsCased before && !meetsCased after

/-- The lower case of a character between others. -/
def within (before : List Char) (c : Char) (after : List Char) : List Char :=
  if c = '\u03A3' then [if endsWord before after then '\u03C2' else '\u03C3'] else ofChar c

/-- Goes on from what is `done`, last character first, with the characters `before` left behind. -/
def lowerOnto (done before : List Char) : List Char → List Char
  | [] => done
  | c :: after => lowerOnto ((within before c after).reverse ++ done) (c :: before) after

/-- The lower case of a text. -/
def lower (s : String) : String :=
  String.ofList (lowerOnto [] [] s.toList).reverse

end PortableLayout.Text.LowerCase
