import PortableLayout.Toml.Scalar
import PortableLayout.Toml.Text

/-!
# TOML documents

A document is read line by line: a line is empty, opens a table or an element of an array of tables,
or enters a value under a key of the table opened last. Arrays may run over several lines; an inline
table stays on one. `read` gives the table of a whole document, or nothing for a text that is none.
-/

set_option autoImplicit false

namespace PortableLayout.Toml

/-- What stands behind the first character that is not dropped is shorter than the whole. -/
theorem length_lt_of_dropWhile {p : Char → Bool} {r t : List Char} {c : Char}
    (h : r.dropWhile p = c :: t) : t.length < r.length := by
  have hle := (List.dropWhile_suffix p (l := r)).length_le
  rw [h, List.length_cons] at hle
  exact hle

/-- Leaves out blanks, line ends and comments with their line ends, as between array items. -/
def skipLines (s : List Char) : Option (List Char) :=
  match s with
  | ' ' :: r => skipLines r
  | '\t' :: r => skipLines r
  | '\n' :: r => skipLines r
  | '\r' :: '\n' :: r => skipLines r
  | '#' :: r =>
    match h : r.dropWhile isCommentChar with
    | '\n' :: t =>
      have : t.length < r.length := length_lt_of_dropWhile h
      skipLines t
    | '\r' :: '\n' :: t =>
      have : t.length < r.length := Nat.lt_of_succ_lt (length_lt_of_dropWhile h)
      skipLines t
    | _ => none
  | s => some s
termination_by s.length

/-- Reads array items up to the closing bracket, at most `n` of them; `done` has the last first. -/
def arrayItems (value : Reader Item) : Nat → List Item → List Char →
    Option (List Item × List Char)
  | 0, _, _ => none
  | n + 1, done, s =>
    match skipLines s with
    | none => none
    | some (']' :: r) => some (done.reverse, r)
    | some s =>
      match value s with
      | none => none
      | some (item, s) =>
        match skipLines s with
        | some (',' :: r) => arrayItems value n (item :: done) r
        | some (']' :: r) => some ((item :: done).reverse, r)
        | _ => none

/-- Reads a key, the sign of equality and a value, with blanks around them. -/
def keyValue (value : Reader Item) : Reader ((List String × String) × Item) := do
  let k ← key
  Reader.char '='
  blanks
  let item ← value
  blanks
  return (k, item)

/-- Reads the entries of an inline table up to the closing brace, at most `n` of them. -/
def inlineEntries (value : Reader Item) : Nat → Table → List Char → Option (Table × List Char)
  | 0, _, _ => none
  | n + 1, t, s =>
    match keyValue value s with
    | none => none
    | some (((path, last), item), s) =>
      match t.define last item path with
      | none => none
      | some t =>
        match s with
        | ',' :: r => inlineEntries value n t r
        | '\x7d' :: r => some (t, r)
        | _ => none

/-- Reads a value that has at most `depth` levels of values in it, in a text of at most `size`
characters. -/
def value (size : Nat) (depth : Nat) : List Char → Option (Item × List Char)
  | '"' :: r => (string ('"' :: r)).map fun (s, r) => (.text (String.ofList s), r)
  | '\'' :: r => (string ('\'' :: r)).map fun (s, r) => (.text (String.ofList s), r)
  | '[' :: r =>
    match depth with
    | 0 => none
    | depth + 1 =>
      (arrayItems (value size depth) (size + 1) [] r).map fun (items, r) => (.array items, r)
  | '\x7b' :: r =>
    match depth with
    | 0 => none
    | depth + 1 =>
      match r.dropWhile isBlank with
      | '\x7d' :: r => some (.inlineTable [], r)
      | r =>
        (inlineEntries (value size depth) (size + 1) .defined r).map
          fun (t, r) => (.inlineTable t.entries, r)
  | s => scalar s

/-- Reads a header after its opening bracket: the key, as many closing brackets, the line end. -/
def header (closing : List Char) : Reader (List String × String) := do
  let k ← key
  Reader.word closing
  lineEnd
  return k

/-- Reads the lines of a document, at most `n` of them; `t` is the document so far and `here` leads
to the table opened last. -/
def readLines (size : Nat) : Nat → Table → List String → List Char → Option Table
  | 0, _, _, _ => none
  | n + 1, t, here, s =>
    match s.dropWhile isBlank with
    | [] => some t
    | '\n' :: r => readLines size n t here r
    | '\r' :: '\n' :: r => readLines size n t here r
    | '#' :: r =>
      match lineEnd ('#' :: r) with
      | none => none
      | some ((), r) => readLines size n t here r
    | '[' :: '[' :: r =>
      match header [']', ']'] r with
      | none => none
      | some ((path, last), r) =>
        match t.openElement path last with
        | none => none
        | some t => readLines size n t (path ++ [last]) r
    | '[' :: r =>
      match header [']'] r with
      | none => none
      | some ((path, last), r) =>
        match t.openTable path last with
        | none => none
        | some t => readLines size n t (path ++ [last]) r
    | s =>
      match keyValue (value size (nestingLimit - 1)) s with
      | none => none
      | some (((path, last), item), r) =>
        match lineEnd r with
        | none => none
        | some ((), r) =>
          match t.descend (TableOf.define last item path) here with
          | none => none
          | some t => readLines size n t here r

/-- The table of a document, if the text is one. A byte order mark in front is left out. -/
def read (text : String) : Option Table :=
  let s :=
    match text.toList with
    | '\uFEFF' :: r => r
    | s => s
  readLines s.length (s.length + 1) .defined [] s

end PortableLayout.Toml
