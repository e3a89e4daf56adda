import PortableLayout.Toml.Reader

/-!
# TOML strings and keys

Strings come in four forms: between quotes, with escapes, or between apostrophes, as they are; and
each of these on one line or on several. A string on several lines loses a line end right after its
opening, has every line end read as a line feed, and may hold one or two of its own quotes in a row,
also just before it closes.
-/

set_option autoImplicit false

namespace PortableLayout.Toml

/-- A character that stands for itself between quotes: neither quote, backslash nor control. -/
def isBasicChar (c : Char) : Bool :=
  c != '"' && c != '\\' && isCommentChar c

/-- A character that stands for itself between apostrophes. -/
def isLiteralChar (c : Char) : Bool :=
  c != '\'' && isCommentChar c

/-- The value of a hexadecimal digit. -/
def hexValue? (c : Char) : Option Nat :=
  if '0' ≤ c ∧ c ≤ '9' then some (c.toNat - 48)
  else if 'a' ≤ c ∧ c ≤ 'f' then some (c.toNat - 87)
  else if 'A' ≤ c ∧ c ≤ 'F' then some (c.toNat - 55)
  else none

/-- The scalar value that hexadecimal digits name, if they name one. -/
def scalarOfHex? (digits : List Char) : Option Char := do
  let n ← digits.foldlM (fun n c => (hexValue? c).map (n * 16 + ·)) 0
  if n.isValidChar then some (Char.ofNat n) else none

/-- The scalar value that exactly `n` hexadecimal digits in front name, and the rest. -/
def hexEscape (n : Nat) (s : List Char) : Option (Char × List Char) :=
  if (s.take n).length < n then none else (scalarOfHex? (s.take n)).map (·, s.drop n)

/-- Reading a hexadecimal escape leaves no more than there was. -/
theorem hexEscape_rest_length {n : Nat} {s r : List Char} {c : Char}
    (h : hexEscape n s = some (c, r)) : r.length ≤ s.length := by
  unfold hexEscape at h
  split at h
  · cases h
  · obtain ⟨d, _, hd⟩ := Option.map_eq_some_iff.1 h
    cases hd
    rw [List.length_drop]
    exact Nat.sub_le _ _

/-- What one character after a backslash stands for. -/
def shortEscape? (c : Char) : Option Char :=
  if c = 'b' then some '\x08'
  else if c = 't' then some '\t'
  else if c = 'n' then some '\n'
  else if c = 'f' then some '\x0c'
  else if c = 'r' then some '\r'
  else if c = '"' then some '"'
  else if c = '\\' then some '\\'
  else none

/-- What the characters after a backslash stand for, and the rest. -/
def escape : List Char → Option (Char × List Char)
  | [] => none
  | c :: r =>
    match shortEscape? c with
    | some e => some (e, r)
    | none =>
      if c = 'u' then hexEscape 4 r
      else if c = 'U' then hexEscape 8 r
      else none

/-- An escape uses up at least one character. -/
theorem escape_rest_length {s r : List Char} {c : Char} (h : escape s = some (c, r)) :
    r.length < s.length := by
  cases s with
  | nil => cases h
  | cons d t =>
    have hr : r.length ≤ t.length := by
      simp only [escape] at h
      cases hs : shortEscape? d with
      | some e =>
        rw [hs] at h
        cases h
        exact Nat.le_refl _
      | none =>
        rw [hs] at h
        by_cases hu : d = 'u'
        · rw [if_pos hu] at h
          exact hexEscape_rest_length h
        · by_cases hU : d = 'U'
          · rw [if_neg hu, if_pos hU] at h
            exact hexEscape_rest_length h
          · rw [if_neg hu, if_neg hU] at h
            cases h
    exact Nat.lt_succ_of_le hr

/-- Reads a string after its opening quote; `done` holds what was read, last character first. -/
def basicFrom (done : List Char) (s : List Char) : Option (List Char × List Char) :=
  match s with
  | [] => none
  | '"' :: r => some (done.reverse, r)
  | '\\' :: r =>
    match h : escape r with
    | some (c, rest) =>
      have := escape_rest_length h
      basicFrom (c :: done) rest
    | none => none
  | c :: r => if isBasicChar c then basicFrom (c :: done) r else none
termination_by s.length
decreasing_by all_goals simp only [List.length_cons]; omega

/-- Blanks and line ends after the backslash that ends a line. -/
def skipToText : List Char → List Char
  | ' ' :: r => skipToText r
  | '\t' :: r => skipToText r
  | '\n' :: r => skipToText r
  | '\r' :: '\n' :: r => skipToText r
  | s => s

/-- Leaving out blanks and line ends leaves no more than there was. -/
theorem skipToText_length (s : List Char) : (skipToText s).length ≤ s.length := by
  fun_induction skipToText s <;> grind

/-- What is left after a backslash that ends its line, if it does. -/
def endedLine? (s : List Char) : Option (List Char) :=
  match s.dropWhile isBlank with
  | '\n' :: r => some (skipToText r)
  | '\r' :: '\n' :: r => some (skipToText r)
  | _ => none

/-- Reading a line end, with the blanks before it, uses up at least one character. -/
theorem endedLine?_length {s r : List Char} (h : endedLine? s = some r) : r.length < s.length := by
  have hd := (List.dropWhile_suffix isBlank (l := s)).length_le
  unfold endedLine? at h
  split at h
  · next t ht =>
    have := skipToText_length t
    simp only [ht, List.length_cons] at hd
    cases h
    omega
  · next t ht =>
    have := skipToText_length t
    simp only [ht, List.length_cons] at hd
    cases h
    omega
  · simp at h

/-- The quotes `q` in front, up to five of them, and the rest. -/
def quoteRun (q : Char) : Nat → List Char → Nat × List Char
  | 0, s => (0, s)
  | _ + 1, [] => (0, [])
  | n + 1, c :: r => if c = q then ((quoteRun q n r).1 + 1, (quoteRun q n r).2) else (0, c :: r)

/-- A run of quotes and what follows it make up the whole. -/
theorem quoteRun_length (q : Char) (n : Nat) (s : List Char) :
    (quoteRun q n s).1 + (quoteRun q n s).2.length = s.length := by
  induction n generalizing s with
  | zero => simp [quoteRun]
  | succ n ih =>
    cases s with
    | nil => simp [quoteRun]
    | cons c r =>
      unfold quoteRun
      split
      · have := ih r
        simp only [List.length_cons]
        omega
      · simp

/-- Reads a string on several lines after its opening; escapes are read only in basic strings. -/
def multilineFrom (q : Char) (escapes : Bool) (done : List Char) (s : List Char) :
    Option (List Char × List Char) :=
  match s with
  | [] => none
  | c :: r =>
    if c = q then
      match h : quoteRun q 5 (c :: r) with
      | (n, rest) =>
        if 3 ≤ n then some ((List.replicate (n - 3) q ++ done).reverse, rest)
        else if hn : n = 0 then none
        else
          have := quoteRun_length q 5 (c :: r)
          have : rest.length < (c :: r).length := by simp only [h] at this; omega
          multilineFrom q escapes (List.replicate n q ++ done) rest
    else if c = '\n' then multilineFrom q escapes ('\n' :: done) r
    else if c = '\r' then
      match r with
      | '\n' :: rest => multilineFrom q escapes ('\n' :: done) rest
      | _ => none
    else if escapes ∧ c = '\\' then
      match h : endedLine? r with
      | some rest =>
        have := endedLine?_length h
        multilineFrom q escapes done rest
      | none =>
        match h : escape r with
        | some (e, rest) =>
          have := escape_rest_length h
          multilineFrom q escapes (e :: done) rest
        | none => none
    else if isCommentChar c then multilineFrom q escapes (c :: done) r
    else none
termination_by s.length
decreasing_by all_goals simp only [List.length_cons] at *; omega

/-- Leaves out a line end right after the opening of a string on several lines. -/
def afterOpening : List Char → List Char
  | '\n' :: r => r
  | '\r' :: '\n' :: r => r
  | s => s

/-- Reads a string on one line with escapes. -/
def basicString : Reader (List Char)
  | '"' :: r => basicFrom [] r
  | _ => none

/-- Reads a string on one line without escapes. -/
def literalString : Reader (List Char)
  | '\'' :: r =>
    match r.dropWhile isLiteralChar with
    | '\'' :: rest => some (r.takeWhile isLiteralChar, rest)
    | _ => none
  | _ => none

/-- Reads a string of any form. -/
def string : Reader (List Char)
  | '"' :: '"' :: '"' :: r => multilineFrom '"' true [] (afterOpening r)
  | '\'' :: '\'' :: '\'' :: r => multilineFrom '\'' false [] (afterOpening r)
  | '"' :: r => basicString ('"' :: r)
  | '\'' :: r => literalString ('\'' :: r)
  | _ => none

/-- A character of a bare key. -/
def isBareKeyChar (c : Char) : Bool :=
  ('a' ≤ c && c ≤ 'z') || ('A' ≤ c && c ≤ 'Z') || ('0' ≤ c && c ≤ '9') || c == '_' || c == '-'

/-- Reads one part of a key. -/
def keyPart : Reader String := do
  match ← Reader.peek? with
  | some '"' => return String.ofList (← basicString)
  | some '\'' => return String.ofList (← literalString)
  | _ =>
    match ← Reader.run isBareKeyChar with
    | [] => failure
    | cs => return String.ofList cs

/-- The parts of one key are fewer than this, and so are the values around one value. -/
def nestingLimit : Nat := 80

/-- Reads at most `n` parts of a key, with blanks around each and dots between them. -/
def keyParts : Nat → Reader (List String)
  | 0 => failure
  | n + 1 => do
    blanks
    let part ← keyPart
    blanks
    if ← Reader.accept '.' then return part :: (← keyParts n) else return [part]

/-- Reads a key: the tables it leads through, and its last part. -/
def key : Reader (List String × String) := do
  let parts ← keyParts (nestingLimit - 1)
  match parts.getLast? with
  | some last => return (parts.dropLast, last)
  | none => failure

end PortableLayout.Toml
