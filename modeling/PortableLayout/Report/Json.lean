import PortableLayout.Report

/-!
# The report as JSON

An object with one member to a line and two blanks per level of nesting. In a string the quote, the
backslash and the control characters below U+0020 are escaped, and nothing else is; an empty list of
entries is written `[]`.
-/

set_option autoImplicit false

namespace PortableLayout.Report.Json

/-- The lower-case hexadecimal digit for a number below sixteen. -/
def hexDigit (n : Nat) : Char :=
  if n < 10 then Char.ofNat (48 + n) else Char.ofNat (87 + n)

/-- A character as it stands inside a string. -/
def escapeChar (c : Char) : List Char :=
  if c = '"' then ['\\', '"']
  else if c = '\\' then ['\\', '\\']
  else if c.toNat = 0x08 then ['\\', 'b']
  else if c.toNat = 0x09 then ['\\', 't']
  else if c.toNat = 0x0A then ['\\', 'n']
  else if c.toNat = 0x0C then ['\\', 'f']
  else if c.toNat = 0x0D then ['\\', 'r']
  else if c.toNat < 0x20 then
    ['\\', 'u', '0', '0', hexDigit (c.toNat / 16), hexDigit (c.toNat % 16)]
  else [c]

/-- A text as a JSON string. -/
def quote (s : String) : List Char :=
  '"' :: (s.toList.flatMap escapeChar ++ ['"'])

/-- A text, or null. -/
def quote? : Option String → List Char
  | some s => quote s
  | none => "null".toList

/-- A truth value. -/
def bool (b : Bool) : List Char :=
  (if b then "true" else "false").toList

/-- One member of an object: its indentation, name and value. -/
def member (indent : Nat) (name : String) (value : List Char) : List Char :=
  List.replicate indent ' ' ++ quote name ++ ": ".toList ++ value

/-- One entry of the list, four blanks in. -/
def entry (e : Entry) : List Char :=
  "    \x7b\n".toList ++ member 6 "role" (quote e.role.id) ++ ",\n".toList ++
    member 6 "path" (quote? e.path) ++ ",\n".toList ++
    member 6 "ensured" (bool e.ensured) ++ ",\n".toList ++
    member 6 "error" (quote? e.error) ++ "\n    \x7d".toList

/-- The list of entries. -/
def entries : List Entry → List Char
  | [] => "[]".toList
  | e :: es =>
    "[\n".toList ++ entry e ++ es.flatMap (fun e => ",\n".toList ++ entry e) ++ "\n  ]".toList

/-- The characters of the whole report. -/
def characters (r : Report) : List Char :=
  "\x7b\n".toList ++ member 2 "executable_dir" (quote r.executableDir) ++ ",\n".toList ++
    member 2 "base_dir" (quote r.baseDir) ++ ",\n".toList ++
    member 2 "entries" (entries r.entries) ++ "\n\x7d".toList

end PortableLayout.Report.Json

namespace PortableLayout.Report

/-- The whole report as JSON, without a line end. -/
def toJson (r : Report) : String :=
  String.ofList (Json.characters r)

end PortableLayout.Report
