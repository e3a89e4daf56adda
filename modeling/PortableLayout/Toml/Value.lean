/-!
# TOML values and tables

A table keeps its entries by key and remembers how it came about, because a document may add to some
tables and not to others: a table is *implicit* while no header and no inline value has defined it,
and *dotted* if a dotted key made it. An inline table is complete where it is written and is a value
like any other.

`TableOf.define` enters a value under a dotted key, `TableOf.openTable` and `TableOf.openElement` carry out
the two kinds of header; each answers nothing when the document may not do that.
-/

set_option autoImplicit false

namespace PortableLayout.Toml

/-- The entries of a table over a kind of items, and how the table came about. -/
structure TableOf (ι : Type) where
  implicit : Bool
  dotted : Bool
  entries : List (String × ι)

/-- What a key can stand for. -/
inductive Item where
  | text (s : String)
  | integer (n : Int)
  /-- A number with a fraction or an exponent, or one of `inf` and `nan`. -/
  | float
  | boolean (b : Bool)
  /-- A date, a time, or both. -/
  | moment
  | array (items : List Item)
  | inlineTable (entries : List (String × Item))
  | table (t : TableOf Item)
  /-- An array of tables, the newest element first. -/
  | tables (elements : List (TableOf Item))

/-- A table of items. -/
abbrev Table := TableOf Item

namespace TableOf

/-- A table that its header or its place in a document defines. -/
def defined : Table := ⟨false, false, []⟩

/-- A table that a header below it takes for granted. -/
def assumed : Table := ⟨true, false, []⟩

/-- A table that a dotted key makes. -/
def byDots : Table := ⟨true, true, []⟩

/-- What a key stands for. -/
def find? (t : Table) (key : String) : Option Item :=
  t.entries.lookup key

/-- The entries with `key` standing for `item`, in its old place if it has one. -/
def setEntry (key : String) (item : Item) : List (String × Item) → List (String × Item)
  | [] => [(key, item)]
  | (k, i) :: rest => if k = key then (key, item) :: rest else (k, i) :: setEntry key item rest

/-- The table with a known key standing for `item`. -/
def set (t : Table) (key : String) (item : Item) : Table :=
  { t with entries := setEntry key item t.entries }

/-- The table with a new key in front. -/
def add (t : Table) (key : String) (item : Item) : Table :=
  { t with entries := (key, item) :: t.entries }

/--
Enters `item` below the tables `path` of a dotted key. Each of these tables is made by dots, unless
an element of an array of tables is passed on the way, and the key is new in the last of them.
-/
def define (key : String) (item : Item) : List String → Table → Option Table
  | [], t =>
    match t.find? key with
    | some _ => none
    | none => some (t.add key item)
  | name :: path, t =>
    match t.find? name with
    | none => (define key item path byDots).map fun c => t.add name (.table c)
    | some (.table c) =>
      if c.implicit ∧ (path ≠ [] ∨ c.dotted) then
        (define key item path c).map fun c => t.set name (.table c)
      else none
    | some (.tables (c :: cs)) =>
      if path ≠ [] then
        (define key item path c).map fun c => t.set name (.tables (c :: cs))
      else none
    | some _ => none

/-- Changes the table that the names of a header lead to, making the tables that are missing. -/
def descend (change : Table → Option Table) : List String → Table → Option Table
  | [], t => change t
  | name :: path, t =>
    match t.find? name with
    | none => (descend change path assumed).map fun c => t.add name (.table c)
    | some (.table c) => (descend change path c).map fun c => t.set name (.table c)
    | some (.tables (c :: cs)) =>
      (descend change path c).map fun c => t.set name (.tables (c :: cs))
    | some _ => none

/-- The header of a table: its name is new, or was only taken for granted so far. -/
def openTable (path : List String) (key : String) : Table → Option Table :=
  descend (fun t =>
    match t.find? key with
    | none => some (t.add key (.table defined))
    | some (.table c) =>
      if c.implicit ∧ ¬ c.dotted then some (t.set key (.table { c with implicit := false }))
      else none
    | some _ => none) path

/-- The header of an element of an array of tables, which may be the first one. -/
def openElement (path : List String) (key : String) : Table → Option Table :=
  descend (fun t =>
    match t.find? key with
    | none => some (t.add key (.tables [defined]))
    | some (.tables cs) => some (t.set key (.tables (defined :: cs)))
    | some _ => none) path

end TableOf

end PortableLayout.Toml
