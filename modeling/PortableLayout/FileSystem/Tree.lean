import PortableLayout.Path

/-!
# Directory trees

A tree is made of directories, regular files and symbolic links; a link keeps its target as it was
written. A *location* is the list of entry names that leads from the top of the tree to a node, and
`Node.get?` is the view through which a tree is spoken about: the node at a location, no link
followed.

A *position* is a node together with the way up from it, so that the parent of a directory is at hand
and a changed node can be put back into the whole tree (`Position.rebuild`).
-/

set_option autoImplicit false

namespace PortableLayout

/-- A node of a directory tree. -/
inductive Node where
  | dir (entries : List (Bytes × Node))
  | file (content : Bytes)
  | link (target : Bytes)
  deriving Inhabited

namespace Node

/-- A directory without entries. -/
def emptyDir : Node := dir []

/-- Whether a node is a directory. -/
def isDir : Node → Bool
  | dir _ => true
  | _ => false

/-- The entry of a directory with a given name. -/
def child? : Node → Bytes → Option Node
  | dir entries, name => entries.lookup name
  | _, _ => none

/-- The entries with `name` standing for `child`, in place of what it stood for, or else added. -/
def setEntry (name : Bytes) (child : Node) : List (Bytes × Node) → List (Bytes × Node)
  | [] => [(name, child)]
  | (n, c) :: rest => if n = name then (n, child) :: rest else (n, c) :: setEntry name child rest

/-- The directory with `name` standing for `child`; what is no directory stays as it is. -/
def setChild : Node → Bytes → Node → Node
  | dir entries, name, child => dir (setEntry name child entries)
  | node, _, _ => node

/-- The directory without the entries of a given name; what is no directory stays as it is. -/
def eraseChild : Node → Bytes → Node
  | dir entries, name => dir (entries.filter (·.1 ≠ name))
  | node, _ => node

/-- The node at a location, no link followed. -/
def get? (t : Node) : List Bytes → Option Node
  | [] => some t
  | name :: rest => (t.child? name).bind fun c => c.get? rest

mutual

/-- Every node of a tree with its location, the top left out, directories before what is in them. -/
def contents : Node → List (List Bytes × Node)
  | dir entries => contentsOf entries
  | file _ => []
  | link _ => []

/-- Every node that is in one of these entries, with its location. -/
def contentsOf : List (Bytes × Node) → List (List Bytes × Node)
  | [] => []
  | (name, child) :: rest =>
    ([name], child) :: (child.contents.map fun e => (name :: e.1, e.2)) ++ contentsOf rest

end

/-- An entry that was set is found under its name; any other name finds what it found before. -/
theorem lookup_setEntry (name : Bytes) (child : Node) (entries : List (Bytes × Node)) (n : Bytes) :
    (setEntry name child entries).lookup n = if n = name then some child else entries.lookup n := by
  induction entries with
  | nil =>
    by_cases h : n = name
    · simp [setEntry, h]
    · simp [setEntry, h, List.lookup_cons, beq_false_of_ne h]
  | cons e rest ih =>
    obtain ⟨m, c⟩ := e
    by_cases hm : m = name
    · subst hm
      by_cases h : n = m
      · simp [setEntry, h]
      · simp [setEntry, h, List.lookup_cons, beq_false_of_ne h]
    · by_cases h : n = m
      · subst h
        simp [setEntry, hm]
      · simp [setEntry, hm, List.lookup_cons, beq_false_of_ne h, ih]

/-- After an entry is set, its name leads to the new child and every other name where it led. -/
theorem child?_setChild {t : Node} (h : t.isDir = true) (name : Bytes) (child : Node) (n : Bytes) :
    (t.setChild name child).child? n = if n = name then some child else t.child? n := by
  cases t with
  | dir entries => exact lookup_setEntry name child entries n
  | file => simp [isDir] at h
  | link => simp [isDir] at h

end Node

/-- A node and the way up: for each step the name of the entry taken and the directory it is in. -/
structure Position where
  node : Node
  above : List (Bytes × Node)
  deriving Inhabited

namespace Position

/-- The top of a tree. -/
def top (t : Node) : Position := ⟨t, []⟩

/-- The location of a position. -/
def location (p : Position) : List Bytes :=
  (p.above.map (·.1)).reverse

/-- The parent directory; the top is its own parent. -/
def up (p : Position) : Position :=
  match p.above with
  | [] => p
  | (_, d) :: rest => ⟨d, rest⟩

/-- The position of an entry of this node. -/
def down (p : Position) (name : Bytes) (child : Node) : Position :=
  ⟨child, (name, p.node) :: p.above⟩

/-- The tree in which `node` stands below the directories `above`. -/
def plug (node : Node) : List (Bytes × Node) → Node
  | [] => node
  | (name, d) :: rest => plug (d.setChild name node) rest

/-- The whole tree with this position's node in its place. -/
def rebuild (p : Position) : Node :=
  plug p.node p.above

/-- The position at a location, if there is a node. -/
def find? (p : Position) : List Bytes → Option Position
  | [] => some p
  | name :: rest => (p.node.child? name).bind fun c => (p.down name c).find? rest

end Position

end PortableLayout
