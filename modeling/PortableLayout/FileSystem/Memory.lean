import PortableLayout.FileSystem

/-!
# A store of directories in memory

A set of paths, compared byte by byte, in which any path can be given an error for its probe or for
its creation. A store does not look at parents: whatever path is created is put into the set. The set
is spoken about through membership alone (`mem_existing_ofList`, `mem_existing_add`,
`mem_existing_remove`, `mem_existing_createDir`).
-/

set_option autoImplicit false

namespace PortableLayout

/-- A set of existing paths, and the errors that calls on certain paths answer with. -/
structure Memory where
  existing : List Path
  probeError : Path → Option IoError
  createError : Path → Option IoError

namespace Memory

/-- The store of these paths in which no call fails. -/
def ofList (paths : List Path) : Memory where
  existing := paths.foldl (fun known p => known.insert p) []
  probeError := fun _ => none
  createError := fun _ => none

/-- Puts a path into the set. -/
def add (s : Memory) (p : Path) : Memory :=
  { s with existing := s.existing.insert p }

/-- Takes a path out of the set. -/
def remove (s : Memory) (p : Path) : Memory :=
  { s with existing := s.existing.filter (· ≠ p) }

/-- A store made from a list holds the paths of the list. -/
theorem mem_existing_ofList {paths : List Path} {q : Path} :
    q ∈ (ofList paths).existing ↔ q ∈ paths := by
  suffices h : ∀ known : List Path,
      q ∈ paths.foldl (fun known p => known.insert p) known ↔ q ∈ known ∨ q ∈ paths by
    simpa [ofList] using h []
  induction paths with
  | nil => simp
  | cons p paths ih =>
    intro known
    simp only [List.foldl_cons, ih, List.mem_insert_iff, List.mem_cons]
    constructor
    · rintro ((h | h) | h) <;> simp [h]
    · rintro (h | h | h) <;> simp [h]

/-- After a path was put in, the store holds it and what it held before. -/
theorem mem_existing_add {s : Memory} {p q : Path} :
    q ∈ (s.add p).existing ↔ q = p ∨ q ∈ s.existing :=
  List.mem_insert_iff

/-- After a path was taken out, the store holds all that it held before but this path. -/
theorem mem_existing_remove {s : Memory} {p q : Path} :
    q ∈ (s.remove p).existing ↔ q ∈ s.existing ∧ q ≠ p := by
  simp [remove]

/-- Gives the probe of one path an error, or takes it away. -/
def setProbeError (s : Memory) (p : Path) (e : Option IoError) : Memory :=
  { s with probeError := fun q => if q = p then e else s.probeError q }

/-- Gives the creation of one path an error, or takes it away. -/
def setCreateError (s : Memory) (p : Path) (e : Option IoError) : Memory :=
  { s with createError := fun q => if q = p then e else s.createError q }

/-- The answer to a probe: the error of the path if it has one, else whether it is in the set. -/
def probe (s : Memory) (p : Path) : Except IoError Bool :=
  match s.probeError p with
  | some e => .error e
  | none => .ok (decide (p ∈ s.existing))

/-- The answer to a creation and the store after it. -/
def createDir (s : Memory) (p : Path) : Except IoError Unit × Memory :=
  match s.createError p with
  | some e => (.error e, s)
  | none => (.ok (), s.add p)

/-- A creation adds its path and no other, and only where it has no error. -/
theorem mem_existing_createDir {s : Memory} {p q : Path} :
    q ∈ (s.createDir p).2.existing ↔ q ∈ s.existing ∨ q = p ∧ s.createError p = none := by
  unfold createDir
  cases h : s.createError p with
  | some e => simp
  | none => simp [mem_existing_add, or_comm]

/-- The store as a file system. -/
def fileSystem : FileSystem (StateM Memory) where
  probe p := do return (← get).probe p
  createDir p := modifyGet fun s => s.createDir p

/-- The existing paths in the order of their bytes. -/
def listing (s : Memory) : List Path :=
  s.existing.mergeSort fun p q => decide (p.bytes ≤ q.bytes)

end Memory

end PortableLayout
