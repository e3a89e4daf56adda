import Mathlib.Data.Set.Basic
import Mathlib.Logic.Function.Basic
import PortableLayout.FileSystem

/-!
# A store shared by several clients

A store of directories that answers one call at a time, and clients that each talk to it in a dialogue
of their own. A schedule is a list of clients: whoever is next on it makes one call, and a client that
has returned lets its turn pass. Every interleaving of the clients' calls is a schedule.

Other than a store that one walk has to itself, this one refuses a directory that is there already and
one whose parent is not there.
-/

set_option autoImplicit false

namespace PortableLayout

/-- A set of directories, told by which paths are in it. -/
structure SharedStore where
  has : Path → Bool

namespace SharedStore

/-- The paths in a store. -/
def paths (S : SharedStore) : Set Path :=
  {p | S.has p = true}

/-- Whether the parent of a path is there; a path without a parent, or with the empty one, needs none. -/
def parentIsThere (S : SharedStore) (p : Path) : Bool :=
  match p.parent? with
  | none => true
  | some d => d == .empty || S.has d

/-- The store with one more path in it. -/
def add (S : SharedStore) (p : Path) : SharedStore :=
  ⟨fun q => q == p || S.has q⟩

/-- The answer to a creation and the store after it. -/
def createDir (S : SharedStore) (p : Path) : Except IoError Unit × SharedStore :=
  if S.has p then (.error (.system .entryExists), S)
  else if S.parentIsThere p then (.ok (), S.add p)
  else (.error (.system .noEntry), S)

/-- The store as a file system, each call of which is one step. -/
def fileSystem : FileSystem (StateM SharedStore) where
  probe p := do return .ok ((← get).has p)
  createDir p := modifyGet fun S => S.createDir p

/-- The store with one more path has this path and those that it had. -/
theorem has_add {S : SharedStore} {p q : Path} : (S.add p).has q = true ↔ q = p ∨ S.has q = true := by
  simp [add]

/-- What was there is still there. -/
theorem has_add_of_has {S : SharedStore} {p q : Path} (h : S.has q = true) :
    (S.add p).has q = true :=
  has_add.2 (.inr h)

/-- In terms of sets, one path is inserted. -/
theorem paths_add (S : SharedStore) (p : Path) : (S.add p).paths = insert p S.paths :=
  Set.ext fun _ => has_add

/-- What is there cannot be created again. -/
theorem createDir_of_has {S : SharedStore} {p : Path} (h : S.has p = true) :
    S.createDir p = (.error (.system .entryExists), S) := by
  rw [createDir, if_pos h]

/-- What is not there can be created if its parent is there or it needs none. -/
theorem createDir_of_parent {S : SharedStore} {p : Path} (h : S.has p = false)
    (hparent : ∀ d, p.parent? = some d → d = .empty ∨ S.has d = true) :
    S.createDir p = (.ok (), S.add p) := by
  have hthere : S.parentIsThere p = true := by
    unfold parentIsThere
    cases hd : p.parent? with
    | none => rfl
    | some d => simpa using hparent d hd
  rw [createDir, if_neg (by simp [h]), if_pos hthere]

end SharedStore

namespace Dialogue

variable {α σ : Type}

/-- Makes the next call of a dialogue, if it has one left. -/
def step (fs : FileSystem (StateM σ)) : Dialogue α → StateM σ (Dialogue α)
  | done a => pure (done a)
  | probe p next => next <$> fs.probe p
  | createDir p next => next <$> fs.createDir p

/-- Running a dialogue on from its next call is running it. -/
theorem step_bind_run (fs : FileSystem (StateM σ)) (d : Dialogue α) :
    (d.step fs >>= fun rest => rest.run fs) = d.run fs := by
  cases d with
  | done a => rfl
  | probe p next => rfl
  | createDir p next => rfl

end Dialogue

/-- A store and its clients, each with what is left of its dialogue. -/
structure Shared (σ ι α : Type) where
  store : σ
  clients : ι → Dialogue α

namespace Shared

variable {σ ι α : Type} [DecidableEq ι]

/-- The client `i` makes one call. -/
def turn (fs : FileSystem (StateM σ)) (s : Shared σ ι α) (i : ι) : Shared σ ι α :=
  let next := (s.clients i).step fs s.store
  ⟨next.2, Function.update s.clients i next.1⟩

/-- The clients make calls in the order of a schedule. -/
def run (fs : FileSystem (StateM σ)) (s : Shared σ ι α) (schedule : List ι) : Shared σ ι α :=
  schedule.foldl (turn fs) s

/-- A call changes nothing about what the other clients have left. -/
theorem clients_turn_of_ne (fs : FileSystem (StateM σ)) (s : Shared σ ι α) {i j : ι} (h : j ≠ i) :
    (s.turn fs i).clients j = s.clients j :=
  Function.update_of_ne h _ _

/-- The client that makes a call has its next step left. -/
theorem clients_turn_self (fs : FileSystem (StateM σ)) (s : Shared σ ι α) (i : ι) :
    (s.turn fs i).clients i = ((s.clients i).step fs s.store).1 :=
  Function.update_self _ _ _

end Shared

end PortableLayout
