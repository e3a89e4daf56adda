import PortableLayout.Config
import PortableLayout.Proofs.Disk.Calls
import PortableLayout.Proofs.Walk.Steps

/-!
# Calls that only read

Looking at a disk does not change it, and neither does a computation that is put together from calls that
look. Asking whether a path holds something is to look whether it leads anywhere (`holds_apply`), and a
configuration can be loaded between two walks without a trace (`readsOnly_load`).
-/

set_option autoImplicit false

namespace PortableLayout

/-- A computation that leaves the state as it is. -/
def ReadsOnly {σ α : Type} (x : StateM σ α) : Prop :=
  ∀ s, (x s).2 = s

namespace ReadsOnly

variable {σ α β : Type} {x : StateM σ α} {f : α → StateM σ β}

/-- A result that is at hand needs no change of the state. -/
protected theorem pure (a : α) : ReadsOnly (pure a : StateM σ α) :=
  fun _ => rfl

/-- Computations that change nothing, one after the other, change nothing. -/
protected theorem bind (hx : ReadsOnly x) (hf : ∀ a, ReadsOnly (f a)) : ReadsOnly (x >>= f) := by
  intro s
  rw [bind_apply, hf, hx]

end ReadsOnly

namespace Disk

/-- A path leads somewhere. A lookup that fails, for whatever reason, says no. -/
def finds (d : Disk) (p : Path) : Bool :=
  match d.locate p with
  | .ok _ => true
  | .error _ => false

/-- A path is found exactly if it leads somewhere. -/
theorem finds_iff {d : Disk} {p : Path} : d.finds p = true ↔ ∃ q, d.locate p = .ok q := by
  unfold finds
  cases d.locate p with
  | ok q => simp
  | error e => simp

/-- Asking whether something is there answers whether the path is found. -/
theorem holds_apply (p : Path) (d : Disk) : host.holds p d = (d.finds p, d) := by
  have hcall : host.probe p d = (d.probe p, d) := rfl
  rw [FileSystem.holds, bind_apply, hcall, probe, finds]
  cases d.locate p with
  | ok q => rfl
  | error e =>
    -- Nothing found and a failed probe are the same answer here.
    by_cases hmissing : e.kind = .notFound
    · simp only [if_pos hmissing]
      rfl
    · simp only [if_neg hmissing]
      rfl

/-- Asking whether something is there changes nothing. -/
theorem readsOnly_holds (p : Path) : ReadsOnly (host.holds p) :=
  fun d => congrArg Prod.snd (holds_apply p d)

/-- A path that holds something for the host holds something for a probe. -/
theorem probe_of_holds {d : Disk} {p : Path} (h : (host.holds p d).1 = true) : d.probe p = .ok true := by
  rw [holds_apply] at h
  exact probe_eq_true_iff.2 (finds_iff.1 h)

/-- Reading settings changes nothing. -/
theorem readsOnly_readSettings (read : Settings.Reader) (p : Path) :
    ReadsOnly (Config.readSettings read host p) := by
  have hsize : ReadsOnly (host.fileSize p) := fun _ => rfl
  have hread : ReadsOnly (host.readFile p) := fun _ => rfl
  refine hsize.bind ?_
  intro size
  cases size with
  | error e => exact .pure _
  | ok n =>
    by_cases hlarge : Config.maxFileBytes < n
    · simp only [if_pos hlarge]
      exact .pure _
    · simp only [if_neg hlarge]
      refine hread.bind ?_
      intro content
      cases content with
      | error e => exact .pure _
      | ok bytes =>
        dsimp only
        cases Text.Utf8.decode bytes with
        | none => exact .pure _
        | some text =>
          dsimp only
          cases read text with
          | error detail => exact .pure _
          | ok settings => exact .pure _

/-- Loading a configuration changes nothing. -/
theorem readsOnly_load (read : Settings.Reader) (dir : Path) : ReadsOnly (Config.loadWith read host dir) := by
  refine (readsOnly_holds _).bind ?_
  intro found
  cases found with
  | false => exact .pure _
  | true =>
    refine (readsOnly_readSettings read _).bind ?_
    intro settings
    cases settings with
    | error e => exact .pure _
    | ok s => exact .pure _

end Disk

end PortableLayout
