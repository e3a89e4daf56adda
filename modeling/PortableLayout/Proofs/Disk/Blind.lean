import PortableLayout.BaseDirectory
import PortableLayout.Proofs.Disk.Shape
import PortableLayout.Proofs.Table.Looks
import PortableLayout.Report

/-!
# Computations that do not look into files

A computation is blind to what files hold if it comes to the same on disks that differ in nothing else: it
gives the same result and adds the same directories (`Disk.Blind`). Probes, the making of directories and the
question for a directory are blind, and so is what is put together from them: walks, the base directory, the
lookups of tables, and every report. Only the reading of files is not.
-/

set_option autoImplicit false

namespace PortableLayout.Disk

/-- On disks that are alike, the computation gives the same result and adds the same directories. -/
def Blind {α : Type} (x : StateM Disk α) : Prop :=
  ∀ d d' : Disk, d.Alike d' → (x d).1 = (x d').1 ∧ ∃ new, d.Adds new (x d).2 ∧ d'.Adds new (x d').2

variable {α β : Type}

namespace Blind

variable {x : StateM Disk α} {f : α → StateM Disk β}

/-- A result that is at hand does not depend on what files hold. -/
protected theorem pure (a : α) : Blind (pure a) :=
  fun d d' _ => ⟨rfl, [], .refl d, .refl d'⟩

/-- Blind computations one after the other are blind. -/
protected theorem bind (hx : Blind x) (hf : ∀ a, Blind (f a)) : Blind (x >>= f) := by
  intro d d' h
  obtain ⟨hresult, new, hadds, hadds'⟩ := hx d d' h
  obtain ⟨hresult', new', hlater, hlater'⟩ := hf (x d).1 _ _ (h.adds hadds hadds')
  rw [bind_apply, bind_apply, ← hresult]
  exact ⟨hresult', new ++ new', hadds.trans hlater, hadds'.trans hlater'⟩

/-- A choice between blind computations, on grounds that are known before, is blind. -/
protected theorem ite {c : Prop} [Decidable c] {y : StateM Disk α} (hx : Blind x) (hy : Blind y) :
    Blind (if c then x else y) := by
  split
  · exact hx
  · exact hy

/-- A question to which disks that are alike have one answer. -/
theorem of_answer (ask : Disk → α) (h : ∀ d d', d.Alike d' → ask d = ask d') :
    Blind (do return ask (← get)) :=
  fun d d' halike => ⟨h d d' halike, [], .refl d, .refl d'⟩

end Blind

/-! ## Calls -/

/-- Asking whether something is there is blind. -/
theorem blind_probe (p : Path) : Blind (host.probe p) :=
  .of_answer (·.probe p) fun _ _ h => h.probe_eq p

/-- Asking whether a directory is there is blind. -/
theorem blind_isDir (p : Path) : Blind (host.isDir p) :=
  .of_answer (·.isDir p) fun _ _ h => h.isDir_eq p

/-- Making a directory is blind. -/
theorem blind_createDir (p : Path) : Blind (host.createDir p) := by
  intro d d' h
  show (d.createDir p).1 = (d'.createDir p).1 ∧
    ∃ new, d.Adds new (d.createDir p).2 ∧ d'.Adds new (d'.createDir p).2
  have hmake := h.makeDir p
  rw [createDir, createDir]
  generalize d.makeDir p = made, d'.makeDir p = made' at hmake
  cases hmake with
  | ok hadds =>
    obtain ⟨l, hadds, hadds'⟩ := hadds
    exact ⟨rfl, [l], hadds, hadds'⟩
  | error e => exact ⟨rfl, [], .refl d, .refl d'⟩

/-- Looking for something, errors taken for an absence, is blind. -/
theorem blind_holds (p : Path) : Blind (host.holds p) := by
  refine (blind_probe p).bind ?_
  intro answer
  cases answer with
  | ok found => exact .pure found
  | error e => exact .pure false

/-- A recorded conversation with the disk is blind. -/
theorem blind_record (dialogue : Dialogue α) : Blind (dialogue.record fileSystem) := by
  induction dialogue with
  | done a => exact .pure _
  | probe p next ih => exact (blind_probe p).bind fun answer => (ih answer).bind fun later => .pure _
  | createDir p next ih => exact (blind_createDir p).bind fun answer => (ih answer).bind fun later => .pure _

/-! ## What is put together from them -/

/-- Making a directory with all that is missing above it is blind. -/
theorem blind_createFrom (ps : List Path) : Blind (createFrom host ps) := by
  induction ps with
  | nil => exact .pure _
  | cons p parents ih =>
    -- A directory that cannot be made does no harm if it is there.
    have hthere (e : IoError) : Blind (do
        if ← host.isDir p then return (.ok () : Except IoError Unit) else return .error e) :=
      (blind_isDir p).bind fun found => .ite (.pure _) (.pure _)
    rw [createFrom]
    refine .ite (.pure _) ((blind_createDir p).bind ?_)
    intro answer
    cases answer with
    | ok _ => exact .pure _
    | error e =>
      refine .ite (ih.bind ?_) (hthere e)
      intro above
      cases above with
      | error e' => exact .pure _
      | ok _ =>
        refine (blind_createDir p).bind ?_
        intro again
        cases again with
        | ok _ => exact .pure _
        | error e' => exact hthere e'

/-- Choosing the base directory is blind. -/
theorem blind_resolveBase (exeDir : Path) : Blind (resolveBase host exeDir) :=
  (blind_holds _).bind fun _ => .ite (.pure _) ((blind_createFrom _).bind fun _ => .pure _)

/-- A look with a note of it is still blind. -/
theorem blind_noting (p : Path) (looks : List Look) : Blind ((noting host.holds p).run looks) := by
  rw [run_noting, map_eq_pure_bind]
  exact (blind_holds p).bind fun found => .pure _

/-- Looking for the first path that holds something is blind. -/
theorem blind_firstHeld (lastResort : Path) (ps : List Path) (looks : List Look) :
    Blind ((firstHeld (noting host.holds) lastResort ps).run looks) := by
  induction ps generalizing looks with
  | nil => exact .pure _
  | cons p ps ih =>
    rw [firstHeld, StateT.run_bind]
    refine (blind_noting p looks).bind ?_
    rintro ⟨found, looks'⟩
    cases found with
    | true => exact .pure _
    | false => exact ih looks'

/-- Looking a role up in a table is blind. -/
theorem blind_dirFor (t : Table) (role : Role) : Blind ((t.dirFor (noting host.holds) role).run []) := by
  obtain ⟨dir?, hfixed⟩ | ⟨u, rfl, rfl⟩ := t.dirFor_cases role
  · rw [hfixed]
    exact .pure _
  · rw [UnixTable.dirFor_appResources, StateT.run_bind]
    exact (blind_firstHeld u.exeDir u.shares []).bind fun found => .pure _

/-- Resolving a role is blind. -/
theorem blind_resolve (t : Table) (role : Role) : Blind (resolve host.holds fileSystem t role) := by
  refine (blind_dirFor t role).bind ?_
  rintro ⟨found, looks⟩
  cases found with
  | none => exact .pure _
  | some path =>
    exact .ite ((blind_record _).bind fun walk => .pure _) (.pure _)

/-- Resolving all roles of a report is blind. -/
theorem blind_attempts (t : Table) (roles : List Role) :
    Blind (Report.attempts host.holds fileSystem t roles) := by
  induction roles with
  | nil => exact .pure _
  | cons role roles ih => exact (blind_resolve t role).bind fun a => ih.bind fun later => .pure _

end PortableLayout.Disk
