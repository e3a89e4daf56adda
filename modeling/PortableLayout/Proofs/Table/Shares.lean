import PortableLayout.Table

/-!
# Where the shared files of a package may be

A generic Unix process looks for the shared files of a package in one of at most two places, in order. Which these
are is decided by the environment alone (`Packaging.shares`). The resources are at the first of them that holds
something and beside the executable where none does, in whatever way one looks (`UnixTable.resources_eq_firstHeld`).
-/

set_option autoImplicit false

namespace PortableLayout

/-! ## Looking for one path after the other -/

section

variable {m : Type → Type} [Monad m]

/-- The first path that holds something, or the last resort. -/
def firstHeld (look : Path → m Bool) (lastResort : Path) : List Path → m Path
  | [] => pure lastResort
  | p :: ps => do
    if ← look p then return p
    firstHeld look lastResort ps

/-- Where the answers are fixed beforehand, nothing but these decides. -/
theorem firstHeld_pure [LawfulMonad m] (look : Path → Bool) (lastResort : Path) (ps : List Path) :
    firstHeld (fun q => (pure (look q) : m Bool)) lastResort ps = pure ((ps.find? look).getD lastResort) := by
  induction ps with
  | nil => rfl
  | cons p ps ih =>
    rw [firstHeld, pure_bind]
    cases hlook : look p with
    | true =>
      rw [List.find?_cons_of_pos hlook]
      rfl
    | false =>
      rw [List.find?_cons_of_neg (by simp [hlook])]
      exact ih

end

/-! ## The shares of a table -/

namespace UnixTable

/-- The places that a table asks for the shared files of a package. -/
def shares (t : UnixTable) : List Path :=
  (t.appImageDir.map (·.below Names.appImageShare)).toList ++ [t.flatpakShare]

/-- The resources of a table are the first share that holds something, or else beside the executable. -/
theorem resources_eq_firstHeld {m : Type → Type} [Monad m] (look : Path → m Bool) (t : UnixTable) :
    t.resources look = firstHeld look t.exeDir t.shares := by
  obtain ⟨base, exeDir, appImageDir, flatpakShare⟩ := t
  cases appImageDir with
  | none => rfl
  | some mount => rfl

/-- The role for resources is looked up so. -/
theorem dirFor_appResources {m : Type → Type} [Monad m] (look : Path → m Bool) (t : UnixTable) :
    (Table.unix t).dirFor look .appResources = firstHeld look t.exeDir t.shares >>= fun p => pure (some p) := by
  rw [← resources_eq_firstHeld]
  rfl

end UnixTable

/-- A table has a fixed directory for a role, however one looks, unless it is one that looks for packages and is asked
for the resources. -/
theorem Table.dirFor_cases (t : Table) (role : Role) :
    (∃ dir?, ∀ {m : Type → Type} [Monad m] (look : Path → m Bool), t.dirFor look role = pure dir?) ∨
      ∃ u, t = .unix u ∧ role = .appResources := by
  cases role with
  | roamingData => exact .inl ⟨t.roaming?, fun _ => rfl⟩
  | personalData => exact .inl ⟨some t.personal, fun _ => rfl⟩
  | cache => exact .inl ⟨t.cache?, fun _ => rfl⟩
  | appResources =>
    cases t with
    | unix u => exact .inr ⟨u, rfl, rfl⟩
    | windows base exeDir => exact .inl ⟨some exeDir, fun _ => rfl⟩
    | windowsStore base => exact .inl ⟨none, fun _ => rfl⟩
    | apple a => exact .inl ⟨some (a.bundleResources?.getD a.exeDir), fun _ => rfl⟩
    | mobile base filesDir cacheDir => exact .inl ⟨some base, fun _ => rfl⟩
    | fallback base => exact .inl ⟨none, fun _ => rfl⟩

/-! ## The shares of an environment -/

namespace Packaging

/-- The places that are asked for the shared files of a package, in this order. Below the mount point of an AppImage
they are looked for only if the process was started from one. -/
def shares (env : Packaging) (flatpakShare : Path) : List Path :=
  match env.appImage, env.appDir with
  | some _, some mount => [(Path.mk mount).below Names.appImageShare, flatpakShare]
  | _, _ => [flatpakShare]

/-- The process was started from an AppImage that is mounted there. -/
def MountedAt (env : Packaging) (mount : Path) : Prop :=
  env.appImage.isSome = true ∧ env.appDir = some mount.bytes

variable {env : Packaging} {mount mount' : Path}

/-- With a mounted AppImage its shared files come first. -/
theorem shares_of_mountedAt (h : env.MountedAt mount) (flatpakShare : Path) :
    env.shares flatpakShare = [mount.below Names.appImageShare, flatpakShare] := by
  obtain ⟨appImage, appDir⟩ := env
  obtain ⟨hstarted, rfl⟩ := h
  obtain ⟨started, rfl⟩ := Option.isSome_iff_exists.1 hstarted
  rfl

/-- Without one there is but the sandbox to ask. -/
theorem shares_of_not_mounted (h : ∀ mount, ¬ env.MountedAt mount) (flatpakShare : Path) :
    env.shares flatpakShare = [flatpakShare] := by
  obtain ⟨appImage, appDir⟩ := env
  cases appImage with
  | none => rfl
  | some started =>
    cases appDir with
    | none => rfl
    | some bytes => exact absurd ⟨rfl, rfl⟩ (h ⟨bytes⟩)

/-- An AppImage is mounted in one place. -/
theorem MountedAt.unique (h : env.MountedAt mount) (h' : env.MountedAt mount') : mount = mount' := by
  have hbytes := h.2.symm.trans h'.2
  exact congrArg Path.mk (Option.some.inj hbytes)

end Packaging

/-- The shares of a table are those of the environment that it was made from. -/
theorem UnixTable.shares_ofPackaging (base exeDir flatpakShare : Path) (env : Packaging) :
    { ofPackaging base exeDir env with flatpakShare := flatpakShare }.shares = env.shares flatpakShare := by
  obtain ⟨appImage, appDir⟩ := env
  cases appImage with
  | none => rfl
  | some started =>
    cases appDir with
    | none => rfl
    | some mount => rfl

end PortableLayout
