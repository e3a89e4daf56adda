import Mathlib.Data.List.Find
import PortableLayout.Proofs.Disk.Spellings
import PortableLayout.Proofs.Table.Redirection
import PortableLayout.Proofs.Table.Resources

/-!
# Absolute directories

A path that begins at the root leads to the same place from every working directory. Below an absolute base, and
with the executable in an absolute directory, a generic Unix table has absolute directories only, but for one case:
the mount point of an AppImage is taken from the environment as it stands there. If it is relative, or empty, and its
share is found from the working directory, then the resources are at a relative path
(`directories_are_absolute_unless_mount_is_relative`).
-/

set_option autoImplicit false

namespace PortableLayout

/-! ## Absolute paths and the working directory -/

namespace Path

variable {p root : Path}

/-- What lies below an absolute path is absolute. -/
theorem LiesBelow.isAbsolute (h : p.LiesBelow root) (hroot : root.isAbsolute = true) : p.isAbsolute = true := by
  rw [isAbsolute_iff_root_mem] at hroot ⊢
  exact h.isPrefix.subset hroot

/-- The first absolute path that holds something is absolute, and so is an absolute last resort. -/
theorem isAbsolute_of_find? {look : Path → Bool} {ps : List Path} (hps : ∀ p ∈ ps, p.isAbsolute = true)
    (hroot : root.isAbsolute = true) : ((ps.find? look).getD root).isAbsolute = true := by
  cases hfind : ps.find? look with
  | none => exact hroot
  | some p => exact hps p (List.mem_of_find?_eq_some hfind)

end Path

namespace Disk

variable {p : Path}

/-- An absolute path leads to the same place from every working directory. -/
theorem locate_of_isAbsolute (h : p.isAbsolute = true) (d : Disk) (cwd : List Bytes) :
    { d with cwd := cwd }.locate p = d.locate p := by
  simp only [locate, lookupPieces, start, if_pos h]

/-- The working directory has no say in whether an absolute path is found. -/
theorem finds_of_isAbsolute (h : p.isAbsolute = true) (d : Disk) (cwd : List Bytes) :
    { d with cwd := cwd }.finds p = d.finds p := by
  rw [finds, locate_of_isAbsolute h, finds]

end Disk

/-! ## The mount point of an AppImage -/

namespace Packaging

variable {env : Packaging} {mount flatpakShare : Path}

/-- The shared files of an AppImage are at an absolute path exactly if its mount point is absolute. -/
theorem isAbsolute_appImageShare (mount : Path) :
    (mount.below Names.appImageShare).isAbsolute = mount.isAbsolute :=
  Path.isAbsolute_join mount (by decide)

/-- The shares are absolute if the mount point is. -/
theorem isAbsolute_of_mem_shares (hmount : ∀ mount, env.MountedAt mount → mount.isAbsolute = true)
    (hflatpak : flatpakShare.isAbsolute = true) : ∀ share ∈ env.shares flatpakShare, share.isAbsolute = true := by
  intro share hshare
  by_cases hmounted : ∃ mount, env.MountedAt mount
  · obtain ⟨mount, hat⟩ := hmounted
    rw [shares_of_mountedAt hat] at hshare
    obtain rfl | hshare := List.mem_cons.1 hshare
    · rw [isAbsolute_appImageShare]
      exact hmount mount hat
    · rwa [List.mem_singleton.1 hshare]
  · rw [shares_of_not_mounted (not_exists.1 hmounted)] at hshare
    rwa [List.mem_singleton.1 hshare]

/-- The only relative share is that of a relative mount point, and it counts only where it is found. -/
theorem isAbsolute_resources_iff {look : Path → Bool} {exeDir : Path} (hflatpak : flatpakShare.isAbsolute = true)
    (hexe : exeDir.isAbsolute = true) :
    (((env.shares flatpakShare).find? look).getD exeDir).isAbsolute = true ↔
      ∀ mount, env.MountedAt mount → look (mount.below Names.appImageShare) = true → mount.isAbsolute = true := by
  have hlater : (([flatpakShare].find? look).getD exeDir).isAbsolute = true :=
    Path.isAbsolute_of_find? (by simpa using hflatpak) hexe
  by_cases hmounted : ∃ mount, env.MountedAt mount
  · obtain ⟨mount, hat⟩ := hmounted
    rw [shares_of_mountedAt hat]
    cases hlook : look (mount.below Names.appImageShare) with
    | true =>
      rw [List.find?_cons_of_pos hlook, Option.getD_some, isAbsolute_appImageShare]
      constructor
      · intro habs mount' hat' _
        rwa [← hat.unique hat']
      · intro h
        exact h mount hat hlook
    | false =>
      rw [List.find?_cons_of_neg (by simp [hlook])]
      refine iff_of_true hlater ?_
      intro mount' hat' hlook'
      rw [← hat.unique hat', hlook] at hlook'
      cases hlook'
  · rw [shares_of_not_mounted (not_exists.1 hmounted)]
    refine iff_of_true hlater ?_
    intro mount hat
    exact absurd ⟨mount, hat⟩ hmounted

end Packaging

/-! ## The directories of a table -/

namespace Table

variable {d : Disk} {role : Role} {p base exeDir : Path} {env : Packaging}

/-- The role has this directory from every working directory, and the directory is the same place from there. -/
def Fixed (t : Table) (role : Role) (d : Disk) (p : Path) : Prop :=
  ∀ cwd, t.dirFor Disk.host.holds role { d with cwd := cwd } = (some p, { d with cwd := cwd }) ∧
    { d with cwd := cwd }.locate p = d.locate p

/-- The roles that are created on demand have absolute directories below an absolute base. -/
theorem exists_dirFor_of_isEnsured {t : UnixTable} (hrole : role.isEnsured = true)
    (hbase : t.base.isAbsolute = true) (d : Disk) :
    ∃ p, (unix t).dirFor Disk.host.holds role d = (some p, d) ∧ p.isAbsolute = true ∧
      (unix t).Fixed role d p := by
  have hsome : ((unix t).redirected? role).isSome = true := by
    cases role with
    | roamingData => rfl
    | personalData => rfl
    | cache => rfl
    | appResources => cases hrole
  obtain ⟨p, hp⟩ := Option.isSome_iff_exists.1 hsome
  have huninjected : (unix t).Uninjected := trivial
  have hbelow : p.LiesBelow t.base := liesBelow_base huninjected hp
  have habs : p.isAbsolute = true := hbelow.isAbsolute hbase
  have hdir : (unix t).dirFor Disk.host.holds role = pure (some p) := by
    rw [← hp]
    exact (unix t).dirFor_of_isEnsured _ hrole
  refine ⟨p, congrFun hdir d, habs, ?_⟩
  intro cwd
  exact ⟨congrFun hdir _, Disk.locate_of_isAbsolute habs d cwd⟩

/-- The shared files of a sandbox are at an absolute path. -/
theorem isAbsolute_flatpakShare : (Path.ofString Names.flatpakShare).isAbsolute = true := by
  decide

/-- The resources of a packaged program are the first share that is found, or else beside the executable. -/
theorem dirFor_appResources_ofPackaging (base exeDir : Path) (env : Packaging) (d : Disk) :
    (unix (.ofPackaging base exeDir env)).dirFor Disk.host.holds .appResources d =
      (some (((env.shares (.ofString Names.flatpakShare)).find? d.finds).getD exeDir), d) := by
  rw [UnixTable.dirFor_appResources_apply, ← UnixTable.shares_ofPackaging base exeDir]
  rfl

/-- With an absolute mount point the same share is found from every working directory. -/
theorem fixed_appResources (hmount : ∀ mount, env.MountedAt mount → mount.isAbsolute = true)
    (hexe : exeDir.isAbsolute = true) (base : Path) (d : Disk) :
    (unix (.ofPackaging base exeDir env)).Fixed .appResources d
      (((env.shares (.ofString Names.flatpakShare)).find? d.finds).getD exeDir) := by
  intro cwd
  have hshares := Packaging.isAbsolute_of_mem_shares hmount isAbsolute_flatpakShare
  have hsame : (env.shares (.ofString Names.flatpakShare)).find? { d with cwd := cwd }.finds =
      (env.shares (.ofString Names.flatpakShare)).find? d.finds := by
    apply List.find?_congr
    intro share hshare
    exact Disk.finds_of_isAbsolute (hshares share hshare) d cwd
  rw [dirFor_appResources_ofPackaging, hsame]
  exact ⟨rfl, Disk.locate_of_isAbsolute (Path.isAbsolute_of_find? hshares hexe) d cwd⟩

end Table

/-- Below an absolute base every directory is absolute and the same from every working directory, except for the
resources of an AppImage whose mount point is relative: these are absolute only if its share is not found. -/
theorem directories_are_absolute_unless_mount_is_relative {base exeDir : Path} (hbase : base.isAbsolute = true)
    (hexe : exeDir.isAbsolute = true) (env : Packaging) (d : Disk) (role : Role) :
    let t : Table := .unix (.ofPackaging base exeDir env)
    ∃ p, t.dirFor Disk.host.holds role d = (some p, d) ∧
      (p.isAbsolute = true ↔ role = .appResources → ∀ mount, env.MountedAt mount →
        d.finds (mount.below Names.appImageShare) = true → mount.isAbsolute = true) ∧
      ((role = .appResources → ∀ mount, env.MountedAt mount → mount.isAbsolute = true) → t.Fixed role d p) := by
  intro t
  -- All but the resources lie below the base, wherever an AppImage is mounted.
  by_cases hrole : role.isEnsured = true
  · obtain ⟨p, hdir, habs, hfixed⟩ :=
      Table.exists_dirFor_of_isEnsured (t := .ofPackaging base exeDir env) hrole hbase d
    have hother : role ≠ .appResources := by
      rintro rfl
      cases hrole
    exact ⟨p, hdir, iff_of_true habs fun h => absurd h hother, fun _ => hfixed⟩
  · obtain rfl : role = .appResources := by
      cases role with
      | appResources => rfl
      | _ => exact absurd rfl hrole
    refine ⟨_, Table.dirFor_appResources_ofPackaging base exeDir env d, ?_, ?_⟩
    · rw [Packaging.isAbsolute_resources_iff Table.isAbsolute_flatpakShare hexe]
      exact ⟨fun h _ => h, fun h => h rfl⟩
    · intro hmount
      exact Table.fixed_appResources (hmount rfl) hexe base d

/-- An AppImage that is mounted at an absolute path has its resources there, whatever the working directory is. -/
theorem resources_of_absolute_mount_are_absolute :
    let env : Packaging := ⟨some (Text.Utf8.encode "x.AppImage"), some (Text.Utf8.encode "/img")⟩
    let d : Disk := .ofTree (.dir [(Text.Utf8.encode "img", .dir [(Text.Utf8.encode "usr",
      .dir [(Text.Utf8.encode "share", .emptyDir)])])])
    let t : Table := .unix (.ofPackaging (.ofString "/b") (.ofString "/opt/game") env)
    let share : Path := .ofString "/img/usr/share"
    t.dirFor Disk.host.holds .appResources d = (some share, d) ∧ share.isAbsolute = true ∧
      ∀ cwd, (t.dirFor Disk.host.holds .appResources { d with cwd := cwd }).1 = some share := by
  intro env d t share
  have hbase : (Path.ofString "/b").isAbsolute = true := by decide
  have hexe : (Path.ofString "/opt/game").isAbsolute = true := by decide
  have hmount : ∀ mount, env.MountedAt mount → mount.isAbsolute = true := by
    rintro ⟨bytes⟩ ⟨-, hat⟩
    cases hat
    decide
  have hfound : (t.dirFor Disk.host.holds .appResources d).1 = some share := by decide +kernel
  obtain ⟨p, hp, habs, hcwd⟩ :=
    directories_are_absolute_unless_mount_is_relative hbase hexe env d .appResources
  obtain rfl : p = share := by
    apply Option.some.inj
    rw [← hfound]
    exact (congrArg Prod.fst hp).symm
  refine ⟨hp, habs.2 fun _ mount hat _ => hmount mount hat, ?_⟩
  intro cwd
  exact congrArg Prod.fst (hcwd (fun _ => hmount) cwd).1

/-- Not every directory is absolute: an empty mount point makes the resources those of the working directory. -/
theorem resources_of_empty_mount_are_relative :
    ¬ ∀ (base exeDir : Path) (env : Packaging) (d : Disk) (role : Role),
      base.isAbsolute = true → exeDir.isAbsolute = true →
        ∃ p, (Table.unix (.ofPackaging base exeDir env)).dirFor Disk.host.holds role d = (some p, d) ∧
          p.isAbsolute = true := by
  intro h
  let tree : Node := .dir [(Text.Utf8.encode "usr", .dir [(Text.Utf8.encode "share", .emptyDir)])]
  let env : Packaging := ⟨some (Text.Utf8.encode "x.AppImage"), some []⟩
  obtain ⟨p, hp, habs⟩ := h (.ofString "/b") (.ofString "/opt/game") env (.ofTree tree) .appResources
    (by decide) (by decide)
  have hfound : ((Table.unix (.ofPackaging (.ofString "/b") (.ofString "/opt/game") env)).dirFor
      Disk.host.holds .appResources (.ofTree tree)).1 = some (.ofString "usr/share") := by
    decide +kernel
  rw [hp] at hfound
  cases hfound
  revert habs
  decide

end PortableLayout
