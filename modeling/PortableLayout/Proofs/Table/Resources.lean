import PortableLayout.Proofs.Disk.Existence
import PortableLayout.Proofs.Disk.Reading
import PortableLayout.Proofs.Table.Shares

/-!
# Packaged resources

On a disk the resources of a generic Unix process are at the first share of a package where something is found, and
beside the executable where nothing is (`UnixTable.dirFor_appResources_apply`). A lookup that fails finds nothing.
What is found need not be a directory: a regular file in the place of the shared files is taken for them, and this
is all that can go wrong (`resources_are_first_share_found`).
-/

set_option autoImplicit false

namespace PortableLayout

/-! ## What a lookup finds -/

namespace Disk

variable {d : Disk} {p : Path} {e : IoError}

/-- A path is found exactly if a probe says that something is there. -/
theorem finds_iff_probe : d.finds p = true ↔ d.probe p = .ok true := by
  rw [finds_iff, probe_eq_true_iff]

/-- A directory is found. -/
theorem finds_of_isDir (h : d.isDir p = true) : d.finds p = true :=
  finds_iff_probe.2 (probe_of_isDir h)

/-- What is found is a directory or a file. -/
theorem finds_iff_isDir_or_holdsFile : d.finds p = true ↔ d.isDir p = true ∨ d.HoldsFile p := by
  constructor
  · intro h
    exact isDir_or_holdsFile_of_probe (finds_iff_probe.1 h)
  · rintro (hdir | ⟨q, content, hq, -⟩)
    · exact finds_of_isDir hdir
    · exact finds_iff.2 ⟨q, hq⟩

/-- A path whose probe fails is not found. -/
theorem finds_of_probe_error (h : d.probe p = .error e) : d.finds p = false := by
  rw [Bool.eq_false_iff]
  intro hfinds
  rw [finds_iff_probe.1 hfinds] at h
  cases h

/-- The first path that leads somewhere is the first that leads to a directory, unless it leads to a file. -/
theorem find?_finds_eq_iff (d : Disk) (ps : List Path) :
    ps.find? d.finds = ps.find? d.isDir ↔ ∀ p, ps.find? d.finds = some p → ¬ d.HoldsFile p := by
  induction ps with
  | nil => simp
  | cons p ps ih =>
    cases hfinds : d.finds p with
    | false =>
      have hnot : d.isDir p = false := by
        rw [Bool.eq_false_iff]
        intro hdir
        rw [finds_of_isDir hdir] at hfinds
        cases hfinds
      rw [List.find?_cons_of_neg (by simp [hfinds]), List.find?_cons_of_neg (by simp [hnot])]
      exact ih
    | true =>
      rw [List.find?_cons_of_pos hfinds]
      constructor
      · intro heq q hq
        rw [heq] at hq
        apply not_holdsFile_of_isDir
        exact List.find?_some hq
      · intro hfile
        have hdir : d.isDir p = true :=
          (finds_iff_isDir_or_holdsFile.1 hfinds).resolve_right (hfile p rfl)
        rw [List.find?_cons_of_pos hdir]

/-- Each path is looked up in the same tree, for looking leaves it as it is. -/
theorem firstHeld_apply (lastResort : Path) (ps : List Path) (d : Disk) :
    firstHeld host.holds lastResort ps d = ((ps.find? d.finds).getD lastResort, d) := by
  induction ps with
  | nil => rfl
  | cons p ps ih =>
    rw [firstHeld, bind_apply, holds_apply]
    cases hfinds : d.finds p with
    | true =>
      rw [List.find?_cons_of_pos hfinds]
      rfl
    | false =>
      rw [List.find?_cons_of_neg (by simp [hfinds])]
      exact ih

end Disk

/-! ## The resources of a table -/

/-- The resources are at the first share that is found, or else beside the executable. -/
theorem UnixTable.dirFor_appResources_apply (t : UnixTable) (d : Disk) :
    (Table.unix t).dirFor Disk.host.holds .appResources d =
      (some ((t.shares.find? d.finds).getD t.exeDir), d) := by
  rw [dirFor_appResources, bind_apply, Disk.firstHeld_apply]
  rfl

/-- The resources are at the first share of a package that is found, and beside the executable if none is; looking
for them changes nothing, and a lookup that fails finds nothing. They are where the first share that is a directory
would be, as long as the share that is found is no regular file. -/
theorem resources_are_first_share_found (d : Disk) (base exeDir flatpakShare : Path) (env : Packaging) :
    let t : UnixTable := { UnixTable.ofPackaging base exeDir env with flatpakShare := flatpakShare }
    let shares := env.shares flatpakShare
    (Table.unix t).dirFor Disk.host.holds .appResources d =
      (some ((shares.find? d.finds).getD exeDir), d) ∧
    (∀ p, d.finds p = true ↔ d.isDir p = true ∨ d.HoldsFile p) ∧
    (∀ p e, d.probe p = .error e → d.finds p = false) ∧
    (shares.find? d.finds = shares.find? d.isDir ↔
      ∀ share, shares.find? d.finds = some share → ¬ d.HoldsFile share) := by
  intro t shares
  refine ⟨?_, fun _ => Disk.finds_iff_isDir_or_holdsFile, fun _ _ => Disk.finds_of_probe_error,
    d.find?_finds_eq_iff shares⟩
  have hshares : t.shares = shares := UnixTable.shares_ofPackaging base exeDir flatpakShare env
  rw [t.dirFor_appResources_apply, hshares]
  rfl

/-- Not every packaged share that is used is a directory: a file in its place is taken for it. -/
theorem file_passes_for_packaged_resources :
    ¬ ∀ (d : Disk) (base exeDir flatpakShare : Path) (env : Packaging),
      (Table.unix { UnixTable.ofPackaging base exeDir env with flatpakShare := flatpakShare }).dirFor
          Disk.host.holds .appResources d =
        (some (((env.shares flatpakShare).find? d.isDir).getD exeDir), d) := by
  intro h
  let tree : Node := .dir [(Text.Utf8.encode "img", .dir [(Text.Utf8.encode "usr",
    .dir [(Text.Utf8.encode "share", .file [])])])]
  let env : Packaging := ⟨some (Text.Utf8.encode "x.AppImage"), some (Text.Utf8.encode "img")⟩
  have hclaimed := congrArg Prod.fst
    (h (.ofTree tree) (.ofString "/b") (.ofString "/opt/game") (.ofString Names.flatpakShare) env)
  have hfound : ((Table.unix (.ofPackaging (.ofString "/b") (.ofString "/opt/game") env)).dirFor
      Disk.host.holds .appResources (.ofTree tree)).1 = some (.ofString "img/usr/share") := by
    decide +kernel
  have hbeside : ((env.shares (.ofString Names.flatpakShare)).find? (Disk.ofTree tree).isDir).getD
      (.ofString "/opt/game") = .ofString "/opt/game" := by
    decide +kernel
  have hsame : Path.ofString "img/usr/share" = .ofString "/opt/game" := by
    apply Option.some.inj
    rw [← hfound, ← hbeside]
    exact hclaimed
  revert hsame
  decide

end PortableLayout
