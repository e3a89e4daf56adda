import PortableLayout.BaseDirectory
import PortableLayout.FileSystem.Disk
import PortableLayout.Proofs.Path.Parent
import PortableLayout.Proofs.Walk.Steps

/-!
# The directory of an executable

The directory of an executable is the parent of its path, unless that is empty. There is one just if the path has two
components or more (`isSome_parentDir_iff`), and it has all of them but the last (`exists_components_of_parentDir`). The
base directory has the components of that directory and one more, whatever the disk answers (`components_resolveBase`),
so that it lies beside the executable: the directory that it lies in has the components of the executable's again.
-/

set_option autoImplicit false

namespace PortableLayout

variable {p d : Path}

/-- The directory of an executable is its parent, if that has bytes. -/
theorem parentDir_eq_some_iff : parentDir p = some d ↔ p.parent? = some d ∧ d.bytes ≠ [] := by
  rw [parentDir, Option.filter_eq_some_iff, decide_eq_true_iff]

/-- The directory has all components of the path but the last. -/
theorem exists_components_of_parentDir (h : parentDir p = some d) : ∃ c, p.components = d.components ++ [c] :=
  Path.exists_components_of_parent? (parentDir_eq_some_iff.1 h).1

/-- The directory of an executable has components. -/
theorem components_ne_nil_of_parentDir (h : parentDir p = some d) : d.components ≠ [] := by
  intro hnil
  obtain rfl : d = .empty := Path.components_eq_nil_iff.1 hnil
  exact (parentDir_eq_some_iff.1 h).2 rfl

/-- A path with two components or more has a directory, whose components are all but the last. -/
theorem exists_parentDir {cs : List Component} {c : Component} (h : p.components = cs ++ [c]) (hcs : cs ≠ []) :
    ∃ d, parentDir p = some d ∧ d.components = cs := by
  have hroot : c ≠ .root := by
    rintro rfl
    exact (h ▸ Path.listed_components p).isInner_last hcs
  obtain ⟨d, hparent, hcomponents⟩ := Path.exists_parent? h hroot
  refine ⟨d, parentDir_eq_some_iff.2 ⟨hparent, ?_⟩, hcomponents⟩
  intro hnil
  obtain rfl : d = .empty := congrArg Path.mk hnil
  exact hcs hcomponents.symm

/-- A bare name has no directory, and neither has the root. -/
theorem isSome_parentDir_iff : (parentDir p).isSome = true ↔ 2 ≤ p.components.length := by
  constructor
  · intro h
    obtain ⟨d, hd⟩ := Option.isSome_iff_exists.1 h
    obtain ⟨c, hc⟩ := exists_components_of_parentDir hd
    have hpos : 0 < d.components.length := List.length_pos_iff.2 (components_ne_nil_of_parentDir hd)
    rw [hc, List.length_append, List.length_singleton]
    omega
  · intro h
    obtain hnil | ⟨cs, c, hc⟩ := List.eq_nil_or_concat p.components
    · simp [hnil] at h
    · rw [List.concat_eq_append] at hc
      have hcs : cs ≠ [] := by
        rintro rfl
        simp [hc] at h
      obtain ⟨d, hd, -⟩ := exists_parentDir hc hcs
      rw [hd]
      rfl

/-! ## The base directory -/

section

variable {σ : Type} (host : Host (StateM σ)) (dir : Path) (s : σ)

/-- Whatever becomes of it on the disk, the base directory is the same path. -/
theorem fst_resolveBase : (resolveBase host dir s).1 = basePath dir := by
  rw [resolveBase, bind_apply]
  cases (host.holds (basePath dir) s).1 <;> rfl

/-- The base directory is told by one more component than the executable's directory. -/
theorem components_resolveBase :
    (resolveBase host dir s).1.components = dir.components ++ [.name (Text.Utf8.encode Names.base)] := by
  rw [fst_resolveBase]
  exact Path.components_join_name dir (by decide)

end

/-- **The base directory lies beside the executable.** The path of an executable leads to a directory exactly if it has
two components or more, the root and a leading `.` among them. That directory is not empty, it is spelled by the first
bytes of the path, and it has the components of the path without the last. The base directory for it has these
components and its own name behind them, and leads to a directory with these components again. -/
theorem base_directory_lies_beside_executable (exe : Path) :
    ((parentDir exe).isSome = true ↔ 2 ≤ exe.components.length) ∧
    ∀ dir, parentDir exe = some dir →
      dir.bytes ≠ [] ∧ dir.bytes <+: exe.bytes ∧ dir.components = exe.components.dropLast ∧
      ∀ {σ : Type} (host : Host (StateM σ)) (s : σ),
        let base := (resolveBase host dir s).1
        base.components = dir.components ++ [.name (Text.Utf8.encode "PortableData")] ∧
        ∃ beside, parentDir base = some beside ∧ beside.components = dir.components := by
  refine ⟨isSome_parentDir_iff, ?_⟩
  intro dir hdir
  obtain ⟨hparent, hne⟩ := parentDir_eq_some_iff.1 hdir
  obtain ⟨c, hc⟩ := exists_components_of_parentDir hdir
  refine ⟨hne, Path.parent?_isPrefix hparent, ?_, ?_⟩
  · rw [hc, List.dropLast_concat]
  · intro σ host s base
    have hbase := components_resolveBase host dir s
    exact ⟨hbase, exists_parentDir hbase (components_ne_nil_of_parentDir hdir)⟩

/-- An executable that was found by way of `..` from the working directory. -/
theorem base_directory_of_relative_executable :
    let exe := Path.ofString "./..//bin/./game"
    let dir := Path.ofString "./..//bin"
    parentDir exe = some dir ∧ dir.components = [.here, .up, .name (Text.Utf8.encode "bin")] ∧
      ∀ s : Disk, (resolveBase Disk.host dir s).1.components =
        [.here, .up, .name (Text.Utf8.encode "bin"), .name (Text.Utf8.encode "PortableData")] := by
  intro exe dir
  have hdir : parentDir exe = some dir := by decide
  obtain ⟨-, -, hcomponents, hbase⟩ := (base_directory_lies_beside_executable exe).2 dir hdir
  have hlisted : exe.components.dropLast = [.here, .up, .name (Text.Utf8.encode "bin")] := by decide
  rw [hlisted] at hcomponents
  refine ⟨hdir, hcomponents, ?_⟩
  intro s
  rw [(hbase Disk.host s).1, hcomponents]
  rfl

end PortableLayout
