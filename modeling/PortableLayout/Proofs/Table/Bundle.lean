import PortableLayout.Proofs.Path.Parent
import PortableLayout.Proofs.Table.Redirection

/-!
# Application bundles

An executable lies in an application bundle if its directory is `X.app/Contents/MacOS`. The table finds this out by
taking names and parents in turn, each cut out of the bytes that are left, and may give up at any of them. All of
this comes to one look at the last three components (`Path.EndsInBundle`), whatever separators and dots stand
between them; and the resources have the same components but for the last one (`bundle_is_told_by_components`).
-/

set_option autoImplicit false

namespace PortableLayout

/-- The last three components are a name with something before its `.app`, then `Contents`, then `MacOS`. -/
def Path.EndsInBundle (p : Path) : Prop :=
  ∃ (above : List Component) (stem : Bytes), stem ≠ [] ∧
    p.components = above ++ [.name (stem ++ Text.Utf8.encode ".app"), .ofText "Contents", .ofText "MacOS"]

namespace AppleTable

variable {t : AppleTable} {r : Path}

/-- What has to succeed, one after the other, for the resources of a bundle to be found. -/
theorem bundleResources?_eq_some_iff :
    t.bundleResources? = some r ↔ ∃ contents bundle,
      t.exeDir.fileName? = some (Text.Utf8.encode Names.bundleExecutables) ∧
      t.exeDir.parent? = some contents ∧
      contents.fileName? = some (Text.Utf8.encode Names.bundleContents) ∧
      contents.parent? = some bundle ∧
      bundle.extension? = some (Text.Utf8.encode Names.bundleExtension) ∧
      contents.below Names.bundleResources = r := by
  unfold bundleResources?
  simp [Option.bind_eq_some_iff, guard]

/-- The three steps of the search meet the components from the last one on, so that none of them gives up. -/
theorem exists_bundleResources? (h : t.exeDir.EndsInBundle) : ∃ r, t.bundleResources? = some r := by
  obtain ⟨above, stem, hstem, hexe⟩ := h
  have hexe' : t.exeDir.components =
      (above ++ [.name (stem ++ Text.Utf8.encode ".app"), .ofText "Contents"]) ++ [.ofText "MacOS"] := by
    rw [hexe, List.append_assoc]
    rfl
  obtain ⟨contents, hcontents, hc⟩ := Path.exists_parent? hexe' nofun
  have hc' : contents.components =
      (above ++ [.name (stem ++ Text.Utf8.encode ".app")]) ++ [.ofText "Contents"] := by
    rw [hc, List.append_assoc]
    rfl
  obtain ⟨bundle, hbundle, hb⟩ := Path.exists_parent? hc' nofun
  have hext : bundle.extension? = some (Text.Utf8.encode Names.bundleExtension) :=
    Path.extension?_eq_some_iff.2 ⟨by decide, above, stem, hstem, hb⟩
  exact ⟨contents.below Names.bundleResources, bundleResources?_eq_some_iff.2 ⟨contents, bundle,
    Path.fileName?_eq_some_iff.2 ⟨_, hexe'⟩, hcontents, Path.fileName?_eq_some_iff.2 ⟨_, hc'⟩, hbundle, hext, rfl⟩⟩

/-- A search that comes to its end has met a bundle, and its result lies beside the executables. -/
theorem endsInBundle_of_bundleResources? (h : t.bundleResources? = some r) :
    t.exeDir.EndsInBundle ∧ r.components = t.exeDir.components.dropLast ++ [.ofText "Resources"] := by
  obtain ⟨contents, bundle, hexe, hcontents, hname, hbundle, hext, rfl⟩ := bundleResources?_eq_some_iff.1 h
  obtain ⟨cs, hcs⟩ := Path.fileName?_eq_some_iff.1 hexe
  obtain ⟨ds, hds⟩ := Path.fileName?_eq_some_iff.1 hname
  obtain ⟨-, above, stem, hstem, habove⟩ := Path.extension?_eq_some_iff.1 hext
  have hc : contents.components = cs := Path.components_of_parent? hcontents hcs nofun
  have hb : bundle.components = ds := Path.components_of_parent? hbundle hds nofun
  constructor
  · refine ⟨above, stem, hstem, ?_⟩
    rw [hcs, ← hc, hds, ← hb, habove, List.append_assoc, List.append_assoc]
    rfl
  · rw [Path.components_below contents (by decide), hc, hcs, List.dropLast_concat]
    rfl

/-- A bundle has resources exactly if the directory of the executable ends as one in a bundle does. -/
theorem isSome_bundleResources?_iff : t.bundleResources?.isSome = true ↔ t.exeDir.EndsInBundle := by
  rw [Option.isSome_iff_exists]
  constructor
  · rintro ⟨r, hr⟩
    exact (endsInBundle_of_bundleResources? hr).1
  · exact exists_bundleResources?

end AppleTable

/-- An executable's directory lies in a bundle exactly if its components say so, however it is spelled, and then the
resources have its components with the last one replaced. Outside of a bundle they are in the directory of the
executable, byte for byte. -/
theorem bundle_is_told_by_components {m : Type → Type} [Monad m] (look : Path → m Bool) (t : AppleTable) :
    (t.bundleResources?.isSome = true ↔ t.exeDir.EndsInBundle) ∧
    (∀ r, t.bundleResources? = some r →
      r.components = t.exeDir.components.dropLast ++ [.ofText "Resources"] ∧
      (Table.apple t).dirFor look .appResources = pure (some r)) ∧
    (¬ t.exeDir.EndsInBundle →
      t.bundleResources? = none ∧ (Table.apple t).dirFor look .appResources = pure (some t.exeDir)) := by
  -- No look at the disk is made, so that the components decide alone.
  have hdir : (Table.apple t).dirFor look .appResources = pure (some (t.bundleResources?.getD t.exeDir)) := rfl
  refine ⟨AppleTable.isSome_bundleResources?_iff, ?_, ?_⟩
  · intro r hr
    rw [hdir, hr]
    exact ⟨(AppleTable.endsInBundle_of_bundleResources? hr).2, rfl⟩
  · intro houtside
    have hnone : t.bundleResources? = none := by
      rw [← Option.not_isSome_iff_eq_none, AppleTable.isSome_bundleResources?_iff]
      exact houtside
    rw [hdir, hnone]
    exact ⟨rfl, rfl⟩

/-- Before the extension a dot is enough, but nothing is not. -/
example :
    (AppleTable.mk .empty (.ofString "a//..app/./Contents/MacOS/")).bundleResources? =
      some (.ofString "a//..app/./Contents/Resources") ∧
    (AppleTable.mk .empty (.ofString "/.app/Contents/MacOS")).bundleResources? = none := by
  decide

end PortableLayout
