import PortableLayout.Proofs.Path.Join
import PortableLayout.Table

/-!
# Redirected directories

The directories that are created on demand are made of fixed names below a root: the base directory of the
table, or the files directory that a mobile activity hands over. Which names a role has on a platform is a
small closed list (`names?`), so that these facts are checked by evaluation once: the names are plain, and those of
one role never begin with those of another. What is left is that joining a name adds one component
(`components_join_name`), whatever the bytes of the root are.
-/

set_option autoImplicit false

namespace PortableLayout

/-- The component that a text is. -/
def Component.ofText (name : String) : Component :=
  .name (Text.Utf8.encode name)

namespace Path

variable {p root : Path}

/-- A name below a path is one more component. -/
theorem components_below (p : Path) {name : String} (h : (Component.ofText name).IsInner) :
    (p.below name).components = p.components ++ [.ofText name] :=
  components_join_name p h

/-- The path with these names below it, one after the other. -/
def belowAll (p : Path) (names : List String) : Path :=
  names.foldl below p

/-- Names below a path are its components and one more for each name. -/
theorem components_belowAll (p : Path) {names : List String}
    (h : ∀ n ∈ names, (Component.ofText n).IsInner) :
    (p.belowAll names).components = p.components ++ names.map .ofText := by
  induction names generalizing p with
  | nil => exact (List.append_nil _).symm
  | cons n ns ih =>
    have hn := components_below p (h n (by simp))
    have hns := ih (p.below n) fun k hk => h k (by simp [hk])
    rw [belowAll, List.foldl_cons, ← belowAll, hns, hn, List.append_assoc]
    rfl

/-- The components of `p` are those of `root` and then one normal name or more. -/
def LiesBelow (p root : Path) : Prop :=
  ∃ names : List Bytes, names ≠ [] ∧ (∀ n ∈ names, (Component.name n).IsInner) ∧
    p.components = root.components ++ names.map .name

/-- What lies below a path has its components in front. -/
theorem LiesBelow.isPrefix (h : p.LiesBelow root) : root.components <+: p.components := by
  obtain ⟨names, -, -, hcomponents⟩ := h
  exact ⟨names.map .name, hcomponents.symm⟩

/-- What lies below a path is not the path. -/
theorem LiesBelow.components_ne (h : p.LiesBelow root) : p.components ≠ root.components := by
  obtain ⟨names, hne, -, hcomponents⟩ := h
  rw [hcomponents]
  simp [hne]

end Path

namespace Table

/-- The base directory of a table. -/
def base : Table → Path
  | windows base _ => base
  | windowsStore base => base
  | unix t => t.base
  | apple t => t.base
  | mobile base _ _ => base
  | fallback base => base

/-- No directory was handed over by a mobile activity. -/
def Uninjected : Table → Prop
  | mobile _ filesDir cacheDir => filesDir = none ∧ cacheDir = none
  | _ => True

/-- The directory of a role that is created on demand, where the platform has one. -/
def redirected? (t : Table) : Role → Option Path
  | .roamingData => t.roaming?
  | .personalData => some t.personal
  | .cache => t.cache?
  | .appResources => none

/-- Nothing is looked up on the disk for a role that is created on demand. -/
theorem dirFor_of_isEnsured {m : Type → Type} [Monad m] (look : Path → m Bool) (t : Table) {role : Role}
    (h : role.isEnsured = true) : t.dirFor look role = pure (t.redirected? role) := by
  cases role with
  | roamingData => rfl
  | personalData => rfl
  | cache => rfl
  | appResources => cases h

/-! ## Names below the base -/

/-- The names on platforms that have a place for everything right below the base. -/
def sharedNames : Role → Option (List String)
  | .roamingData => some [Names.appData, Names.roaming]
  | .personalData => some [Names.documents]
  | .cache => some [Names.cache]
  | .appResources => none

/-- The names on the Windows desktop, where the cache is local data. -/
def windowsNames : Role → Option (List String)
  | .roamingData => some [Names.appData, Names.roaming]
  | .personalData => some [Names.documents]
  | .cache => some [Names.appData, Names.localData, Names.cache]
  | .appResources => none

/-- The names where there is a place for personal data only. -/
def personalNames (names : List String) : Role → Option (List String)
  | .personalData => some names
  | _ => none

/-- The names below the base that the directory of a role has. -/
def names? : Table → Role → Option (List String)
  | windows _ _ => windowsNames
  | windowsStore _ => personalNames [Names.appData, Names.localData]
  | unix _ => sharedNames
  | apple _ => sharedNames
  | mobile _ _ _ => sharedNames
  | fallback _ => personalNames [Names.documents]

/-- Every list of names is one of plain names, and none begins with that of another role. -/
def Sound (names? : Role → Option (List String)) : Prop :=
  ∀ r ∈ Role.all, ∀ ns ∈ (names? r).toList, (ns ≠ [] ∧ ∀ n ∈ ns, (Component.ofText n).IsInner) ∧
    ∀ s ∈ Role.all, r ≠ s → ∀ ks ∈ (names? s).toList,
      ¬ ns.map Component.ofText <+: ks.map Component.ofText

/-- Whether the names of a table are sound can be computed. -/
instance : DecidablePred Sound := fun names? =>
  inferInstanceAs (Decidable (∀ r ∈ Role.all, ∀ ns ∈ (names? r).toList,
    (ns ≠ [] ∧ ∀ n ∈ ns, (Component.ofText n).IsInner) ∧
      ∀ s ∈ Role.all, r ≠ s → ∀ ks ∈ (names? s).toList,
        ¬ ns.map Component.ofText <+: ks.map Component.ofText))

/-- The names of every table are sound. -/
theorem sound_names? (t : Table) : Sound t.names? := by
  have hshared : Sound sharedNames := by decide
  cases t with
  | windows base exeDir => exact (by decide : Sound windowsNames)
  | windowsStore base => exact (by decide : Sound (personalNames [Names.appData, Names.localData]))
  | unix t => exact hshared
  | apple t => exact hshared
  | mobile base filesDir cacheDir => exact hshared
  | fallback base => exact (by decide : Sound (personalNames [Names.documents]))

/-- Without a directory of a mobile activity every directory that is created on demand has the names of its
role below the base. -/
theorem redirected?_eq {t : Table} (h : t.Uninjected) (role : Role) :
    t.redirected? role = (t.names? role).map t.base.belowAll := by
  cases t with
  | mobile base filesDir cacheDir =>
    obtain ⟨rfl, rfl⟩ := h
    cases role <;> rfl
  | windows base exeDir => cases role <;> rfl
  | windowsStore base => cases role <;> rfl
  | unix t => cases role <;> rfl
  | apple t => cases role <;> rfl
  | fallback base => cases role <;> rfl

variable {t : Table} {r s : Role} {p q : Path}

/-- What is redirected lies below the base directory. -/
theorem liesBelow_base (h : t.Uninjected) (hp : t.redirected? r = some p) : p.LiesBelow t.base := by
  rw [redirected?_eq h] at hp
  obtain ⟨ns, hns, rfl⟩ := Option.map_eq_some_iff.1 hp
  obtain ⟨⟨hne, hplain⟩, -⟩ := sound_names? t r r.mem_all ns (by simp [hns])
  refine ⟨ns.map Text.Utf8.encode, by simpa using hne, ?_, ?_⟩
  · intro n hn
    obtain ⟨k, hk, rfl⟩ := List.mem_map.1 hn
    exact hplain k hk
  · rw [Path.components_belowAll _ hplain, List.map_map]
    rfl

/-- No two roles are redirected to places of which one is the other or lies in it. -/
theorem not_isPrefix (h : t.Uninjected) (hrs : r ≠ s) (hp : t.redirected? r = some p)
    (hq : t.redirected? s = some q) : ¬ p.components <+: q.components := by
  rw [redirected?_eq h] at hp hq
  obtain ⟨ns, hns, rfl⟩ := Option.map_eq_some_iff.1 hp
  obtain ⟨ks, hks, rfl⟩ := Option.map_eq_some_iff.1 hq
  obtain ⟨⟨-, hplain⟩, hapart⟩ := sound_names? t r r.mem_all ns (by simp [hns])
  obtain ⟨⟨-, hplain'⟩, -⟩ := sound_names? t s s.mem_all ks (by simp [hks])
  rw [Path.components_belowAll _ hplain, Path.components_belowAll _ hplain', List.prefix_append_right_inj]
  exact hapart s s.mem_all hrs ks (by simp [hks])

/-- The directories of these roles lie strictly below a root, and none of them is another one or lies in it. -/
structure KeepsApart (t : Table) (root : Path) (roles : List Role) : Prop where
  below : ∀ r ∈ roles, ∀ p, t.redirected? r = some p →
    p.LiesBelow root ∧ root.components <+: p.components ∧ p.components ≠ root.components
  apart : ∀ r ∈ roles, ∀ s ∈ roles, r ≠ s → ∀ p q, t.redirected? r = some p → t.redirected? s = some q →
    ¬ p.components <+: q.components

/-- Without injected directories a table keeps all roles apart below its base. -/
theorem keepsApart_base (h : t.Uninjected) (roles : List Role) : t.KeepsApart t.base roles where
  below _ _ _ hp :=
    have hbelow := liesBelow_base h hp
    ⟨hbelow, hbelow.isPrefix, hbelow.components_ne⟩
  apart _ _ _ _ hrs _ _ hp hq := not_isPrefix h hrs hp hq

/-- Tables that have the same directories for these roles keep them apart alike. -/
theorem KeepsApart.congr {t' : Table} {root : Path} {roles : List Role} (h : t.KeepsApart root roles)
    (hsame : ∀ r ∈ roles, t'.redirected? r = t.redirected? r) : t'.KeepsApart root roles where
  below r hr p hp := h.below r hr p (hsame r hr ▸ hp)
  apart r hr s hs hrs p q hp hq := h.apart r hr s hs hrs p q (hsame r hr ▸ hp) (hsame s hs ▸ hq)

/-- The files directory of a mobile activity takes the place of the base for roaming and personal data. -/
theorem redirected?_mobile (base filesDir : Path) (cacheDir : Option Path) :
    ∀ r ∈ [Role.roamingData, .personalData],
      (mobile base (some filesDir) cacheDir).redirected? r = (mobile filesDir none none).redirected? r := by
  intro r hr
  obtain rfl | hr := List.mem_cons.1 hr
  · rfl
  · rw [List.mem_singleton.1 hr]
    rfl

end Table

/-- However the base is spelled, the directories that a table creates on demand lie strictly below it and apart
from each other. A mobile activity's files directory takes the place of the base for roaming and personal data,
while the resources stay at the base. -/
theorem redirected_directories_lie_apart {m : Type → Type} [Monad m] (look : Path → m Bool) (t : Table) :
    (∀ role : Role, role.isEnsured = true → t.dirFor look role = pure (t.redirected? role)) ∧
    (t.Uninjected → t.KeepsApart t.base Role.all) ∧
    ∀ base filesDir cacheDir, t = .mobile base (some filesDir) cacheDir →
      (∀ r ∈ [Role.roamingData, .personalData],
        t.redirected? r = (Table.mobile filesDir none none).redirected? r) ∧
      t.KeepsApart filesDir [.roamingData, .personalData] ∧
      t.dirFor look .appResources = pure (some base) := by
  refine ⟨fun _ => t.dirFor_of_isEnsured look, fun h => Table.keepsApart_base h _, ?_⟩
  rintro base filesDir cacheDir rfl
  have hsame := Table.redirected?_mobile base filesDir cacheDir
  have hfiles : (Table.mobile filesDir none none).Uninjected := ⟨rfl, rfl⟩
  exact ⟨hsame, (Table.keepsApart_base hfiles _).congr hsame, rfl⟩

/-- A base that is spelled with a leading dot, repeated separators and a silent end still has the roaming data
below it and apart from the documents. -/
theorem directories_of_odd_base_lie_apart :
    (roamingUnder (.ofString "./a//.")).LiesBelow (.ofString "./a//.") ∧
    ¬ (roamingUnder (.ofString "./a//.")).components <+: (documentsUnder (.ofString "./a//.")).components := by
  have h := (redirected_directories_lie_apart (m := Id) (fun _ => false)
    (.apple ⟨.ofString "./a//.", .empty⟩)).2.1 trivial
  exact ⟨(h.below .roamingData (by decide) _ rfl).1,
    h.apart .roamingData (by decide) .personalData (by decide) (by decide) _ _ rfl rfl⟩

end PortableLayout
