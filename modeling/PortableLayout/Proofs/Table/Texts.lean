import PortableLayout.Proofs.Path.Text
import PortableLayout.Proofs.Table.Redirection

/-!
# Texts of directories

Unless it is looked up, the directory of a role is made of fixed names below a root (`dirFor_eq_belowAll`): the base
directory, the executable's own one, or one that a mobile activity handed over. The names have texts and begin with
no separator. So whether the directory has a text is decided by its root alone (`Path.hasText_belowAll_iff`).
-/

set_option autoImplicit false

namespace PortableLayout

namespace Path

/-- A path that was made from a text has one. -/
theorem hasText_ofString (name : String) : (ofString name).HasText :=
  hasText_iff_isUtf8.2 (Text.Utf8.isUtf8_iff.2 ⟨name, rfl⟩)

/-- A path with a name below it has a text exactly if the path has one. -/
theorem hasText_below_iff (p : Path) {name : String} (h : (Component.ofText name).IsInner) :
    (p.below name).HasText ↔ p.HasText := by
  have hrelative : (ofString name).isAbsolute = false := isAbsolute_name h
  rw [below, hasText_join_iff p hrelative]
  exact and_iff_left (hasText_ofString name)

/-- A path with several names below it has a text exactly if the path has one. -/
theorem hasText_belowAll_iff (p : Path) {names : List String} (h : ∀ n ∈ names, (Component.ofText n).IsInner) :
    (p.belowAll names).HasText ↔ p.HasText := by
  induction names generalizing p with
  | nil => rfl
  | cons n ns ih =>
    rw [belowAll, List.foldl_cons, ← belowAll, ih (p.below n) fun k hk => h k (by simp [hk]),
      hasText_below_iff p (h n (by simp))]

end Path

namespace Table

/-- The directory that the one of a role is made below. -/
def root : Table → Role → Path
  | windows _ exeDir, .appResources => exeDir
  | mobile base filesDir _, .roamingData => filesDir.getD base
  | mobile base filesDir _, .personalData => filesDir.getD base
  | mobile base _ cacheDir, .cache => cacheDir.getD base
  | t, _ => t.base

/-- The names that the directory of a role has below its root. -/
def rootNames? : Table → Role → Option (List String)
  | windows _ _, .appResources => some []
  | mobile _ _ _, .appResources => some []
  | mobile _ _ (some _), .cache => some []
  | t, role => t.names? role

/-- The directory of the role may be another one than the table was given: the shared files of a package, or the
resources of a bundle. -/
def LooksUp : Table → Role → Prop
  | unix _, .appResources => True
  | apple _, .appResources => True
  | _, _ => False

variable {m : Type → Type} [Monad m] {t : Table} {role : Role} {names : List String}

/-- The names that a table puts below a root can stand behind other components. -/
theorem isInner_of_rootNames? (h : t.rootNames? role = some names) : ∀ n ∈ names, (Component.ofText n).IsInner := by
  unfold rootNames? at h
  split at h
  · cases h
    nofun
  · cases h
    nofun
  · cases h
    nofun
  · exact (sound_names? t role role.mem_all names (by simp [h])).1.2

/-- A role that is not looked up has the directory that its names lead to below its root. -/
theorem dirFor_eq_belowAll (look : Path → m Bool) (h : ¬ t.LooksUp role) :
    t.dirFor look role = pure ((t.rootNames? role).map (t.root role).belowAll) := by
  cases t with
  | windows base exeDir => cases role <;> rfl
  | windowsStore base => cases role <;> rfl
  | unix t =>
    cases role with
    | appResources => exact absurd trivial h
    | roamingData => rfl
    | personalData => rfl
    | cache => rfl
  | apple t =>
    cases role with
    | appResources => exact absurd trivial h
    | roamingData => rfl
    | personalData => rfl
    | cache => rfl
  | mobile base filesDir cacheDir =>
    cases role with
    | cache => cases cacheDir <;> rfl
    | roamingData => rfl
    | personalData => rfl
    | appResources => rfl
  | fallback base => cases role <;> rfl

end Table

/-- A joined path has a text exactly if both parts have one, and it is made of theirs. A path has a text exactly if each
of its components is UTF-8. So the directory of a role, unless it is looked up, has a text exactly if its root has. -/
theorem texts_follow_the_structure_of_paths {m : Type → Type} [Monad m] (look : Path → m Bool) (t : Table) :
    (∀ p q : Path, q.isAbsolute = false →
      ((p.join q).HasText ↔ p.HasText ∧ q.HasText) ∧
      ∀ u, (p.join q).toText = .ok u ↔ ∃ s t, p.toText = .ok s ∧ q.toText = .ok t ∧ u = s ++ p.gap ++ t) ∧
    (∀ p : Path, p.HasText ↔ ∀ c ∈ p.components, Text.Utf8.IsUtf8 c.bytes) ∧
    ∀ role, ¬ t.LooksUp role → ∃ dir?, t.dirFor look role = pure dir? ∧ ∀ dir, dir? = some dir →
      (∃ names, dir = (t.root role).belowAll names) ∧ (dir.HasText ↔ (t.root role).HasText) := by
  refine ⟨fun p q hq => ⟨Path.hasText_join_iff p hq, fun _ => Path.toText_join_eq_ok_iff hq⟩,
    fun _ => Path.hasText_iff_components, ?_⟩
  intro role hrole
  refine ⟨_, t.dirFor_eq_belowAll look hrole, ?_⟩
  intro dir hdir
  obtain ⟨names, hnames, rfl⟩ := Option.map_eq_some_iff.1 hdir
  exact ⟨⟨names, rfl⟩, (t.root role).hasText_belowAll_iff (Table.isInner_of_rootNames? hnames)⟩

/-- Below a base that is no UTF-8 the cache has no text, but the resources beside the executable have one. -/
theorem texts_of_directories_below_odd_base :
    let t : Table := .windows ⟨[slash, 0xFF]⟩ (.ofString "/opt/game")
    ¬ t.LooksUp .cache ∧ ¬ t.LooksUp .appResources ∧ ¬ (cacheUnder (localUnder ⟨[slash, 0xFF]⟩)).HasText ∧
      (Path.ofString "/opt/game").HasText := by
  intro t
  have hcache : ¬ t.LooksUp .cache := not_false
  have hresources : ¬ t.LooksUp .appResources := not_false
  obtain ⟨-, hcomponents, hdirs⟩ := texts_follow_the_structure_of_paths (m := Id) (fun _ => false) t
  have hbase : ¬ Path.HasText ⟨[slash, 0xFF]⟩ := by
    rw [hcomponents]
    intro hutf8
    have hname := hutf8 (.name [0xFF]) (by decide)
    rw [Text.Utf8.isUtf8_iff_segments] at hname
    exact hname (by decide +kernel)
  refine ⟨hcache, hresources, ?_, ?_⟩
  · obtain ⟨-, rfl, htext⟩ := hdirs .cache hcache
    obtain ⟨-, hroot⟩ := htext _ rfl
    exact fun hcachetext => hbase (hroot.1 hcachetext)
  · obtain ⟨-, rfl, htext⟩ := hdirs .appResources hresources
    obtain ⟨-, hroot⟩ := htext _ rfl
    exact hroot.2 (Path.hasText_ofString "/opt/game")

end PortableLayout
