import PortableLayout.Proofs.Memory.Reports
import PortableLayout.Proofs.Path.Walked
import PortableLayout.Proofs.Table.Redirection

/-!
# Shell folders and roles

A shell folder identifier is redirected by its low eight bits, its value modulo 256 whatever its sign
(`shellFolder_eq`). Roaming data and documents are where their roles are. Every other folder is one level above the
cache (`components_cacheUnder`), so that a walk to the cache visits all that a walk to the folder does.

A store in which no call fails has every prefix of a directory once the role has been resolved, by a request or by a
report, whatever is done before and afterwards (`Action.mem_run_of_resolves`). So it has every prefix of every shell
folder, though no walk to a shell folder was made.
-/

set_option autoImplicit false

namespace PortableLayout

/-! ## Identifiers -/

/-- The folder part of an identifier is its value modulo 256. -/
theorem Csidl.toInt_folder (id : Int32) : (folder id).toInt = id.toInt % 256 := by
  have hmask : (folder id).toBitVec.toNat = id.toBitVec.toNat % 2 ^ 8 := by
    rw [← Nat.and_two_pow_sub_one_eq_mod]
    rfl
  rw [← Int32.toInt_toBitVec, ← Int32.toInt_toBitVec, BitVec.toInt_eq_toNat_cond, BitVec.toInt_eq_toNat_cond, hmask]
  omega

/-- The folder of an identifier is what its low eight bits say. -/
theorem Csidl.folder_eq_iff {id n : Int32} : folder id = n ↔ id.toInt % 256 = n.toInt := by
  rw [← Int32.toInt_inj, toInt_folder]

section

variable {base : Path} {id : Int32}

/-- Which directory a shell folder is depends on the low eight bits of its identifier alone. -/
theorem shellFolder_eq (base : Path) (id : Int32) :
    shellFolder base id =
      if id.toInt % 256 = 0x1A then roamingUnder base
      else if id.toInt % 256 = 0x05 then documentsUnder base
      else localUnder base := by
  have happData : Csidl.appData.toInt = 0x1A := rfl
  have hpersonal : Csidl.personal.toInt = 0x05 := rfl
  simp only [shellFolder, Csidl.folder_eq_iff, happData, hpersonal]

/-- The folder for application data is the roaming directory. -/
theorem shellFolder_of_appData (h : id.toInt % 256 = 0x1A) : shellFolder base id = roamingUnder base := by
  rw [shellFolder_eq, if_pos h]

/-- The folder for personal files is the documents directory. -/
theorem shellFolder_of_personal (h : id.toInt % 256 = 0x05) : shellFolder base id = documentsUnder base := by
  rw [shellFolder_eq, if_neg (by omega), if_pos h]

/-- Every other folder is the local one. -/
theorem shellFolder_of_other (happData : id.toInt % 256 ≠ 0x1A) (hpersonal : id.toInt % 256 ≠ 0x05) :
    shellFolder base id = localUnder base := by
  rw [shellFolder_eq, if_neg happData, if_neg hpersonal]

/-- The cache is one component below its root. -/
theorem components_cacheUnder (root : Path) : (cacheUnder root).components = root.components ++ [.ofText Names.cache] :=
  root.components_below (by decide)

end

/-! ## Stores without failures -/

namespace Memory

/-- No call fails. -/
structure Faultless (s : Memory) : Prop where
  probe : ∀ q, s.probeError q = none
  create : ∀ q, s.createError q = none

variable {s t : Memory} {ps : List Path} {q : Path}

/-- A store in which no call fails stays one when it grows. -/
theorem Faultless.grows (h : s.Faultless) (hgrows : s.Grows t) : t.Faultless where
  probe := by
    rw [hgrows.probeError]
    exact h.probe
  create := by
    rw [hgrows.createError]
    exact h.create

/-- Where no call fails nothing blocks a walk. -/
theorem Faultless.not_blocked (h : s.Faultless) (q : Path) : ¬ s.Blocked q := by
  rintro ⟨failure, hblocked⟩
  cases hblocked with
  | probe answer =>
    rw [h.probe] at answer
    cases answer
  | create needed answer =>
    rw [h.create] at answer
    cases answer

/-- Without failures a walk leaves no prefix out. -/
theorem Faultless.mem_or_mem_toMake (h : s.Faultless) (hq : q ∈ ps) : q ∈ s.existing ∨ q ∈ s.toMake ps := by
  have hverdict : s.verdict ps = .ok () := verdict_of_free fun q _ => obstacle?_eq_none_iff.2 (h.not_blocked q)
  have hafter := (grows_addAll_toMake s ps).settled hverdict (fun _ hmake => mem_existing_addAll.2 (.inr hmake)) q hq
  rw [probeError_addAll, createError_addAll, h.probe, h.create] at hafter
  obtain hthere | hprobe | hcreate := hafter
  · exact mem_existing_addAll.1 hthere
  · cases hprobe
  · cases hcreate

end Memory

open Memory

/-! ## Stores after a role has been resolved -/

/-- For a role that is made on demand the answers about the disk do not matter. -/
theorem Table.dirWhen_of_isEnsured (look : Path → Bool) (t : Table) {role : Role} (h : role.isEnsured = true) :
    t.dirWhen look role = t.redirected? role :=
  t.dirFor_of_isEnsured (m := Id) (fun q => pure (look q)) h

namespace Action

/-- The action resolves the role through the table. -/
def Resolves (t : Table) (role : Role) : Action → Prop
  | request _ r => r = .resolve t role
  | report _ u roles _ _ => u = t ∧ role ∈ roles

variable {action : Action} {actions : List Action} {t : Table} {role : Role} {s : Memory} {dir q : Path}

/-- After a role was resolved, all prefixes of its directory are there. -/
theorem mem_after_of_resolves (hs : s.Faultless) (h : action.Resolves t role) (hrole : role.isEnsured = true)
    (hdir : t.redirected? role = some dir) (hq : q ∈ dir.walked) : q ∈ (action.after s).existing := by
  have hwalk (look : Path → Bool) : q ∈ t.rolePrefixes look role :=
    Table.mem_rolePrefixes.2 ⟨hrole, dir, (t.dirWhen_of_isEnsured look hrole).trans hdir, hq⟩
  cases action with
  | request look r =>
    obtain rfl : r = .resolve t role := h
    rw [after, (Request.walksOver_serve look _ s).2]
    exact mem_existing_addAll.2 (hs.mem_or_mem_toMake (hwalk look))
  | report look u roles exeDir baseDir =>
    obtain ⟨rfl, hmem⟩ := h
    obtain hthere | hmake := hs.mem_or_mem_toMake (hwalk look)
    · exact (grows_after (report look u roles exeDir baseDir) s).kept q hthere
    · exact ((build_of_store look u roles exeDir baseDir s).2 q).2 (.inr ⟨role, hmem, hmake⟩)

/-- Actions of two lists are those of the one and then those of the other. -/
theorem run_append (before after : List Action) (s : Memory) : run (before ++ after) s = run after (run before s) :=
  List.foldl_append

/-- What was made for a role is there at the end, whatever is done before and afterwards. -/
theorem mem_run_of_resolves (hs : s.Faultless) (hmem : action ∈ actions) (h : action.Resolves t role)
    (hrole : role.isEnsured = true) (hdir : t.redirected? role = some dir) (hq : q ∈ dir.walked) :
    q ∈ (run actions s).existing := by
  obtain ⟨before, later, rfl⟩ := List.append_of_mem hmem
  have hbefore : (run before s).Faultless := hs.grows (grows_run before s)
  rw [run_append]
  exact (grows_run later _).kept q (mem_after_of_resolves hbefore h hrole hdir hq)

end Action

/-- The low eight bits alone say where a shell folder is: with the roaming data, with the personal data, or one level
above the cache. In a store in which no call fails, all prefixes of all shell folders are there once the three roles
have been resolved, in whatever order and whatever else is done. -/
theorem shell_folders_agree_with_roles (base exeDir : Path) :
    let t : Table := .windows base exeDir
    (∀ a b : Int32, a.toInt % 256 = b.toInt % 256 → shellFolder base a = shellFolder base b) ∧
    (∀ id : Int32, id.toInt % 256 = 0x1A → t.roaming? = some (shellFolder base id)) ∧
    (∀ id : Int32, id.toInt % 256 = 0x05 → t.personal = shellFolder base id) ∧
    (∀ id : Int32, id.toInt % 256 ≠ 0x1A → id.toInt % 256 ≠ 0x05 →
      ∃ cache, t.cache? = some cache ∧ ∃ last, cache.components = (shellFolder base id).components ++ [last]) ∧
    ∀ s : Memory, s.Faultless → ∀ actions : List Action,
      (∀ role ∈ [Role.roamingData, .personalData, .cache], ∃ action ∈ actions, action.Resolves t role) →
      ∀ id : Int32, ∀ q ∈ (shellFolder base id).walked, q ∈ (Action.run actions s).existing := by
  intro t
  refine ⟨?_, ?_, ?_, ?_, ?_⟩
  · intro a b h
    rw [shellFolder_eq, shellFolder_eq, h]
  · intro id h
    rw [shellFolder_of_appData h]
    rfl
  · intro id h
    rw [shellFolder_of_personal h]
    rfl
  · intro id happData hpersonal
    rw [shellFolder_of_other happData hpersonal]
    exact ⟨_, rfl, _, components_cacheUnder _⟩
  · intro s hs actions hresolved id q hq
    by_cases happData : id.toInt % 256 = 0x1A
    · obtain ⟨action, hmem, h⟩ := hresolved .roamingData (by decide)
      rw [shellFolder_of_appData happData] at hq
      exact Action.mem_run_of_resolves hs hmem h rfl rfl hq
    by_cases hpersonal : id.toInt % 256 = 0x05
    · obtain ⟨action, hmem, h⟩ := hresolved .personalData (by decide)
      rw [shellFolder_of_personal hpersonal] at hq
      exact Action.mem_run_of_resolves hs hmem h rfl rfl hq
    · obtain ⟨action, hmem, h⟩ := hresolved .cache (by decide)
      rw [shellFolder_of_other happData hpersonal] at hq
      -- Of the folder itself no walk was made, but the walk to the cache goes over it.
      have habove : (localUnder base).components <+: (cacheUnder (localUnder base)).components :=
        ⟨_, (components_cacheUnder _).symm⟩
      have hcache : q ∈ (cacheUnder (localUnder base)).walked := (Path.walked_isPrefix habove).subset hq
      exact Action.mem_run_of_resolves hs hmem h rfl rfl hcache

/-- With roaming and personal data reported on after the cache was asked for, all bits set is a folder that is there,
though no role is at it and the base is spelled oddly. -/
theorem folder_of_all_bits_is_made_with_the_cache :
    let base := Path.ofString "b//."
    let t : Table := .windows base .empty
    let s := Memory.ofList []
    let actions : List Action :=
      [.request (fun _ => false) (.resolve t .cache),
        .report (fun _ => true) t [.appResources, .personalData, .roamingData] .empty base]
    s.Faultless ∧ (∀ role ∈ [Role.roamingData, .personalData, .cache], ∃ action ∈ actions, action.Resolves t role) ∧
      (shellFolder base (-1)).walked =
        [.ofString "b", .ofString "b/AppData", .ofString "b/AppData/Local"] ∧
      ∀ q ∈ (shellFolder base (-1)).walked, q ∈ (Action.run actions s).existing := by
  intro base t s actions
  have hs : s.Faultless := ⟨fun _ => rfl, fun _ => rfl⟩
  have hresolved : ∀ role ∈ [Role.roamingData, .personalData, .cache],
      ∃ action ∈ actions, action.Resolves t role := by
    simp [actions, Action.Resolves]
  obtain ⟨-, -, -, -, hmade⟩ := shell_folders_agree_with_roles base .empty
  exact ⟨hs, hresolved, by decide, hmade s hs actions hresolved (-1)⟩

/-- The flag bits and the sign say nothing: `-230` and `0x801A` are both `0x1A` in their low eight bits. -/
example : shellFolder (.ofString "b//.") (-230) = shellFolder (.ofString "b//.") 0x801A ∧
    shellFolder (.ofString "b//.") (-230) = .ofString "b//./AppData/Roaming" := by
  decide

end PortableLayout
