import PortableLayout.Proofs.Memory.Repetition
import PortableLayout.Proofs.Walk.Watched

/-!
# What a report creates and what it promises

A report asks for its roles one after the other, and each of them may change the store for the next.
Its entries can still be read off the store as it was before the report (`build_of_store`), so that an
entry has an error exactly when its role has no directory or the walk to it fails at the role's turn. What
a report puts into the store are prefixes of walks to ensured roles; and a walk that gets to its end has
nothing on its way but what is there, what it makes, and what it may take for granted. As nothing is ever
taken away, that still holds when the report is complete (`Grows.settled`).
-/

set_option autoImplicit false

namespace PortableLayout

open Memory

/-! ## Roles without a walk -/

section

variable {look : Path → Bool} {t : Table} {role : Role} {q : Path}

/-- The prefixes of a role are those of its directory, if the role is one to be made and has one. -/
theorem Table.mem_rolePrefixes :
    q ∈ t.rolePrefixes look role ↔
      role.isEnsured = true ∧ ∃ path, t.dirWhen look role = some path ∧ q ∈ path.walked := by
  unfold rolePrefixes
  cases t.dirWhen look role with
  | none => simp
  | some path => cases role.isEnsured <;> simp

/-- A role fails if it has no directory or the walk to it fails. -/
theorem Table.resolution_eq_error_iff {verdict : Except PathError Unit} :
    (∃ failure, t.resolution look role verdict = .error failure) ↔
      t.dirWhen look role = none ∨ ∃ failure, verdict = .error failure := by
  unfold resolution
  cases t.dirWhen look role with
  | none => simp
  | some path =>
    cases verdict with
    | ok u => simp [Except.map]
    | error failure => simp [Except.map]

/-- A role that is resolved has a directory to which the walk succeeded. -/
theorem Table.resolution_eq_ok {verdict : Except PathError Unit} {r : Resolved}
    (h : t.resolution look role verdict = .ok r) :
    verdict = .ok () ∧ ∃ path, t.dirWhen look role = some path ∧ r = ⟨role, path, role.isEnsured⟩ := by
  unfold resolution at h
  cases hdir : t.dirWhen look role with
  | none =>
    rw [hdir] at h
    cases h
  | some path =>
    rw [hdir] at h
    cases verdict with
    | error failure => cases h
    | ok u =>
      cases h
      exact ⟨rfl, path, rfl, rfl⟩

/-- A role that is only looked up, or that has no directory, is resolved without a walk. -/
theorem exchanges_resolve (h : role = .appResources ∨ t.dirWhen look role = none) (s : Memory) :
    (resolve (fun q => pure (look q)) fileSystem t role s).1.exchanges = [] ∧
      (resolve (fun q => pure (look q)) fileSystem t role s).2 = s := by
  have hdir := congrFun (Table.dirFor_pure (m := StateM Memory) look t role) s
  cases hwhen : t.dirWhen look role with
  | none =>
    rw [hwhen] at hdir
    obtain ⟨told, hresolve⟩ := resolve_of_no_dir fileSystem hdir
    rw [hresolve]
    exact ⟨rfl, rfl⟩
  | some path =>
    obtain rfl | hnone := h
    · rw [hwhen] at hdir
      obtain ⟨told, hresolve⟩ := resolve_of_looked_up fileSystem hdir rfl
      rw [hresolve]
      exact ⟨rfl, rfl⟩
    · rw [hwhen] at hnone
      cases hnone

/-- Resolving a role that is only looked up, or has no directory, makes no call: a watched store takes none down.
-/
theorem resolve_makes_no_call (h : role = .appResources ∨ t.dirWhen look role = none) (calls : List Exchange)
    (s : Memory) :
    ∃ attempt, resolve (fun q => pure (look q)) fileSystem.watched t role calls s = ((attempt, calls), s) := by
  obtain ⟨hexchanges, hstore⟩ := exchanges_resolve h s
  have hcalls : calls ++ (resolve (fun q => pure (look q)) fileSystem t role s).1.exchanges = calls := by
    rw [hexchanges, List.append_nil]
  have hwatched := congrFun (run_resolve_watched (fun q => pure (look q)) fileSystem t calls role) s
  exact ⟨_, hwatched.trans (Prod.ext (Prod.ext rfl hcalls) hstore)⟩

/-- Every attempt of a report is that of one of its roles, in some store. -/
theorem Report.resolved_of_mem_attempts {roles : List Role} {s : Memory} {attempt : Role × Attempt}
    (h : attempt ∈ (attempts (fun q => pure (look q)) fileSystem t roles s).1) :
    ∃ u, attempt.2 = (resolve (fun q => pure (look q)) fileSystem t attempt.1 u).1 := by
  induction roles generalizing s with
  | nil => cases h
  | cons role roles ih =>
    obtain rfl | hlater := List.mem_cons.1 h
    · exact ⟨s, rfl⟩
    · exact ih hlater

end

namespace Memory

/-- Once what a walk makes has been made, every prefix of a walk that gets to its end is settled. -/
theorem Grows.settled {s t : Memory} {ps : List Path} (h : s.Grows t) (hverdict : s.verdict ps = .ok ())
    (hmade : ∀ q ∈ s.toMake ps, q ∈ t.existing) :
    ∀ q ∈ ps, q ∈ t.existing ∨ (t.probeError q).map IoError.kind = some .permissionDenied ∨
      (t.createError q).map IoError.kind = some .alreadyExists := by
  intro q hq
  have hfree := obstacle?_of_verdict_ok hverdict
  by_cases hnew : s.Made q
  · have hmake : q ∈ s.toMake ps := by
      rw [toMake_of_free hfree]
      exact List.mem_filter.2 ⟨hq, by simpa using hnew⟩
    exact .inl (hmade q hmake)
  · rw [h.probeError, h.createError]
    obtain ⟨-, hthere⟩ | ⟨e, he, hkind⟩ | ⟨-, e, he, hkind⟩ := passed_cases (hfree q hq) hnew
    · exact .inl (h.kept q hthere)
    · rw [he]
      exact .inr (.inl (congrArg some hkind))
    · rw [he]
      exact .inr (.inr (congrArg some hkind))

/-- A walk fails exactly when its verdict says so, also after the store has grown. -/
theorem Grows.run_ensure_eq_error_iff {s u : Memory} (h : s.Grows u) (p : Path) :
    (∃ failure, ((ensure p).run fileSystem u).1 = .error failure) ↔
      ∃ failure, s.verdict p.walked = .error failure := by
  rw [run_ensure, h.verdict]
  cases s.verdict p.walked with
  | ok _ => simp [Except.map]
  | error failure => simp [Except.map]

/-- An ensured role has no verdict but that of the walk to its directory, and the others have none. -/
theorem verdict_rolePrefixes_eq_error_iff {look : Path → Bool} {t : Table} {role : Role} {s : Memory} :
    (∃ failure, s.verdict (t.rolePrefixes look role) = .error failure) ↔
      role.isEnsured = true ∧ ∃ path, t.dirWhen look role = some path ∧
        ∃ failure, s.verdict path.walked = .error failure := by
  have hnil : s.verdict [] = .ok () := rfl
  unfold Table.rolePrefixes
  cases t.dirWhen look role with
  | none => simp [hnil]
  | some path => cases role.isEnsured <;> simp [hnil]

/-- Read off an earlier store, an entry has an error exactly when its role has no directory or the walk to it
fails now. -/
theorem Grows.isSome_error_iff {s u : Memory} (h : s.Grows u) (look : Path → Bool) (t : Table) (role : Role) :
    (Entry.ofResult role (t.resolution look role
      (s.verdict (t.rolePrefixes look role)))).error.isSome = true ↔
      t.dirWhen look role = none ∨ role.isEnsured = true ∧ ∃ path, t.dirWhen look role = some path ∧
        ∃ failure, ((ensure path).run fileSystem u).1 = .error failure := by
  rw [Entry.isSome_error_ofResult, Table.resolution_eq_error_iff, verdict_rolePrefixes_eq_error_iff]
  simp only [h.run_ensure_eq_error_iff]

end Memory

/-- The store when a report on `roles` comes to its role number `i`. -/
def Report.storeAt (look : Path → Bool) (t : Table) (roles : List Role) (s : Memory) (i : Nat) : Memory :=
  (attempts (fun q => pure (look q)) fileSystem t (roles.take i) s).2

/-- **What a report may create and what it may promise.** There is one entry for each role in the order
asked for, with either a path or an error. There are errors exactly when a role has no directory or the walk
to it fails when its turn comes. The calls that a watched store takes down are those that the attempts tell of,
and there is none for a role that is only looked up or has no directory. Nothing is added to the store but
prefixes of walks to ensured roles. And what an entry calls ensured is, when the report is complete, in the
store prefix by prefix, but for prefixes that may not be looked at and those that somebody else is said to have
made. -/
theorem report_creates_and_promises (look : Path → Bool) (t : Table) (roles : List Role)
    (exeDir baseDir : Path) (s : Memory) :
    let tries := Report.attempts (fun q => pure (look q)) fileSystem t roles s
    let r := Report.build (fun q => pure (look q)) fileSystem t roles exeDir baseDir s
    r = (Report.ofAttempts exeDir baseDir tries.1, tries.2) ∧
    r.1.entries.map Entry.role = roles ∧
    (∀ e ∈ r.1.entries, e.path.isSome = true ↔ e.error = none) ∧
    (r.1.hasErrors = true ↔ ∃ (i : Nat) (role : Role), roles[i]? = some role ∧
      (t.dirWhen look role = none ∨ role.isEnsured = true ∧ ∃ path, t.dirWhen look role = some path ∧
        ∃ failure, ((ensure path).run fileSystem (Report.storeAt look t roles s i)).1 =
          .error failure)) ∧
    Report.build (fun q => pure (look q)) fileSystem.watched t roles exeDir baseDir [] s =
      ((r.1, tries.1.flatMap (·.2.exchanges)), r.2) ∧
    (∀ attempt ∈ tries.1, attempt.1 = .appResources ∨ t.dirWhen look attempt.1 = none →
      attempt.2.exchanges = []) ∧
    (∀ role, role = .appResources ∨ t.dirWhen look role = none → ∀ calls u, ∃ attempt,
      resolve (fun q => pure (look q)) fileSystem.watched t role calls u = ((attempt, calls), u)) ∧
    (∀ q ∈ r.2.existing, q ∈ s.existing ∨ ∃ role ∈ roles, role.isEnsured = true ∧
      ∃ path, t.dirWhen look role = some path ∧ q ∈ path.walked) ∧
    (∀ e ∈ r.1.entries, e.ensured = true → ∃ path, t.dirWhen look e.role = some path ∧
      e.path = some path.reported ∧ ∀ q ∈ path.walked, q ∈ r.2.existing ∨
        (r.2.probeError q).map IoError.kind = some .permissionDenied ∨
        (r.2.createError q).map IoError.kind = some .alreadyExists) := by
  intro tries r
  obtain ⟨hentries, hexisting⟩ := build_of_store look t roles exeDir baseDir s
  have hgrows : s.Grows r.2 := grows_attempts look t roles s
  refine ⟨rfl, ?_, ?_, ?_, ?_, ?_, ?_, ?_, ?_⟩
  · exact (Report.roles_ofAttempts exeDir baseDir tries.1).trans (Report.map_fst_attempts _ _ t roles s)
  · intro e he
    rw [hentries] at he
    obtain ⟨role, -, rfl⟩ := List.mem_map.1 he
    exact Entry.isSome_path_ofResult
  -- The entry was read off the first store, but the walk is one on the store of the role's turn.
  · have hfails := fun i => (grows_attempts look t (roles.take i) s).isSome_error_iff look t
    rw [Report.hasErrors, List.any_eq_true, hentries]
    constructor
    · rintro ⟨e, he, herror⟩
      obtain ⟨role, hrole, rfl⟩ := List.mem_map.1 he
      obtain ⟨i, hi⟩ := List.mem_iff_getElem?.1 hrole
      exact ⟨i, role, hi, (hfails i role).1 herror⟩
    · rintro ⟨i, role, hi, hfail⟩
      exact ⟨_, List.mem_map_of_mem (List.mem_of_getElem? hi), (hfails i role).2 hfail⟩
  · exact congrFun (run_build_watched (fun q => pure (look q)) fileSystem t [] roles exeDir baseDir) s
  · intro attempt hattempt hnone
    obtain ⟨u, hu⟩ := Report.resolved_of_mem_attempts hattempt
    rw [hu]
    exact (exchanges_resolve hnone u).1
  · intro role hnone
    exact resolve_makes_no_call hnone
  · intro q hq
    refine ((hexisting q).1 hq).imp id ?_
    rintro ⟨role, hrole, hmade⟩
    exact ⟨role, hrole, Table.mem_rolePrefixes.1 (mem_of_mem_toMake hmade)⟩
  · intro e he hensured
    rw [hentries] at he
    obtain ⟨role, hrole, rfl⟩ := List.mem_map.1 he
    obtain ⟨resolved, hresult, hdone, hpath⟩ := Entry.ensured_ofResult hensured
    obtain ⟨hverdict, path, hdir, rfl⟩ := Table.resolution_eq_ok hresult
    -- What was made for the role is in the last store; any other prefix was passed for a reason that still holds.
    have hmade : ∀ q ∈ s.toMake (t.rolePrefixes look role), q ∈ r.2.existing :=
      fun q hq => (hexisting q).2 (.inr ⟨role, hrole, hq⟩)
    rw [Entry.role_ofResult]
    refine ⟨path, hdir, hpath, ?_⟩
    intro q hq
    exact hgrows.settled hverdict hmade q (Table.mem_rolePrefixes.2 ⟨hdone, path, hdir, hq⟩)

end PortableLayout
