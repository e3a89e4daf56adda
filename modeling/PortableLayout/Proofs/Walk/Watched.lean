import PortableLayout.Proofs.Table.Looks
import PortableLayout.Report

/-!
# The calls that are made

A walk keeps a record of its own calls, and what resolves a role or builds a report hands these records on. Whether
they are the whole truth can be told by a file system that is watched: it takes down each call when it is made, whoever
makes it. What is taken down while a dialogue runs is its own record (`run_record_watched`), and so it is for a role
that is resolved and for a report (`run_resolve_watched`, `run_build_watched`). A call that no record tells of would
be taken down all the same.
-/

set_option autoImplicit false

namespace PortableLayout

variable {m : Type → Type} [Monad m]

/-- The file system with a record of the calls that are made of it, in order. -/
def FileSystem.watched (fs : FileSystem m) : FileSystem (StateT (List Exchange) m) where
  probe p := do
    let answer ← fs.probe p
    modify (· ++ [.probed p answer])
    return answer
  createDir p := do
    let answer ← fs.createDir p
    modify (· ++ [.created p answer])
    return answer

variable [LawfulMonad m] (look : Path → m Bool) (fs : FileSystem m) (t : Table) (calls : List Exchange)

/-- A probe is taken down with its answer. -/
theorem run_probe_watched (p : Path) :
    (fs.watched.probe p).run calls = (fun answer => (answer, calls ++ [.probed p answer])) <$> fs.probe p := by
  simp [FileSystem.watched]

/-- A creation is taken down with its answer. -/
theorem run_createDir_watched (p : Path) :
    (fs.watched.createDir p).run calls =
      (fun answer => (answer, calls ++ [.created p answer])) <$> fs.createDir p := by
  simp [FileSystem.watched]

/-- What is taken down of a dialogue is its own record. -/
theorem run_record_watched {α : Type} (d : Dialogue α) :
    (d.record fs.watched).run calls = (fun r => (r, calls ++ r.exchanges)) <$> d.record fs := by
  induction d generalizing calls with
  | done a => simp [Dialogue.record]
  | probe p next ih =>
    rw [Dialogue.record, Dialogue.record, StateT.run_bind, run_probe_watched, bind_map_left, map_bind]
    refine bind_congr fun answer => ?_
    simp [ih]
  | createDir p next ih =>
    rw [Dialogue.record, Dialogue.record, StateT.run_bind, run_createDir_watched, bind_map_left, map_bind]
    refine bind_congr fun answer => ?_
    simp [ih]

/-! ## Lookups in a table -/

/-- To look, noting it, is no call. -/
theorem run_noting_lift (p : Path) (looks : List Look) :
    ((noting (fun q => StateT.lift (look q)) p).run looks).run calls =
      (·, calls) <$> (noting look p).run looks := by
  simp [noting]

/-- To look for the first path that holds something is no call. -/
theorem run_firstHeld_lift (lastResort : Path) (ps : List Path) (looks : List Look) :
    ((firstHeld (noting fun q => StateT.lift (look q)) lastResort ps).run looks).run calls =
      (·, calls) <$> (firstHeld (noting look) lastResort ps).run looks := by
  induction ps generalizing looks with
  | nil => simp [firstHeld]
  | cons p ps ih =>
    rw [firstHeld, firstHeld, StateT.run_bind, StateT.run_bind, StateT.run_bind, run_noting_lift, map_bind,
      bind_map_left]
    refine bind_congr fun seen => ?_
    obtain ⟨found, looks'⟩ := seen
    cases found with
    | true => simp
    | false => exact ih looks'

/-- No lookup in a table is a call. -/
theorem run_dirFor_lift (role : Role) (looks : List Look) :
    ((t.dirFor (noting fun q => StateT.lift (look q)) role).run looks).run calls =
      (·, calls) <$> (t.dirFor (noting look) role).run looks := by
  obtain ⟨dir?, hfixed⟩ | ⟨u, rfl, rfl⟩ := t.dirFor_cases role
  · simp [hfixed]
  · rw [UnixTable.dirFor_appResources, UnixTable.dirFor_appResources, StateT.run_bind, StateT.run_bind,
      StateT.run_bind, run_firstHeld_lift, map_bind, bind_map_left]
    exact bind_congr fun found => by simp

/-! ## Roles and reports -/

/-- The calls that resolving a role makes are those that its attempt tells of. -/
theorem run_resolve_watched (role : Role) :
    (resolve (fun q => StateT.lift (look q)) fs.watched t role).run calls =
      (fun a => (a, calls ++ a.exchanges)) <$> resolve look fs t role := by
  rw [resolve, resolve, StateT.run_bind, run_dirFor_lift, bind_map_left, map_bind]
  refine bind_congr fun found => ?_
  obtain ⟨found, looks⟩ := found
  cases found with
  | none => simp
  | some path =>
    -- A directory that is handed out as it is found leaves the record as it was; a walk adds its own.
    cases hrole : role.isEnsured with
    | false => simp
    | true => simp [run_record_watched]

/-- The calls that the attempts at several roles make are those that they tell of, in order. -/
theorem run_attempts_watched (roles : List Role) :
    (Report.attempts (fun q => StateT.lift (look q)) fs.watched t roles).run calls =
      (fun tries => (tries, calls ++ tries.flatMap (·.2.exchanges))) <$> Report.attempts look fs t roles := by
  induction roles generalizing calls with
  | nil => simp [Report.attempts]
  | cons role roles ih =>
    rw [Report.attempts, Report.attempts, StateT.run_bind, run_resolve_watched, bind_map_left, map_bind]
    refine bind_congr fun a => ?_
    simp [ih]

/-- The calls that building a report makes are those that its attempts tell of. -/
theorem run_build_watched (roles : List Role) (exeDir baseDir : Path) :
    (Report.build (fun q => StateT.lift (look q)) fs.watched t roles exeDir baseDir).run calls =
      (fun tries => (Report.ofAttempts exeDir baseDir tries, calls ++ tries.flatMap (·.2.exchanges))) <$>
        Report.attempts look fs t roles := by
  rw [Report.build, StateT.run_bind, run_attempts_watched, bind_map_left, map_eq_pure_bind]
  exact bind_congr fun tries => by simp

end PortableLayout
