import PortableLayout.Proofs.Memory.Requests

/-!
# Ensuring the same path again

Whatever is done to a store in memory between two walks to the same path, the store only grows by it
(`Action.grows_after`, `grows_run`). So the second walk meets the obstacle that the first one met, or none,
and what the first walk made is there: nothing is left to make (`toMake_of_made`). The only prefixes that
are made over and over are those whose probe says "not found" although they are there.
-/

set_option autoImplicit false

namespace PortableLayout

open Memory

/-- What can be done to a store between two requests. `look` is how tables find the disk at that time. -/
inductive Action where
  | request (look : Path → Bool) (r : Request)
  | report (look : Path → Bool) (t : Table) (roles : List Role) (exeDir baseDir : Path)

namespace Action

/-- The store that an action leaves. -/
def after : Action → Memory → Memory
  | request look r, s => (r.serve look s).2
  | report look t roles exeDir baseDir, s =>
    (Report.build (fun q => pure (look q)) fileSystem t roles exeDir baseDir s).2

/-- The store that a run of actions leaves. -/
def run (actions : List Action) (s : Memory) : Memory :=
  actions.foldl (fun u action => action.after u) s

end Action

namespace Memory

/-- Resolving roles one after the other lets a store grow. -/
theorem grows_attempts (look : Path → Bool) (t : Table) (roles : List Role) (s : Memory) :
    s.Grows (Report.attempts (fun q => pure (look q)) fileSystem t roles s).2 := by
  induction roles generalizing s with
  | nil => exact .refl s
  | cons role roles ih =>
    have hfirst := (walksOver_resolve look t role s).2
    have hgrows : s.Grows (resolve (fun q => pure (look q)) fileSystem t role s).2 := by
      rw [hfirst]
      exact grows_addAll_toMake s _
    have hrest := ih (resolve (fun q => pure (look q)) fileSystem t role s).2
    exact hgrows.trans hrest

/-- After a walk over `ps` and any growth there is nothing left to make on `ps`, unless a probe says that
a prefix is missing although it is there. -/
theorem toMake_of_made {s t : Memory} {ps : List Path} (h : (s.addAll (s.toMake ps)).Grows t)
    (hprobe : ∀ q ∈ ps, (s.probeError q).map IoError.kind ≠ some .notFound) : t.toMake ps = [] := by
  have hgrows : s.Grows t := (grows_addAll_toMake s ps).trans h
  rw [toMake, hgrows.passed, List.filter_eq_nil_iff]
  intro q hq hmade
  have hmade : t.Made q := by simpa using hmade
  have hmem : q ∈ ps := (List.takeWhile_sublist _).subset hq
  have hneeded : s.Needed q := hgrows.within.needed_of_needed hmade.1
  have hcreate : s.createError q = none := by rw [← hgrows.createError]; exact hmade.2
  have hthere : q ∈ t.existing := by
    apply h.kept
    apply mem_existing_addAll.2
    exact .inr (List.mem_filter.2 ⟨hq, by simpa using ⟨hneeded, hcreate⟩⟩)
  obtain hfound | ⟨-, hmissing⟩ := hmade.1
  · rw [hgrows.probeError] at hfound
    exact hprobe q hmem hfound
  · exact hmissing hthere

end Memory

namespace Action

/-- An action lets the store grow. -/
theorem grows_after (action : Action) (s : Memory) : s.Grows (action.after s) := by
  cases action with
  | request look r =>
    have hstore := (Request.walksOver_serve look r s).2
    rw [after, hstore]
    exact grows_addAll_toMake s _
  | report look t roles exeDir baseDir => exact grows_attempts look t roles s

/-- A run of actions lets the store grow. -/
theorem grows_run (actions : List Action) (s : Memory) : s.Grows (run actions s) := by
  induction actions generalizing s with
  | nil => exact .refl s
  | cons action actions ih => exact (action.grows_after s).trans (ih (action.after s))

end Action

/-- **A second walk makes nothing.** Ensure a path, do anything else, and ensure the path again: if the
first walk succeeded the second one succeeds without making a directory, if it failed the second one fails
in the same way, and in both cases the second one leaves the store as it finds it. -/
theorem second_walk_makes_nothing (s : Memory) (p : Path) (actions : List Action)
    (hprobe : ∀ q ∈ p.walked, (s.probeError q).map IoError.kind ≠ some .notFound) :
    let first := (ensure p).run fileSystem s
    let between := Action.run actions first.2
    let second := (ensure p).run fileSystem between
    (∀ n, first.1 = .ok n → second.1 = .ok 0) ∧
      (∀ failure, first.1 = .error failure → second.1 = .error failure) ∧ second.2 = between := by
  intro first between second
  have hfirst : first = ((s.verdict p.walked).map fun _ => (s.toMake p.walked).length,
      s.addAll (s.toMake p.walked)) := run_ensure s p
  have hstore : first.2 = s.addAll (s.toMake p.walked) := congrArg Prod.snd hfirst
  -- All that can happen in between is that the store grows, and then walks still end as on the first store.
  have hlater : (s.addAll (s.toMake p.walked)).Grows between := by
    rw [← hstore]
    exact Action.grows_run actions first.2
  have hgrows : s.Grows between := (grows_addAll_toMake s p.walked).trans hlater
  have hsecond : second = ((s.verdict p.walked).map fun _ => 0, between) := by
    have hrun : second = _ := run_ensure between p
    rw [hgrows.verdict, toMake_of_made hlater hprobe] at hrun
    exact hrun
  rw [hfirst, hsecond]
  cases s.verdict p.walked with
  | error failure =>
    refine ⟨?_, ?_, rfl⟩
    · intro n h
      cases h
    · intro failure' h
      cases h
      rfl
  | ok u =>
    refine ⟨fun n _ => rfl, ?_, rfl⟩
    intro failure h
    cases h

/-- A walk past a directory that may not be looked at and one that somebody else makes, up to one for which
there is no space, fails for want of space again after a report and another walk below the same directory. -/
theorem full_store_stays_full :
    let path (text : String) : Path := .ofString text
    let s := (((ofList [path "/"]).setProbeError (path "/a") (some (.system .accessDenied))).setCreateError
      (path "/a/b") (some (.system .entryExists))).setCreateError
      (path "/a/b/c/d") (some (.system .noSpace))
    let p := path "/a/b/c/d"
    let actions : List Action :=
      [.report (fun _ => false) (.windows (path "/a/b") (path "/a")) Role.all (path "/a") (path "/a/b"),
        .request (fun _ => true) (.ensure (path "/a/b/c/x"))]
    let first := (ensure p).run fileSystem s
    let between := Action.run actions first.2
    let second := (ensure p).run fileSystem between
    (∀ q ∈ p.walked, (s.probeError q).map IoError.kind ≠ some .notFound) ∧
      first.1 = .error (.createDir p (.system .noSpace)) ∧
      second.1 = .error (.createDir p (.system .noSpace)) ∧ second.2 = between := by
  intro path s p actions first between second
  have hprobe : ∀ q ∈ p.walked, (s.probeError q).map IoError.kind ≠ some .notFound := by
    decide +kernel
  have hfirst : first.1 = .error (.createDir p (.system .noSpace)) := by decide +kernel
  obtain ⟨-, hfailed, hstore⟩ := second_walk_makes_nothing s p actions hprobe
  exact ⟨hprobe, hfirst, hfailed _ hfirst, hstore⟩

end PortableLayout
