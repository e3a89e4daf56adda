import PortableLayout.Proofs.Memory.Repetition
import PortableLayout.Proofs.Path.Join

/-!
# Ensuring a path in stages

A walk to a path below another one begins with the walk to that one, however the two are spelled
(`components_isPrefix_join`, `walked_isPrefix`). If the first part fails, so does the whole, in the same way
(`verdict_append_of_error`, `toMake_append_of_error`). Else what is left to make behind the first part is what
the walk to the end would make there from the start (`toMake_after_first`): a directory that the first part
made is passed, and the other prefixes are different paths.
-/

set_option autoImplicit false

namespace PortableLayout

namespace Memory

section

variable {s : Memory} {ps : List Path} {failure : PathError}

/-- A walk that fails at a shorter list fails in the same way with more prefixes behind it. -/
theorem verdict_append_of_error (h : s.verdict ps = .error failure) (qs : List Path) :
    s.verdict (ps ++ qs) = .error failure := by
  obtain ⟨before, p, after, rfl, hp, hbefore⟩ := exists_obstacle_of_verdict_error h
  rw [List.append_assoc, List.cons_append]
  exact verdict_of_blocked hp hbefore

/-- A walk that fails at a shorter list makes no more with further prefixes behind it. -/
theorem toMake_append_of_error (h : s.verdict ps = .error failure) (qs : List Path) :
    s.toMake (ps ++ qs) = s.toMake ps := by
  obtain ⟨before, p, after, rfl, hp, hbefore⟩ := exists_obstacle_of_verdict_error h
  rw [List.append_assoc, List.cons_append, toMake_of_blocked hp hbefore, toMake_of_blocked hp hbefore]

/-- A walk that gets past a shorter list ends as the other prefixes decide. -/
theorem verdict_append_of_ok (h : s.verdict ps = .ok ()) (qs : List Path) :
    s.verdict (ps ++ qs) = s.verdict qs := by
  have hfree := obstacle?_of_verdict_ok h
  rw [verdict, verdict, List.findSome?_append, List.findSome?_eq_none_iff.2 hfree, Option.none_or]

/-- A walk that gets past a shorter list makes what it made of it and what it makes of the others. -/
theorem toMake_append_of_ok (h : s.verdict ps = .ok ()) (qs : List Path) :
    s.toMake (ps ++ qs) = s.toMake ps ++ s.toMake qs := by
  have hfree := obstacle?_of_verdict_ok h
  have hpass : ∀ q ∈ ps, (s.obstacle? q).isNone = true := fun q hq => by simp [hfree q hq]
  rw [toMake_of_free hfree, toMake, passed, List.takeWhile_append_of_pos hpass, List.filter_append]
  rfl

end

/-- Putting in the paths of two lists is putting in those of the one and then those of the other. -/
theorem addAll_append (s : Memory) (ps qs : List Path) : s.addAll (ps ++ qs) = (s.addAll ps).addAll qs :=
  List.foldl_append

/-- Making some prefixes changes nothing for the others. -/
theorem toMake_addAll {s : Memory} {ms qs : List Path} (hapart : ∀ q ∈ qs, q ∉ ms)
    (hcreate : ∀ m ∈ ms, s.createError m = none) : (s.addAll ms).toMake qs = s.toMake qs := by
  induction ms generalizing s with
  | nil => rfl
  | cons m ms ih =>
    have hm : m ∉ qs := fun hq => hapart m hq List.mem_cons_self
    have hlater : ∀ q ∈ qs, q ∉ ms := fun q hq hmem => hapart q hq (List.mem_cons_of_mem m hmem)
    have hrest : ((s.add m).addAll ms).toMake qs = (s.add m).toMake qs :=
      ih hlater fun m' hm' => hcreate m' (List.mem_cons_of_mem m hm')
    exact hrest.trans (toMake_add hm (hcreate m List.mem_cons_self))

/-- Behind a first part of a walk there is left to make what the whole walk would make behind it. -/
theorem toMake_after_first {s : Memory} {ps qs : List Path} (hnodup : (ps ++ qs).Nodup)
    (hok : s.verdict ps = .ok ()) (hprobe : ∀ q ∈ ps, (s.probeError q).map IoError.kind ≠ some .notFound) :
    (s.addAll (s.toMake ps)).toMake (ps ++ qs) = s.toMake qs := by
  have hgrows : s.Grows (s.addAll (s.toMake ps)) := grows_addAll_toMake s ps
  have hok' : (s.addAll (s.toMake ps)).verdict ps = .ok () := by rw [hgrows.verdict, hok]
  have hfirst : (s.addAll (s.toMake ps)).toMake ps = [] := toMake_of_made (.refl _) hprobe
  have hapart : ∀ q ∈ qs, q ∉ s.toMake ps := fun q hq hmade =>
    (List.nodup_append.1 hnodup).2.2 q (mem_of_mem_toMake hmade) q hq rfl
  rw [toMake_append_of_ok hok', hfirst, List.nil_append]
  exact toMake_addAll hapart fun q hq => createError_of_mem_toMake hq

end Memory

open Memory

/-- **Ensuring in stages is ensuring at once.** Let `c` be a path below `p`, both spelled in any way, and let no
probe on the way say "not found" of what may be there. If the walk to `p` fails, the walk to the longer path fails
in the same way and leaves the same store. If it makes `n` directories, it does not matter for the store whether
the walk to the longer path comes behind it or in its place. Both of these fail in the same way, or the second
stage makes `n` directories less. -/
theorem stages_make_what_one_walk_makes (s : Memory) (p c : Path) (hc : c.isAbsolute = false)
    (hprobe : ∀ q ∈ (p.join c).walked, (s.probeError q).map IoError.kind ≠ some .notFound) :
    let first := (ensure p).run fileSystem s
    let second := (ensure (p.join c)).run fileSystem first.2
    let atOnce := (ensure (p.join c)).run fileSystem s
    (∀ failure, first.1 = .error failure → atOnce.1 = .error failure ∧ atOnce.2 = first.2) ∧
      ∀ n, first.1 = .ok n → second.2 = atOnce.2 ∧
        ((∃ failure, second.1 = .error failure ∧ atOnce.1 = .error failure) ∨
          ∃ m, second.1 = .ok m ∧ atOnce.1 = .ok (n + m)) := by
  intro first second atOnce
  obtain ⟨qs, hqs⟩ := Path.walked_isPrefix (Path.components_isPrefix_join p hc)
  have hnodup : (p.walked ++ qs).Nodup := by
    rw [hqs]
    exact (p.join c).nodup_walked
  have hprobe' : ∀ q ∈ p.walked, (s.probeError q).map IoError.kind ≠ some .notFound := by
    intro q hq
    apply hprobe
    rw [← hqs]
    exact List.mem_append_left qs hq
  have hfirst : first = ((s.verdict p.walked).map fun _ => (s.toMake p.walked).length,
      s.addAll (s.toMake p.walked)) := run_ensure s p
  have hatOnce : atOnce = ((s.verdict (p.walked ++ qs)).map fun _ => (s.toMake (p.walked ++ qs)).length,
      s.addAll (s.toMake (p.walked ++ qs))) := by
    rw [hqs]
    exact run_ensure s (p.join c)
  cases hverdict : s.verdict p.walked with
  | error failure =>
    rw [verdict_append_of_error hverdict, toMake_append_of_error hverdict] at hatOnce
    rw [hverdict] at hfirst
    rw [hfirst, hatOnce]
    refine ⟨fun failure' h => ⟨h, rfl⟩, ?_⟩
    intro n h
    cases h
  | ok u =>
    have hgrows : s.Grows (s.addAll (s.toMake p.walked)) := grows_addAll_toMake s p.walked
    -- The first stage's prefixes are there by now, so that the second one has only the others to make.
    have hsecond : second = ((s.verdict qs).map fun _ => (s.toMake qs).length,
        (s.addAll (s.toMake p.walked)).addAll (s.toMake qs)) := by
      have hrun : second = _ := run_ensure first.2 (p.join c)
      rw [← hqs, hfirst, toMake_after_first hnodup hverdict hprobe', hgrows.verdict,
        verdict_append_of_ok hverdict] at hrun
      exact hrun
    rw [verdict_append_of_ok hverdict, toMake_append_of_ok hverdict, addAll_append, List.length_append] at hatOnce
    rw [hverdict] at hfirst
    rw [hfirst, hsecond, hatOnce]
    refine ⟨nofun, ?_⟩
    intro n h
    cases h
    refine ⟨rfl, ?_⟩
    cases s.verdict qs with
    | error failure => exact .inl ⟨failure, rfl, rfl⟩
    | ok v => exact .inr ⟨_, rfl, rfl⟩

/-- In two stages, along separators and dots that say nothing, and past a directory that somebody else makes in
time: one directory and one more, or two at once. -/
theorem two_stages_below_working_directory :
    let path (text : String) : Path := .ofString text
    let s := (ofList [path "."]).setCreateError (path "./a/b") (some (.system .entryExists))
    let p := path "./a//"
    let c := path "./b/./c/"
    let first := (ensure p).run fileSystem s
    let second := (ensure (p.join c)).run fileSystem first.2
    let atOnce := (ensure (p.join c)).run fileSystem s
    c.isAbsolute = false ∧ (∀ q ∈ (p.join c).walked, (s.probeError q).map IoError.kind ≠ some .notFound) ∧
      first.1 = .ok 1 ∧ second.1 = .ok 1 ∧ atOnce.1 = .ok 2 ∧ second.2 = atOnce.2 := by
  intro path s p c first second atOnce
  have hc : c.isAbsolute = false := by decide
  have hprobe : ∀ q ∈ (p.join c).walked, (s.probeError q).map IoError.kind ≠ some .notFound := by
    decide +kernel
  have hfirst : first.1 = .ok 1 := by decide +kernel
  have hsecond : second.1 = .ok 1 := by decide +kernel
  obtain ⟨hstore, ⟨failure, hfailed, -⟩ | ⟨m, hm, hatOnce⟩⟩ :=
    (stages_make_what_one_walk_makes s p c hc hprobe).2 1 hfirst
  · rw [show second.1 = .error failure from hfailed] at hsecond
    cases hsecond
  · rw [show second.1 = .ok m from hm] at hsecond
    cases hsecond
    exact ⟨hc, hprobe, hfirst, hm, hatOnce, hstore⟩

end PortableLayout
