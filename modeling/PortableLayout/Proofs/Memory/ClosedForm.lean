import Mathlib.Data.List.TakeWhile
import PortableLayout.Proofs.Memory.Obstacles
import PortableLayout.Proofs.Path.Walked

/-!
# The closed form of a walk over a store in memory

A walk reads a store that it changes on its way. Still its outcome can be read off the store as it was
at first, because a walk visits no prefix twice: the walk ends at the first prefix with an obstacle, and
what it makes are the prefixes before that one which are needed and whose creation does not fail
(`run_ensure`). `ensure_closed_form` says the same prefix by prefix.
-/

set_option autoImplicit false

namespace PortableLayout.Memory

section

variable {s : Memory} {p : Path} {ps : List Path}

/-- A prefix without an obstacle does not change how a walk ends. -/
theorem verdict_cons_of_none (h : s.obstacle? p = none) : s.verdict (p :: ps) = s.verdict ps := by
  rw [verdict, verdict, List.findSome?_cons, h]

/-- A prefix that is made is made first. -/
theorem toMake_cons_of_made (h : s.Made p) : s.toMake (p :: ps) = p :: s.toMake ps := by
  rw [toMake, passed, List.takeWhile_cons_of_pos (by simp [obstacle?_of_made h]),
    List.filter_cons_of_pos (by simp [h])]
  rfl

/-- A prefix that is passed and not made adds nothing to what is made. -/
theorem toMake_cons_of_not_made (h : ¬ s.Made p) (ho : s.obstacle? p = none) :
    s.toMake (p :: ps) = s.toMake ps := by
  rw [toMake, passed, List.takeWhile_cons_of_pos (by simp [ho]),
    List.filter_cons_of_neg (by simp [h])]
  rfl

/-- Making one prefix changes nothing for the others. -/
theorem toMake_add (hp : p ∉ ps) (h : s.createError p = none) :
    (s.add p).toMake ps = s.toMake ps := by
  rw [toMake, toMake, (grows_add h).passed]
  refine List.filter_congr fun q hq => ?_
  have hne : q ≠ p := fun e => hp (e ▸ (List.takeWhile_sublist _).subset hq)
  have hmade : (s.add p).Made q ↔ s.Made q := by
    unfold Made Needed
    rw [probeError_add, createError_add, mem_existing_add]
    simp [hne]
  simp only [hmade]

end

/-- The closed form of a walk, read off the store as it was at first. -/
theorem run_ensureFrom (s : Memory) (n : Nat) {ps : List Path} (h : ps.Nodup) :
    (ensureFrom n ps).run fileSystem s =
      ((s.verdict ps).map fun _ => n + (s.toMake ps).length, s.addAll (s.toMake ps)) := by
  induction ps generalizing s n with
  | nil => rfl
  | cons p ps ih =>
    obtain ⟨hp, hps⟩ := List.nodup_cons.1 h
    cases ho : s.obstacle? p with
    | some failure =>
      have hverdict : s.verdict (p :: ps) = .error failure := by
        rw [verdict, List.findSome?_cons, ho]
      have hmake : s.toMake (p :: ps) = [] := by
        rw [toMake, passed, List.takeWhile_cons_of_neg (by simp [ho])]
        rfl
      rw [run_ensureFrom_of_obstacle n ps ho, hverdict, hmake]
      rfl
    | none =>
      by_cases hm : s.Made p
      · have hverdict : (s.add p).verdict ps = s.verdict (p :: ps) := by
          rw [verdict_cons_of_none ho, (grows_add hm.2).verdict]
        have hcount : n + 1 + (s.toMake ps).length = n + (p :: s.toMake ps).length := by
          rw [List.length_cons]
          omega
        rw [run_ensureFrom_of_made n ps hm, ih (s.add p) (n + 1) hps, hverdict, toMake_add hp hm.2,
          toMake_cons_of_made hm, hcount]
        rfl
      · rw [run_ensureFrom_of_passed n ps ho hm, ih s n hps, verdict_cons_of_none ho,
          toMake_cons_of_not_made hm ho]

/-- A walk on a store in one line: how it ends, how many prefixes it makes, and the store with these. -/
theorem run_ensure (s : Memory) (p : Path) :
    (ensure p).run fileSystem s =
      ((s.verdict p.walked).map fun _ => (s.toMake p.walked).length,
        s.addAll (s.toMake p.walked)) := by
  rw [ensure, run_ensureFrom s 0 p.nodup_walked]
  simp only [Nat.zero_add]

/-- Without an obstacle a walk gets to its end. -/
theorem verdict_of_free {s : Memory} {ps : List Path} (h : ∀ q ∈ ps, s.obstacle? q = none) :
    s.verdict ps = .ok () := by
  rw [verdict, List.findSome?_eq_none_iff.2 h]

/-- A walk that gets to its end meets no obstacle. -/
theorem obstacle?_of_verdict_ok {s : Memory} {ps : List Path} (h : s.verdict ps = .ok ()) :
    ∀ q ∈ ps, s.obstacle? q = none := by
  apply List.findSome?_eq_none_iff.1
  unfold verdict at h
  cases hfound : ps.findSome? s.obstacle? with
  | none => rfl
  | some failure =>
    rw [hfound] at h
    cases h

/-- Without an obstacle a walk makes all prefixes that can be made. -/
theorem toMake_of_free {s : Memory} {ps : List Path} (h : ∀ q ∈ ps, s.obstacle? q = none) :
    s.toMake ps = ps.filter fun q => s.Made q := by
  have hpass : ∀ q ∈ ps, (s.obstacle? q).isNone = true := fun q hq => by simp [h q hq]
  rw [toMake, passed, List.takeWhile_eq_self_iff.2 hpass]

/-- A walk ends with the failure of the first obstacle. -/
theorem verdict_of_blocked {s : Memory} {before after : List Path} {p : Path} {failure : PathError}
    (hp : s.obstacle? p = some failure) (h : ∀ q ∈ before, s.obstacle? q = none) :
    s.verdict (before ++ p :: after) = .error failure := by
  rw [verdict, List.findSome?_append, List.findSome?_eq_none_iff.2 h, List.findSome?_cons, hp]
  rfl

/-- A walk that fails does so at the first prefix with an obstacle. -/
theorem exists_obstacle_of_verdict_error {s : Memory} {ps : List Path} {failure : PathError}
    (h : s.verdict ps = .error failure) :
    ∃ before p after, ps = before ++ p :: after ∧ s.obstacle? p = some failure ∧
      ∀ q ∈ before, s.obstacle? q = none := by
  unfold verdict at h
  cases hfound : ps.findSome? s.obstacle? with
  | none =>
    rw [hfound] at h
    cases h
  | some found =>
    rw [hfound] at h
    cases h
    obtain ⟨before, p, after, hps, hp, hbefore⟩ := List.findSome?_eq_some_iff.1 hfound
    exact ⟨before, p, after, hps, hp, hbefore⟩

/-- A walk makes what can be made before the first obstacle. -/
theorem toMake_of_blocked {s : Memory} {before after : List Path} {p : Path} {failure : PathError}
    (hp : s.obstacle? p = some failure) (h : ∀ q ∈ before, s.obstacle? q = none) :
    s.toMake (before ++ p :: after) = before.filter fun q => s.Made q := by
  have hpass : ∀ q ∈ before, (s.obstacle? q).isNone = true := fun q hq => by simp [h q hq]
  rw [toMake, passed, List.takeWhile_append_of_pos hpass,
    List.takeWhile_cons_of_neg (by simp [hp]), List.append_nil]

/-- **The closed form of ensuring a path.** Prefixes are judged by the store as it is at first. Where no
prefix is blocked, those are made that are needed and can be created, and they are counted. Otherwise the
walk fails at the first blocked prefix, for what blocks it, and makes those before it. -/
theorem ensure_closed_form (s : Memory) (p : Path) :
    let r := (ensure p).run fileSystem s
    ((∀ q ∈ p.walked, ¬ s.Blocked q) →
      r.1 = .ok (p.walked.countP fun q => s.Made q) ∧
      ∀ q, q ∈ r.2.existing ↔ q ∈ s.existing ∨ q ∈ p.walked ∧ s.Made q) ∧
    (∀ (k : Nat) (hk : k < p.walked.length) (failure : PathError),
      s.BlockedBy p.walked[k] failure →
      (∀ q ∈ p.walked.take k, ¬ s.Blocked q) →
      r.1 = .error failure ∧
      ∀ q, q ∈ r.2.existing ↔ q ∈ s.existing ∨ q ∈ p.walked.take k ∧ s.Made q) ∧
    r.2.probeError = s.probeError ∧ r.2.createError = s.createError := by
  intro r
  have hr : r = ((s.verdict p.walked).map fun _ => (s.toMake p.walked).length,
      s.addAll (s.toMake p.walked)) := run_ensure s p
  rw [hr]
  refine ⟨fun hfree => ?_, fun k hk failure hblocked hbefore => ?_, probeError_addAll _ _,
    createError_addAll _ _⟩
  · have hpass : ∀ q ∈ p.walked, s.obstacle? q = none :=
      fun q hq => obstacle?_eq_none_iff.2 (hfree q hq)
    rw [verdict_of_free hpass, toMake_of_free hpass]
    refine ⟨?_, fun q => ?_⟩
    · rw [← List.countP_eq_length_filter]
      rfl
    · rw [mem_existing_addAll, List.mem_filter, decide_eq_true_iff]
  · have hpass : ∀ q ∈ p.walked.take k, s.obstacle? q = none :=
      fun q hq => obstacle?_eq_none_iff.2 (hbefore q hq)
    have hk' : s.obstacle? p.walked[k] = some failure := obstacle?_eq_some_iff.2 hblocked
    -- The walk is told apart at the first prefix that is blocked.
    have hsplit : p.walked = p.walked.take k ++ p.walked[k] :: p.walked.drop (k + 1) := by
      rw [← List.drop_eq_getElem_cons hk, List.take_append_drop]
    have hverdict : s.verdict p.walked = .error failure := by
      rw [hsplit]
      exact verdict_of_blocked hk' hpass
    have hmake : s.toMake p.walked = (p.walked.take k).filter fun q => s.Made q :=
      (congrArg s.toMake hsplit).trans (toMake_of_blocked hk' hpass)
    rw [hverdict, hmake]
    refine ⟨rfl, fun q => ?_⟩
    rw [mem_existing_addAll, List.mem_filter, decide_eq_true_iff]

end PortableLayout.Memory
