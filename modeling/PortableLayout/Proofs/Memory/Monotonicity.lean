import PortableLayout.Proofs.Memory.Requests

/-!
# Walks over larger stores

Of two stores that fail the same calls let one hold whatever the other holds (`Memory.Within`). Walks to one path
may part ways on them: where the smaller store is refused a directory that it needs, the larger one may have it
and go on. What is compared is therefore not the states after each step but the prefixes. A prefix that blocks
the walk over the larger store blocks the other for the same reason (`Within.blockedBy`); one that the smaller
store gets is got by the larger one as well, or there already (`Within.made_or_mem`).
-/

set_option autoImplicit false

namespace PortableLayout

namespace Memory

namespace Within

variable {s t : Memory} {p q : Path} {ps : List Path} {failure : PathError}

/-- What blocks a walk over the larger store blocks it over the smaller one. -/
theorem blockedBy (h : s.Within t) (hblocked : t.BlockedBy p failure) : s.BlockedBy p failure := by
  cases hblocked with
  | probe answer found allowed =>
    rw [h.probeError] at answer
    exact .probe answer found allowed
  | create needed answer kind =>
    rw [h.createError] at answer
    exact .create (h.needed_of_needed needed) answer kind

/-- What is no obstacle is none in a store with more paths. -/
theorem obstacle?_eq_none (h : s.Within t) (hfree : s.obstacle? p = none) : t.obstacle? p = none := by
  rw [obstacle?_eq_none_iff] at hfree ⊢
  rintro ⟨failure, hblocked⟩
  exact hfree ⟨failure, h.blockedBy hblocked⟩

/-- What is made in a store with more paths is made in the one with fewer. -/
theorem made_of_made (h : s.Within t) (hmade : t.Made p) : s.Made p := by
  obtain ⟨hneeded, hcreate⟩ := hmade
  rw [h.createError] at hcreate
  exact ⟨h.needed_of_needed hneeded, hcreate⟩

/-- What a walk over the smaller store makes is made over the larger one, or is there. -/
theorem made_or_mem (h : s.Within t) (hmade : s.Made p) : t.Made p ∨ p ∈ t.existing := by
  obtain ⟨hneeded, hcreate⟩ := hmade
  rw [← h.createError] at hcreate
  exact (h.needed_or_mem hneeded).imp (fun hneeded => ⟨hneeded, hcreate⟩) id

/-- A walk gets as far over the larger store. -/
theorem mem_passed (h : s.Within t) (hq : q ∈ s.passed ps) : q ∈ t.passed ps := by
  have hstops : s.passed ps = (t.passed ps).takeWhile fun p => (s.obstacle? p).isNone := by
    rw [passed, passed, List.takeWhile_takeWhile]
    congr 1
    funext p
    cases hp : s.obstacle? p with
    | some failure => rfl
    | none => simp [h.obstacle?_eq_none hp]
  rw [hstops] at hq
  exact (List.takeWhile_sublist _).subset hq

/-- A walk that gets to its end does so in a store with more paths, too. -/
theorem verdict_eq_ok (h : s.Within t) (hok : s.verdict ps = .ok ()) : t.verdict ps = .ok () := by
  apply verdict_of_free
  intro q hq
  exact h.obstacle?_eq_none (obstacle?_of_verdict_ok hok q hq)

/-- Where both walks get to their ends, the one over the larger store makes no more. -/
theorem length_toMake_le (h : s.Within t) (hok : s.verdict ps = .ok ()) :
    (t.toMake ps).length ≤ (s.toMake ps).length := by
  rw [toMake_of_free (obstacle?_of_verdict_ok hok), toMake_of_free (obstacle?_of_verdict_ok (h.verdict_eq_ok hok)),
    ← List.countP_eq_length_filter, ← List.countP_eq_length_filter]
  apply List.countP_mono_left
  intro q _ hmade
  have hmade : t.Made q := by simpa using hmade
  simpa using h.made_of_made hmade

/-- Where the walk over the larger store fails, the other one fails there or before. -/
theorem fails_no_later (h : s.Within t) (hfails : t.verdict ps = .error failure) :
    ∃ failure', s.verdict ps = .error failure' ∧
      ∃ i j : Fin ps.length, i ≤ j ∧ s.BlockedBy ps[i] failure' ∧ t.BlockedBy ps[j] failure := by
  obtain ⟨before, q, after, hps, hq, -⟩ := exists_obstacle_of_verdict_error hfails
  have hq : t.BlockedBy q failure := obstacle?_eq_some_iff.1 hq
  have hj : before.length < ps.length := by simp [hps]
  have hjq : ps[before.length] = q := by simp [hps]
  cases hverdict : s.verdict ps with
  | ok u =>
    have hfree : s.obstacle? q = none := obstacle?_of_verdict_ok hverdict q (by simp [hps])
    exact absurd ⟨failure, h.blockedBy hq⟩ (obstacle?_eq_none_iff.1 hfree)
  | error failure' =>
    obtain ⟨before', q', after', hps', hq', hbefore'⟩ := exists_obstacle_of_verdict_error hverdict
    have hi : before'.length < ps.length := by simp [hps']
    have hiq : ps[before'.length] = q' := by simp [hps']
    have hle : before'.length ≤ before.length := by
      by_contra hlt
      -- Else the walk over the smaller store would have passed what blocks it.
      have hmem : q ∈ before' := by
        rw [← hjq]
        simp only [hps', List.getElem_append_left (Nat.lt_of_not_le hlt)]
        exact List.getElem_mem _
      exact obstacle?_eq_none_iff.1 (hbefore' q hmem) ⟨failure, h.blockedBy hq⟩
    refine ⟨failure', rfl, ⟨before'.length, hi⟩, ⟨before.length, hj⟩, hle, ?_, ?_⟩
    · show s.BlockedBy ps[before'.length] failure'
      rw [hiq]
      exact obstacle?_eq_some_iff.1 hq'
    · show t.BlockedBy ps[before.length] failure
      rw [hjq]
      exact hq

/-- The stores are comparable again after the walks, however these end. -/
theorem addAll_toMake (h : s.Within t) (ps : List Path) :
    (s.addAll (s.toMake ps)).Within (t.addAll (t.toMake ps)) where
  probeError := by rw [probeError_addAll, probeError_addAll, h.probeError]
  createError := by rw [createError_addAll, createError_addAll, h.createError]
  kept q hq := by
    rw [mem_existing_addAll] at hq ⊢
    obtain hq | hq := hq
    · exact .inl (h.kept q hq)
    · obtain ⟨hpassed, hmade⟩ := List.mem_filter.1 hq
      have hmade : s.Made q := by simpa using hmade
      obtain hmade | hmem := h.made_or_mem hmade
      · exact .inr (List.mem_filter.2 ⟨h.mem_passed hpassed, by simpa using hmade⟩)
      · exact .inl hmem

end Within

end Memory

open Memory

/-- **More directories never hurt.** Let two stores fail the same calls, and let the one hold what the other holds
and perhaps more. If a walk gets to its end on the smaller store, it does so on the larger one and makes no more
directories. If it fails on the larger store, it fails on the smaller one, at the same prefix or an earlier one.
And whatever becomes of the walks, the store that was larger still holds what the other holds. -/
theorem more_directories_never_hurt (s t : Memory) (p : Path) (h : s.Within t) :
    let fewer := (ensure p).run fileSystem s
    let more := (ensure p).run fileSystem t
    (∀ n, fewer.1 = .ok n → ∃ m ≤ n, more.1 = .ok m) ∧
      (∀ failure, more.1 = .error failure → ∃ failure', fewer.1 = .error failure' ∧
        ∃ i j : Fin p.walked.length, i ≤ j ∧ s.BlockedBy p.walked[i] failure' ∧ t.BlockedBy p.walked[j] failure) ∧
      fewer.2.Within more.2 := by
  intro fewer more
  have hfewer : fewer = ((s.verdict p.walked).map fun _ => (s.toMake p.walked).length,
      s.addAll (s.toMake p.walked)) := run_ensure s p
  have hmore : more = ((t.verdict p.walked).map fun _ => (t.toMake p.walked).length,
      t.addAll (t.toMake p.walked)) := run_ensure t p
  rw [hfewer, hmore]
  refine ⟨?_, ?_, h.addAll_toMake p.walked⟩
  · intro n hn
    cases hverdict : s.verdict p.walked with
    | error failure =>
      rw [hverdict] at hn
      cases hn
    | ok u =>
      rw [hverdict] at hn
      cases hn
      rw [h.verdict_eq_ok hverdict]
      exact ⟨_, h.length_toMake_le hverdict, rfl⟩
  · intro failure hfailure
    cases hverdict : t.verdict p.walked with
    | ok u =>
      rw [hverdict] at hfailure
      cases hfailure
    | error found =>
      rw [hverdict] at hfailure
      cases hfailure
      obtain ⟨failure', hfails, hposition⟩ := h.fails_no_later hverdict
      rw [hfails]
      exact ⟨failure', rfl, hposition⟩

/-- Where one store is refused a directory that the other one has, the walks part: the one ends there, and the
other goes on to the next directory that is refused. -/
theorem walks_part_at_refused_directory :
    let path (text : String) : Path := .ofString text
    let s := ((ofList [path "/"]).setCreateError (path "/a/b") (some (.system .readOnly))).setCreateError
      (path "/a/b/c/d") (some (.system .noSpace))
    let t := (s.add (path "/a/b"))
    let p := path "/a/b/c/d"
    let fewer := (ensure p).run fileSystem s
    let more := (ensure p).run fileSystem t
    s.Within t ∧ fewer.1 = .error (.createDir (path "/a/b") (.system .readOnly)) ∧
      more.1 = .error (.createDir p (.system .noSpace)) ∧
      (∃ failure', fewer.1 = .error failure' ∧ ∃ i j : Fin p.walked.length, i ≤ j ∧
        s.BlockedBy p.walked[i] failure' ∧ t.BlockedBy p.walked[j] (.createDir p (.system .noSpace))) ∧
      fewer.2.Within more.2 := by
  intro path s t p fewer more
  have hwithin : s.Within t := ⟨rfl, rfl, fun q hq => mem_existing_add.2 (.inr hq)⟩
  have hfewer : fewer.1 = .error (.createDir (path "/a/b") (.system .readOnly)) := by decide +kernel
  have hmore : more.1 = .error (.createDir p (.system .noSpace)) := by decide +kernel
  obtain ⟨-, hfails, hstores⟩ := more_directories_never_hurt s t p hwithin
  exact ⟨hwithin, hfewer, hmore, hfails _ hmore, hstores⟩

end PortableLayout
