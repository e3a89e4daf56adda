import Mathlib.Tactic.ByContra
import PortableLayout.FileSystem.Memory
import PortableLayout.Proofs.Walk.Steps

/-!
# What stops a walk over a store in memory

At each prefix a walk over a store in memory does one of three things: it ends with a failure
(`Memory.BlockedBy`), it makes the prefix (`Memory.Made`), or it passes on. `obstacle?` computes the
failure, and the three `run_ensureFrom_of_…` say what each case does to the rest of the walk.

Two stores that fail the same calls are compared by what is in them (`Memory.Within`). Whatever walks add to a
store, they block nobody by it: `Memory.Grows` relates a store to what it can become, and obstacles are the same
in both (`Grows.obstacle?`).
-/

set_option autoImplicit false

namespace PortableLayout.Memory

/-- A walk that comes to `p` tries to create it. -/
def Needed (s : Memory) (p : Path) : Prop :=
  (s.probeError p).map IoError.kind = some .notFound ∨ s.probeError p = none ∧ p ∉ s.existing

/-- A walk that comes to `p` creates it. -/
def Made (s : Memory) (p : Path) : Prop :=
  s.Needed p ∧ s.createError p = none

/-- Whether a walk tries to create a path can be computed. -/
instance (s : Memory) (p : Path) : Decidable (s.Needed p) :=
  inferInstanceAs (Decidable (_ ∨ _))

/-- Whether a walk creates a path can be computed. -/
instance (s : Memory) (p : Path) : Decidable (s.Made p) :=
  inferInstanceAs (Decidable (_ ∧ _))

/-- A walk that comes to `p` ends there with a failure. -/
inductive BlockedBy (s : Memory) (p : Path) : PathError → Prop
  | probe {e : IoError} (answer : s.probeError p = some e) (found : e.kind ≠ .notFound)
      (allowed : e.kind ≠ .permissionDenied) : BlockedBy s p (.unverifiable p e)
  | create {e : IoError} (needed : s.Needed p) (answer : s.createError p = some e)
      (kind : e.kind ≠ .alreadyExists) : BlockedBy s p (.createDir p e)

/-- A walk that comes to `p` does not get past it. -/
def Blocked (s : Memory) (p : Path) : Prop :=
  ∃ failure, s.BlockedBy p failure

/-- The failure of probing `p` that ends a walk. -/
def probeObstacle? (s : Memory) (p : Path) : Option PathError :=
  match s.probeError p with
  | some e =>
    if e.kind = .notFound ∨ e.kind = .permissionDenied then none else some (.unverifiable p e)
  | none => none

/-- The failure of creating `p` that ends a walk. -/
def createObstacle? (s : Memory) (p : Path) : Option PathError :=
  match s.createError p with
  | some e => if s.Needed p ∧ e.kind ≠ .alreadyExists then some (.createDir p e) else none
  | none => none

/-- The failure that a walk ends with at `p`, if it does not get past it. -/
def obstacle? (s : Memory) (p : Path) : Option PathError :=
  (s.probeObstacle? p).or (s.createObstacle? p)

/-- How a walk over these prefixes ends. -/
def verdict (s : Memory) (ps : List Path) : Except PathError Unit :=
  match ps.findSome? s.obstacle? with
  | some failure => .error failure
  | none => .ok ()

/-- The prefixes that a walk gets past. -/
def passed (s : Memory) (ps : List Path) : List Path :=
  ps.takeWhile fun p => (s.obstacle? p).isNone

/-- The prefixes that a walk makes. -/
def toMake (s : Memory) (ps : List Path) : List Path :=
  (s.passed ps).filter fun p => s.Made p

/-- The store with all these paths put into the set. -/
def addAll (s : Memory) (ps : List Path) : Memory :=
  ps.foldl add s

/-- Putting a path in changes no error of a probe. -/
theorem probeError_add (s : Memory) (p : Path) : (s.add p).probeError = s.probeError := rfl

/-- Putting a path in changes no error of a creation. -/
theorem createError_add (s : Memory) (p : Path) : (s.add p).createError = s.createError := rfl

/-- The store with some paths more holds these and what it held before. -/
theorem mem_existing_addAll {s : Memory} {ps : List Path} {q : Path} :
    q ∈ (s.addAll ps).existing ↔ q ∈ s.existing ∨ q ∈ ps := by
  induction ps generalizing s with
  | nil => simp [addAll]
  | cons p ps ih =>
    have hcons : s.addAll (p :: ps) = (s.add p).addAll ps := rfl
    rw [hcons, ih, mem_existing_add, List.mem_cons]
    constructor
    · rintro ((h | h) | h)
      · exact .inr (.inl h)
      · exact .inl h
      · exact .inr (.inr h)
    · rintro (h | h | h)
      · exact .inl (.inr h)
      · exact .inl (.inl h)
      · exact .inr h

/-- Putting paths in changes no error of a probe. -/
theorem probeError_addAll (s : Memory) (ps : List Path) :
    (s.addAll ps).probeError = s.probeError := by
  induction ps generalizing s with
  | nil => rfl
  | cons p ps ih => exact (ih (s.add p)).trans (probeError_add s p)

/-- Putting paths in changes no error of a creation. -/
theorem createError_addAll (s : Memory) (ps : List Path) :
    (s.addAll ps).createError = s.createError := by
  induction ps generalizing s with
  | nil => rfl
  | cons p ps ih => exact (ih (s.add p)).trans (createError_add s p)

/-! ## Obstacles -/

section

variable {s : Memory} {p : Path} {e : IoError}

/-- A path whose probe fails is created only if the error says that it is missing. -/
theorem needed_iff_of_probeError (h : s.probeError p = some e) :
    s.Needed p ↔ e.kind = .notFound := by
  simp [Needed, h]

/-- A path whose probe does not fail is created if it is not in the set. -/
theorem needed_iff_of_no_probeError (h : s.probeError p = none) :
    s.Needed p ↔ p ∉ s.existing := by
  simp [Needed, h]

/-- The failures of probes are those with an error that says nothing about whether the path is there. -/
theorem probeObstacle?_eq_some_iff {failure : PathError} :
    s.probeObstacle? p = some failure ↔
      ∃ e, s.probeError p = some e ∧ e.kind ≠ .notFound ∧ e.kind ≠ .permissionDenied ∧
        failure = .unverifiable p e := by
  unfold probeObstacle?
  cases s.probeError p with
  | none => simp
  | some e =>
    by_cases h : e.kind = .notFound ∨ e.kind = .permissionDenied
    · simp only [if_pos h, Option.some.injEq]
      constructor
      · intro hf
        cases hf
      · rintro ⟨_, rfl, hn, ha, -⟩
        exact absurd h (not_or.2 ⟨hn, ha⟩)
    · simp only [if_neg h, Option.some.injEq]
      constructor
      · rintro rfl
        exact ⟨e, rfl, fun hn => h (.inl hn), fun ha => h (.inr ha), rfl⟩
      · rintro ⟨_, rfl, -, -, rfl⟩
        rfl

/-- The failures of creations are those with an error that does not say that the path is there. -/
theorem createObstacle?_eq_some_iff {failure : PathError} :
    s.createObstacle? p = some failure ↔
      ∃ e, s.createError p = some e ∧ s.Needed p ∧ e.kind ≠ .alreadyExists ∧
        failure = .createDir p e := by
  unfold createObstacle?
  cases s.createError p with
  | none => simp
  | some e =>
    by_cases h : s.Needed p ∧ e.kind ≠ .alreadyExists
    · simp only [if_pos h, Option.some.injEq]
      constructor
      · rintro rfl
        exact ⟨e, rfl, h.1, h.2, rfl⟩
      · rintro ⟨_, rfl, -, -, rfl⟩
        rfl
    · simp only [if_neg h]
      constructor
      · intro hf
        cases hf
      · rintro ⟨_, he, hn, ha, -⟩
        cases he
        exact absurd ⟨hn, ha⟩ h

/-- A prefix that is needed can be probed. -/
theorem probeObstacle?_of_needed (h : s.Needed p) : s.probeObstacle? p = none := by
  cases ho : s.probeObstacle? p with
  | none => rfl
  | some failure =>
    obtain ⟨e, he, hn, -, -⟩ := probeObstacle?_eq_some_iff.1 ho
    exact absurd ((needed_iff_of_probeError he).1 h) hn

/-- `obstacle?` finds what blocks a walk. -/
theorem obstacle?_eq_some_iff {failure : PathError} :
    s.obstacle? p = some failure ↔ s.BlockedBy p failure := by
  constructor
  · intro h
    obtain hp | ⟨-, hc⟩ := Option.or_eq_some_iff.1 h
    · obtain ⟨e, he, hn, ha, rfl⟩ := probeObstacle?_eq_some_iff.1 hp
      exact .probe he hn ha
    · obtain ⟨e, he, hn, ha, rfl⟩ := createObstacle?_eq_some_iff.1 hc
      exact .create hn he ha
  · intro h
    cases h with
    | probe answer found allowed =>
      exact Option.or_eq_some_iff.2 (.inl (probeObstacle?_eq_some_iff.2 ⟨_, answer, found, allowed, rfl⟩))
    | create needed answer kind =>
      exact Option.or_eq_some_iff.2 (.inr ⟨probeObstacle?_of_needed needed,
        createObstacle?_eq_some_iff.2 ⟨_, answer, needed, kind, rfl⟩⟩)

/-- A path is no obstacle exactly if a walk gets past it. -/
theorem obstacle?_eq_none_iff : s.obstacle? p = none ↔ ¬ s.Blocked p := by
  rw [Option.eq_none_iff_forall_ne_some, Blocked, not_exists]
  exact forall_congr' fun failure => not_congr obstacle?_eq_some_iff

/-- What is made does not stop a walk. -/
theorem obstacle?_of_made (h : s.Made p) : s.obstacle? p = none := by
  refine obstacle?_eq_none_iff.2 fun ⟨failure, hb⟩ => ?_
  cases hb with
  | probe answer found allowed => exact found ((needed_iff_of_probeError answer).1 h.1)
  | create needed answer kind => rw [h.2] at answer; cases answer

/-- What a walk neither is stopped by nor makes: a prefix that is there, one that may not be looked at, or
one that somebody else makes in time. -/
theorem passed_cases (h : s.obstacle? p = none) (hm : ¬ s.Made p) :
    (s.probeError p = none ∧ p ∈ s.existing) ∨
      (∃ e, s.probeError p = some e ∧ e.kind = .permissionDenied) ∨
      s.Needed p ∧ ∃ e, s.createError p = some e ∧ e.kind = .alreadyExists := by
  have hfree := obstacle?_eq_none_iff.1 h
  by_cases hn : s.Needed p
  · cases hc : s.createError p with
    | none => exact absurd ⟨hn, hc⟩ hm
    | some e =>
      have hkind : e.kind = .alreadyExists := by
        by_contra hkind
        exact hfree ⟨_, .create hn hc hkind⟩
      exact .inr (.inr ⟨hn, e, rfl, hkind⟩)
  · cases he : s.probeError p with
    | none =>
      have hp : p ∈ s.existing := by
        by_contra hp
        exact hn ((needed_iff_of_no_probeError he).2 hp)
      exact .inl ⟨rfl, hp⟩
    | some e =>
      have hfound : e.kind ≠ .notFound := fun hk => hn ((needed_iff_of_probeError he).2 hk)
      have hkind : e.kind = .permissionDenied := by
        by_contra hkind
        exact hfree ⟨_, .probe he hfound hkind⟩
      exact .inr (.inl ⟨e, rfl, hkind⟩)

/-! ## One prefix of a walk -/

variable (n : Nat) (ps : List Path)

/-- A walk on a store begins with the answer of its first prefix. -/
theorem run_ensureFrom_cons :
    (ensureFrom n (p :: ps)).run fileSystem s = (afterProbe n p ps (s.probe p)).run fileSystem s :=
  rfl

/-- Making a directory goes on with its outcome on the store that it leaves. -/
theorem run_createDir (next : Except IoError Unit → Dialogue (Except PathError Nat)) :
    (Dialogue.createDir p next).run fileSystem s =
      (next (s.createDir p).1).run fileSystem (s.createDir p).2 :=
  rfl

/-- A walk goes on to create a prefix that is needed. -/
theorem run_ensureFrom_of_needed (h : s.Needed p) :
    (ensureFrom n (p :: ps)).run fileSystem s =
      (afterCreate n p ps (s.createDir p).1).run fileSystem (s.createDir p).2 := by
  rw [run_ensureFrom_cons, probe]
  cases he : s.probeError p with
  | some e =>
    rw [afterProbe_notFound n p ps ((needed_iff_of_probeError he).1 h), run_createDir]
  | none =>
    have hp : p ∉ s.existing := (needed_iff_of_no_probeError he).1 h
    simp only [hp, decide_false]
    rw [afterProbe_false, run_createDir]

/-- A prefix that is made is counted, and the walk goes on with it in the store. -/
theorem run_ensureFrom_of_made (h : s.Made p) :
    (ensureFrom n (p :: ps)).run fileSystem s =
      (ensureFrom (n + 1) ps).run fileSystem (s.add p) := by
  have hcreate : s.createDir p = (.ok (), s.add p) := by simp only [createDir, h.2]
  rw [run_ensureFrom_of_needed n ps h.1, hcreate, afterCreate_ok]

/-- An obstacle ends the walk with its failure and leaves the store as it is. -/
theorem run_ensureFrom_of_obstacle {failure : PathError} (h : s.obstacle? p = some failure) :
    (ensureFrom n (p :: ps)).run fileSystem s = (.error failure, s) := by
  cases obstacle?_eq_some_iff.1 h with
  | probe answer found allowed =>
    rw [run_ensureFrom_cons, probe, answer]
    show (afterProbe n p ps (.error _)).run fileSystem s = _
    rw [afterProbe_error n p ps found allowed]
    rfl
  | @create e needed answer kind =>
    have hcreate : s.createDir p = (.error e, s) := by simp only [createDir, answer]
    rw [run_ensureFrom_of_needed n ps needed, hcreate, afterCreate_error n p ps kind]
    rfl

/-- A prefix that is passed and not made leaves the count and the store as they are. -/
theorem run_ensureFrom_of_passed (h : s.obstacle? p = none) (hm : ¬ s.Made p) :
    (ensureFrom n (p :: ps)).run fileSystem s = (ensureFrom n ps).run fileSystem s := by
  obtain ⟨he, hp⟩ | ⟨e, he, hkind⟩ | ⟨hn, e, hc, hkind⟩ := passed_cases h hm
  · rw [run_ensureFrom_cons, probe, he]
    simp only [hp, decide_true]
    rw [afterProbe_true]
  · rw [run_ensureFrom_cons, probe, he]
    show (afterProbe n p ps (.error e)).run fileSystem s = _
    rw [afterProbe_permissionDenied n p ps hkind]
  · have hcreate : s.createDir p = (.error e, s) := by simp only [createDir, hc]
    rw [run_ensureFrom_of_needed n ps hn, hcreate, afterCreate_alreadyExists n p ps hkind]

end

/-! ## Stores with more paths -/

/-- The stores fail the same calls, and whatever is in `s` is in `t`. -/
structure Within (s t : Memory) : Prop where
  probeError : t.probeError = s.probeError
  createError : t.createError = s.createError
  kept : ∀ q ∈ s.existing, q ∈ t.existing

namespace Within

variable {s t : Memory} {p : Path}

/-- What a walk tries to create in a store with more paths it tries to create in the one with fewer. -/
theorem needed_of_needed (h : s.Within t) (hp : t.Needed p) : s.Needed p := by
  unfold Needed at hp ⊢
  rw [h.probeError] at hp
  exact hp.imp id fun ⟨he, hnot⟩ => ⟨he, fun hs => hnot (h.kept p hs)⟩

/-- A path that is not needed in the larger store any more is in it. -/
theorem needed_or_mem (h : s.Within t) (hp : s.Needed p) : t.Needed p ∨ p ∈ t.existing := by
  by_cases hmem : p ∈ t.existing
  · exact .inr hmem
  · unfold Needed at hp ⊢
    rw [h.probeError]
    exact .inl (hp.imp id fun hnone => ⟨hnone.1, hmem⟩)

end Within

/-! ## Stores that grow -/

/-- The store `t` is `s` with more paths, each of which could be created. -/
structure Grows (s t : Memory) : Prop where
  probeError : t.probeError = s.probeError
  createError : t.createError = s.createError
  kept : ∀ q ∈ s.existing, q ∈ t.existing
  added : ∀ q ∈ t.existing, q ∈ s.existing ∨ s.createError q = none

namespace Grows

variable {s t u : Memory}

/-- A store has grown from itself. -/
theorem refl (s : Memory) : s.Grows s :=
  ⟨rfl, rfl, fun _ h => h, fun _ h => .inl h⟩

/-- Growing twice is growing. -/
theorem trans (h : s.Grows t) (h' : t.Grows u) : s.Grows u where
  probeError := h'.probeError.trans h.probeError
  createError := h'.createError.trans h.createError
  kept q hq := h'.kept q (h.kept q hq)
  added q hq := by
    obtain hq | hq := h'.added q hq
    · exact h.added q hq
    · exact .inr (by rwa [h.createError] at hq)

/-- A store grows by paths that can be created. -/
theorem addAll {ps : List Path} (h : ∀ p ∈ ps, s.createError p = none) : s.Grows (s.addAll ps) where
  probeError := probeError_addAll s ps
  createError := createError_addAll s ps
  kept _ hq := mem_existing_addAll.2 (.inl hq)
  added q hq := (mem_existing_addAll.1 hq).imp id (h q)

/-- A store that has grown holds what it held. -/
theorem within (h : s.Grows t) : s.Within t :=
  ⟨h.probeError, h.createError, h.kept⟩

/-- A path whose creation fails is needed as much as before. -/
theorem needed_iff {p : Path} {e : IoError} (h : s.Grows t) (he : s.createError p = some e) :
    t.Needed p ↔ s.Needed p := by
  refine ⟨h.within.needed_of_needed, fun hp => ?_⟩
  unfold Needed at hp ⊢
  rw [h.probeError]
  refine hp.imp id fun ⟨hprobe, hnot⟩ => ⟨hprobe, fun hmem => ?_⟩
  obtain hs | hnone := h.added p hmem
  · exact hnot hs
  · rw [he] at hnone
    cases hnone

/-- What could be created is in nobody's way, be it in the store or not. -/
theorem obstacle? (h : s.Grows t) : t.obstacle? = s.obstacle? := by
  funext p
  have hprobe : t.probeObstacle? p = s.probeObstacle? p := by
    rw [probeObstacle?, probeObstacle?, h.probeError]
  have hcreate : t.createObstacle? p = s.createObstacle? p := by
    unfold createObstacle?
    rw [h.createError]
    cases he : s.createError p with
    | none => rfl
    | some e => simp only [h.needed_iff he]
  rw [Memory.obstacle?, Memory.obstacle?, hprobe, hcreate]

/-- A store that has grown lets walks end as before. -/
theorem verdict (h : s.Grows t) : t.verdict = s.verdict := by
  funext ps
  rw [Memory.verdict, Memory.verdict, h.obstacle?]

/-- A store that has grown lets walks get past the same prefixes as before. -/
theorem passed (h : s.Grows t) : t.passed = s.passed := by
  funext ps
  rw [Memory.passed, Memory.passed, h.obstacle?]

end Grows

/-- A store grows by a path that can be created. -/
theorem grows_add {s : Memory} {p : Path} (h : s.createError p = none) : s.Grows (s.add p) :=
  Grows.addAll fun q hq => by rwa [List.mem_singleton.1 hq]

end PortableLayout.Memory
