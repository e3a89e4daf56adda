import Mathlib.Algebra.BigOperators.Group.Finset.Piecewise
import Mathlib.Data.Fintype.BigOperators
import Mathlib.Data.Set.Card
import Mathlib.Data.Set.Finite.Lattice
import PortableLayout.Proofs.Path.Walked
import PortableLayout.Proofs.Shared.Store
import PortableLayout.Proofs.Walk.Steps

/-!
# Ensuring directories side by side

Any number of clients walk paths of their own over one store, and their calls interleave in any way.
None of them fails, what one has walked stays there, and together they make exactly the directories
that were missing: each is counted by the one client whose creation was answered first.

The invariant (`Invariant`) ties every client to the store. A client stands somewhere on its list of
prefixes, either before a probe or between a probe and the creation it led to, and everything that it
has passed is in the store (`Standing`). The prefix passed last is the parent of the one to be made, so
a creation is refused only where another client was faster.
-/

set_option autoImplicit false

namespace PortableLayout

/-- Where a client stands that walks `prefixes` over the store `S`, with `made` directories made and at
most `left` calls to go. -/
inductive Standing (S : SharedStore) (prefixes : List Path) (made : Nat) :
    (left : Nat) → Dialogue (Except PathError Nat) → Prop
  /-- The next prefix is to be probed; without one the client has returned. -/
  | probing {passed todo : List Path} (split : prefixes = passed ++ todo)
      (there : ∀ q ∈ passed, S.has q = true) :
      Standing S prefixes made (2 * todo.length) (ensureFrom made todo)
  /-- The probe of `p` found nothing, and the creation comes next. -/
  | creating {passed todo : List Path} {p : Path} (split : prefixes = passed ++ p :: todo)
      (there : ∀ q ∈ passed, S.has q = true) :
      Standing S prefixes made (2 * todo.length + 1) (.createDir p (afterCreate made p todo))

namespace Standing

variable {S : SharedStore} {prefixes : List Path} {made left : Nat}
  {d : Dialogue (Except PathError Nat)}

/-- What other clients add to the store moves nobody. -/
theorem mono {S' : SharedStore} (h : Standing S prefixes made left d) (hS : S.paths ⊆ S'.paths) :
    Standing S' prefixes made left d := by
  cases h with
  | probing split there => exact .probing split fun q hq => hS (there q hq)
  | creating split there => exact .creating split fun q hq => hS (there q hq)

/-- A client stands before the next probe as soon as the prefix it was at is there. -/
theorem next {passed todo : List Path} {q : Path} (split : prefixes = passed ++ q :: todo)
    (there : ∀ r ∈ passed, S.has r = true) (hq : S.has q = true) :
    Standing S prefixes made (2 * todo.length) (ensureFrom made todo) := by
  have split' : prefixes = (passed ++ [q]) ++ todo := by simp [split]
  refine .probing split' fun r hr => ?_
  obtain hr | hr := List.mem_append.1 hr
  · exact there r hr
  · rw [List.mem_singleton.1 hr]
    exact hq

/-- A client that has returned has passed all its prefixes, and its result is its count. -/
theorem of_done {r : Except PathError Nat} (h : Standing S prefixes made left (.done r)) :
    r = .ok made ∧ ∀ q ∈ prefixes, S.has q = true := by
  generalize hd : Dialogue.done r = d at h
  cases h with
  | @probing passed todo split there =>
    cases todo with
    | nil =>
      rw [ensureFrom_nil] at hd
      rw [split, List.append_nil]
      exact ⟨(Dialogue.done.inj hd), there⟩
    | cons p todo =>
      rw [ensureFrom_cons] at hd
      cases hd
  | creating split there => cases hd

/-- A client without calls to go has returned. -/
theorem eq_done (h : Standing S prefixes made 0 d) : d = .done (.ok made) := by
  generalize hl : 0 = left at h
  cases h with
  | @probing passed todo split there =>
    have htodo : todo = [] := List.length_eq_zero_iff.1 (by omega)
    rw [htodo, ensureFrom_nil]
  | creating split there => omega

/-- One call of a client brings it forward. Either the store stays as it is, or a prefix that was
missing is added and counted. -/
theorem step {p : Path} (h : Standing S p.walked made left d) :
    ∃ made' left',
      Standing (d.step SharedStore.fileSystem S).2 p.walked made' left'
        (d.step SharedStore.fileSystem S).1 ∧
      left' ≤ left - 1 ∧
      ((d.step SharedStore.fileSystem S).2 = S ∧ made' = made ∨
        ∃ q ∈ p.walked, S.has q = false ∧ (d.step SharedStore.fileSystem S).2 = S.add q ∧
          made' = made + 1) := by
  cases h with
  | @probing passed todo split there =>
    cases todo with
    | nil =>
      refine ⟨made, 0, ?_, Nat.zero_le _, .inl ⟨rfl, rfl⟩⟩
      exact .probing split there
    | cons q todo =>
      have hstep : (ensureFrom made (q :: todo)).step SharedStore.fileSystem S =
          (afterProbe made q todo (.ok (S.has q)), S) := rfl
      rw [hstep, List.length_cons]
      cases hq : S.has q with
      | true =>
        rw [afterProbe_true]
        exact ⟨made, 2 * todo.length, next split there hq, by omega, .inl ⟨rfl, rfl⟩⟩
      | false =>
        rw [afterProbe_false]
        exact ⟨made, 2 * todo.length + 1, .creating split there, by omega, .inl ⟨rfl, rfl⟩⟩
  | @creating passed todo q split there =>
    have hstep : (Dialogue.createDir q (afterCreate made q todo)).step SharedStore.fileSystem S =
        (afterCreate made q todo (S.createDir q).1, (S.createDir q).2) := rfl
    rw [hstep]
    cases hq : S.has q with
    | true =>
      -- another client was faster
      rw [SharedStore.createDir_of_has hq, afterCreate_alreadyExists made q todo rfl]
      exact ⟨made, 2 * todo.length, next split there hq, by omega, .inl ⟨rfl, rfl⟩⟩
    | false =>
      have hparent : ∀ d, q.parent? = some d → d = .empty ∨ S.has d = true := by
        intro d hd
        obtain hd | hd := Path.parent?_of_walked_eq_append split hd
        · exact .inl hd
        · exact .inr (there d hd)
      rw [SharedStore.createDir_of_parent hq hparent, afterCreate_ok]
      have there' : ∀ r ∈ passed, (S.add q).has r = true :=
        fun r hr => SharedStore.has_add_of_has (there r hr)
      have hmem : q ∈ p.walked := by rw [split]; simp
      exact ⟨made + 1, 2 * todo.length, next split there' (SharedStore.has_add.2 (.inl rfl)),
        by omega, .inr ⟨q, hmem, hq, rfl, rfl⟩⟩

end Standing

/-- The paths that clients walk with these destinations. -/
def walkedByAny {ι : Type} (paths : ι → Path) : Set Path :=
  {q | ∃ i, q ∈ (paths i).walked}

/-- Finitely many clients walk finitely many paths. -/
theorem finite_walkedByAny {ι : Type} [Finite ι] (paths : ι → Path) :
    (walkedByAny paths).Finite := by
  have hunion : walkedByAny paths = ⋃ i, {q | q ∈ (paths i).walked} := by
    ext q
    simp [walkedByAny]
  rw [hunion]
  exact Set.finite_iUnion fun i => List.finite_toSet _

/-- What holds after every call: each client stands on its own walk, the store holds what it held at
first and prefixes of walks, and the clients' counts add up to what is new in it. -/
structure Invariant {ι : Type} [Fintype ι] (start : SharedStore) (paths : ι → Path)
    (s : Shared SharedStore ι (Except PathError Nat)) (made left : ι → Nat) : Prop where
  standing : ∀ i, Standing s.store (paths i).walked (made i) (left i) (s.clients i)
  grown : start.paths ⊆ s.store.paths
  walked : s.store.paths ⊆ start.paths ∪ walkedByAny paths
  counted : ∑ i, made i = (s.store.paths \ start.paths).ncard

namespace Invariant

variable {ι : Type} [Fintype ι] [DecidableEq ι] {start : SharedStore} {paths : ι → Path}
  {s : Shared SharedStore ι (Except PathError Nat)} {made left : ι → Nat}

omit [DecidableEq ι] in
/-- Before the first call every client has all its prefixes to go. -/
theorem initial (start : SharedStore) (paths : ι → Path) :
    Invariant start paths ⟨start, fun i => ensure (paths i)⟩ (fun _ => 0)
      fun i => 2 * (paths i).walked.length where
  standing i := .probing (List.nil_append _).symm (by simp)
  grown := Set.Subset.refl _
  walked := Set.subset_union_left
  counted := by simp

/-- One call keeps the invariant and loses no path; the client that makes it has one call less to go,
and the others as many as before. -/
theorem turn (h : Invariant start paths s made left) (i : ι) :
    ∃ made' left', Invariant start paths (s.turn SharedStore.fileSystem i) made' left' ∧
      s.store.paths ⊆ (s.turn SharedStore.fileSystem i).store.paths ∧
      left' i ≤ left i - 1 ∧ ∀ j, j ≠ i → left' j = left j := by
  obtain ⟨n, l, hstanding, hleft, hstore⟩ := (h.standing i).step
  have hgrown : s.store.paths ⊆ (s.turn SharedStore.fileSystem i).store.paths := by
    obtain ⟨hsame, -⟩ | ⟨q, -, -, hadd, -⟩ := hstore
    · exact (congrArg SharedStore.paths hsame).ge
    · intro r hr
      exact (congrArg SharedStore.paths hadd).ge (SharedStore.has_add_of_has hr)
  have hclient : ∀ j, Standing (s.turn SharedStore.fileSystem i).store (paths j).walked
      (Function.update made i n j) (Function.update left i l j)
      ((s.turn SharedStore.fileSystem i).clients j) := by
    intro j
    by_cases hj : j = i
    · subst hj
      rw [Shared.clients_turn_self, Function.update_self, Function.update_self]
      exact hstanding
    · rw [Shared.clients_turn_of_ne _ _ hj, Function.update_of_ne hj, Function.update_of_ne hj]
      exact (h.standing j).mono hgrown
  refine ⟨Function.update made i n, Function.update left i l,
    ⟨hclient, h.grown.trans hgrown, ?_, ?_⟩, hgrown, by rwa [Function.update_self],
    fun j hj => Function.update_of_ne hj _ _⟩
  · show ((s.clients i).step SharedStore.fileSystem s.store).2.paths ⊆ _
    obtain ⟨hsame, -⟩ | ⟨q, hq, -, hadd, -⟩ := hstore
    · rw [hsame]
      exact h.walked
    · rw [hadd, SharedStore.paths_add]
      exact Set.insert_subset (.inr ⟨i, hq⟩) h.walked
  · show _ = (((s.clients i).step SharedStore.fileSystem s.store).2.paths \ start.paths).ncard
    obtain ⟨hsame, hn⟩ | ⟨q, hq, hnew, hadd, hn⟩ := hstore
    · rw [hsame, hn, Function.update_eq_self, h.counted]
    · have hfinite : (s.store.paths \ start.paths).Finite :=
        (finite_walkedByAny paths).subset (Set.sdiff_subset_iff.2 h.walked)
      have hq' : q ∉ s.store.paths := by simpa [SharedStore.paths] using hnew
      have hdiff : insert q s.store.paths \ start.paths =
          insert q (s.store.paths \ start.paths) :=
        Set.insert_sdiff_of_notMem _ fun hstart => hq' (h.grown hstart)
      rw [hadd, hn, SharedStore.paths_add, hdiff,
        Set.ncard_insert_of_notMem (fun hmem => hq' hmem.1) hfinite, ← h.counted,
        Finset.sum_update_of_mem (Finset.mem_univ i),
        Finset.sum_eq_add_sum_sdiff_singleton_of_mem (Finset.mem_univ i) made]
      omega

/-- The invariant holds after every schedule. The store has only grown, and every turn of a client has
left it fewer calls to go. -/
theorem run (h : Invariant start paths s made left) (schedule : List ι) :
    ∃ made' left', Invariant start paths (s.run SharedStore.fileSystem schedule) made' left' ∧
      s.store.paths ⊆ (s.run SharedStore.fileSystem schedule).store.paths ∧
      ∀ i, left' i ≤ left i - schedule.count i := by
  induction schedule generalizing s made left with
  | nil => exact ⟨made, left, h, Set.Subset.refl _, fun i => Nat.le_refl _⟩
  | cons i schedule ih =>
    obtain ⟨made₁, left₁, h₁, hgrown₁, hi, hothers⟩ := h.turn i
    obtain ⟨made₂, left₂, h₂, hgrown₂, hcount⟩ := ih h₁
    refine ⟨made₂, left₂, h₂, hgrown₁.trans hgrown₂, fun j => ?_⟩
    have hj := hcount j
    by_cases hji : j = i
    · subst hji
      rw [List.count_cons_self]
      omega
    · rw [List.count_cons_of_ne (Ne.symm hji), ← hothers j hji]
      exact hj

end Invariant

/-- **No race is lost.** Clients ensure paths of their own over one store, and make their calls in the
order of any schedule. Whoever has returned has no error, and all that it walked is in the store and
stays there. A client that had its turn often enough has returned. Once all have, the store holds what
it held at first and exactly the walked prefixes, and the counts add up to the number of new paths. -/
theorem ensurers_lose_no_race {ι : Type} [Fintype ι] [DecidableEq ι] (start : SharedStore)
    (paths : ι → Path) (schedule : List ι) :
    let s := (Shared.mk start fun i => ensure (paths i)).run SharedStore.fileSystem schedule
    (∀ i r, s.clients i = .done r → ∃ n, r = .ok n) ∧
    (∀ i r, s.clients i = .done r → ∀ q ∈ (paths i).walked, ∀ later : List ι,
      q ∈ (s.run SharedStore.fileSystem later).store.paths) ∧
    (∀ i, 2 * (paths i).walked.length ≤ schedule.count i → ∃ r, s.clients i = .done r) ∧
    ((∀ i, ∃ r, s.clients i = .done r) →
      s.store.paths = start.paths ∪ {q | ∃ i, q ∈ (paths i).walked} ∧
      ∃ counts : ι → Nat, (∀ i, s.clients i = .done (.ok (counts i))) ∧
        ∑ i, counts i = (s.store.paths \ start.paths).ncard) := by
  intro s
  obtain ⟨made, left, hs, -, hleft⟩ := (Invariant.initial start paths).run schedule
  have hdone : ∀ i r, s.clients i = .done r →
      r = .ok (made i) ∧ ∀ q ∈ (paths i).walked, s.store.has q = true := by
    intro i r hr
    have hstanding := hs.standing i
    rw [show Shared.clients _ i = .done r from hr] at hstanding
    exact hstanding.of_done
  refine ⟨fun i r hr => ⟨made i, (hdone i r hr).1⟩, fun i r hr q hq later => ?_, fun i hturns => ?_,
    fun hall => ⟨?_, made, fun i => ?_, hs.counted⟩⟩
  · obtain ⟨-, -, -, hgrown, -⟩ := hs.run later
    exact hgrown ((hdone i r hr).2 q hq)
  · have hstanding := hs.standing i
    -- With as many turns as calls at most, no call is left.
    have hzero : left i = 0 := by
      have := hleft i
      omega
    rw [hzero] at hstanding
    exact ⟨.ok (made i), hstanding.eq_done⟩
  · refine Set.Subset.antisymm hs.walked (Set.union_subset hs.grown ?_)
    rintro q ⟨i, hq⟩
    obtain ⟨r, hr⟩ := hall i
    exact (hdone i r hr).2 q hq
  · obtain ⟨r, hr⟩ := hall i
    rw [hr, (hdone i r hr).1]

/-- Both clients find nothing; the one whose creation comes second does not count it. -/
example :
    let s := (Shared.mk ⟨fun _ => false⟩ fun _ : Fin 2 => ensure ⟨[0x61]⟩).run
      SharedStore.fileSystem [0, 1, 0, 1]
    s.clients 0 = .done (.ok 1) ∧ s.clients 1 = .done (.ok 0) :=
  ⟨rfl, rfl⟩

end PortableLayout
