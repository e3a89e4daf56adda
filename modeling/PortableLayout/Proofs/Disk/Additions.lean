import Mathlib.Data.Set.Card
import PortableLayout.Proofs.Disk.Existence

/-!
# What a walk adds to a disk

One disk adds to another when it has the same entries and, at some locations, directories of its own
(`Disk.Adds`). Making a directory adds the one that its path leads to then, so a walk adds a directory for
each one that it counts, and nothing else happens to the tree (`walk_only_adds_directories`).

Where a path leads to is kept by additions (`Disk.Adds.leadsTo`). This is what ties a directory that a walk
made early, perhaps through links, to its prefix in the tree that the walk leaves.
-/

set_option autoImplicit false

namespace PortableLayout

/-- The locations at which `t'` has a node and `t` has none. -/
def Node.added (t t' : Node) : Set (List Bytes) :=
  {l | t.get? l = none ∧ t'.get? l ≠ none}

namespace Disk

/-- A path leads to the node at a location, links followed. -/
def LeadsTo (d : Disk) (p : Path) (l : List Bytes) : Prop :=
  ∃ q, d.locate p = .ok q ∧ q.location = l

/-- The disk `d'` is `d` with directories at these locations, where nothing was before. -/
structure Adds (d : Disk) (new : List (List Bytes)) (d' : Disk) : Prop where
  cwd : d'.cwd = d.cwd
  kept : d.top.Extends d'.top
  nodup : new.Nodup
  mem_iff : ∀ l, l ∈ new ↔ l ∈ d.top.added d'.top
  isDir : ∀ l ∈ new, ∀ n, d'.top.get? l = some n → n.isDir = true

variable {d d₁ d' : Disk} {p : Path} {ps : List Path} {l : List Bytes} {new new' : List (List Bytes)}
  {q : Position} {name : Bytes} {n : Nat} {result : Except PathError Nat}

/-- A path that leads somewhere leads to the same place once the tree has more entries. -/
theorem locate_of_extends (hcwd : d'.cwd = d.cwd) (hext : d.top.Extends d'.top)
    (h : d.locate p = .ok q) : ∃ q', d'.locate p = .ok q' ∧ Twins d.top d'.top q q' := by
  obtain ⟨hcheck, s, hs, hf⟩ := locate_eq_ok_iff.1 h
  obtain ⟨s', hs', hstart⟩ := start_of_extends hcwd hext hs
  obtain ⟨q', hf', htwins⟩ := hstart.follow hext hf
  exact ⟨q', locate_eq_ok_iff.2 ⟨hcheck, s', hs', hf'⟩, htwins⟩

namespace Adds

/-- Nothing was added to a disk that is as it was. -/
theorem refl (d : Disk) : d.Adds [] d where
  cwd := rfl
  kept := .refl d.top
  nodup := .nil
  mem_iff l := by
    refine iff_of_false (List.not_mem_nil) ?_
    rintro ⟨hnone, hsome⟩
    exact hsome hnone
  isDir l hl := absurd hl List.not_mem_nil

/-- Nothing that was there is lost. -/
theorem get?_ne_none (h : d.Adds new d') (hl : d.top.get? l ≠ none) : d'.top.get? l ≠ none := by
  obtain ⟨n, hn⟩ := Option.ne_none_iff_exists'.1 hl
  obtain ⟨n', hn', -⟩ := h.kept l n hn
  rw [hn']
  exact Option.some_ne_none n'

/-- After an addition those locations are taken that were added and those that were taken before. -/
theorem get?_ne_none_iff (h : d.Adds new d') : d'.top.get? l ≠ none ↔ l ∈ new ∨ d.top.get? l ≠ none := by
  rw [h.mem_iff]
  constructor
  · intro hl
    by_cases hnone : d.top.get? l = none
    · exact .inl ⟨hnone, hl⟩
    · exact .inr hnone
  · rintro (hl | hl)
    · exact hl.2
    · exact h.get?_ne_none hl

/-- What is free and not among the additions stays free. -/
theorem get?_eq_none (h : d.Adds new d') (hl : l ∉ new) (hnone : d.top.get? l = none) :
    d'.top.get? l = none := by
  by_contra hsome
  obtain hnew | hold := h.get?_ne_none_iff.1 hsome
  · exact hl hnew
  · exact hold hnone

/-- At each of the new locations there is a directory. -/
theorem exists_dir (h : d.Adds new d') (hl : l ∈ new) : ∃ entries, d'.top.get? l = some (.dir entries) := by
  obtain ⟨n, hn⟩ := Option.ne_none_iff_exists'.1 (h.get?_ne_none_iff.2 (.inl hl))
  have hdir := h.isDir l hl n hn
  cases n with
  | dir entries => exact ⟨entries, hn⟩
  | file content => cases hdir
  | link target => cases hdir

/-- Additions one after the other are one addition. -/
theorem trans (h : d.Adds new d₁) (h' : d₁.Adds new' d') : d.Adds (new ++ new') d' where
  cwd := h'.cwd.trans h.cwd
  kept := h.kept.trans h'.kept
  nodup := by
    refine List.nodup_append'.2 ⟨h.nodup, h'.nodup, ?_⟩
    intro l hl hl'
    exact ((h.mem_iff l).1 hl).2 ((h'.mem_iff l).1 hl').1
  mem_iff l := by
    rw [List.mem_append, h.mem_iff, h'.mem_iff]
    constructor
    · rintro (⟨hnone, hsome⟩ | ⟨hnone, hsome⟩)
      · exact ⟨hnone, h'.get?_ne_none hsome⟩
      · exact ⟨of_not_not fun hsome' => h.get?_ne_none hsome' hnone, hsome⟩
    · rintro ⟨hnone, hsome⟩
      by_cases hmid : d₁.top.get? l = none
      · exact .inr ⟨hmid, hsome⟩
      · exact .inl ⟨hnone, hmid⟩
  isDir l hl n' hn' := by
    obtain hl | hl := List.mem_append.1 hl
    · obtain ⟨n, hn⟩ := Option.ne_none_iff_exists'.1 ((h.mem_iff l).1 hl).2
      obtain ⟨m, hm, hsame⟩ := h'.kept l n hn
      cases hn'.symm.trans hm
      rw [hsame.isDir_eq]
      exact h.isDir l hl n hn
    · exact h'.isDir l hl n' hn'

/-- Additions change nothing about where a path leads. -/
theorem leadsTo (h : d.Adds new d') (hp : d.LeadsTo p l) : d'.LeadsTo p l := by
  obtain ⟨q, hq, rfl⟩ := hp
  obtain ⟨q', hq', htwins⟩ := locate_of_extends h.cwd h.kept hq
  exact ⟨q', hq', htwins.location.symm⟩

/-- The added locations are as many as the list has. -/
theorem encard_added (h : d.Adds new d') : (d.top.added d'.top).encard = new.length := by
  have hset : d.top.added d'.top = {l | l ∈ new} := by
    ext l
    exact (h.mem_iff l).symm
  rw [hset, ← List.coe_toFinset, Set.encard_coe_eq_coe_finsetCard, List.toFinset_card_of_nodup h.nodup]

end Adds

/-! ## One directory -/

/-- An empty directory that is put under a new name is all that is added. -/
theorem adds_put (hq : q.In d.top) (hdir : q.node.isDir = true) (hnew : q.node.child? name = none) :
    d.Adds [q.location ++ [name]] (d.put q name .emptyDir) := by
  obtain ⟨hext, r, htwins, hchild⟩ := Position.extends_put hq hdir hnew .emptyDir
  have hmissing : d.top.get? (q.location ++ [name]) = none := by
    rw [Node.get?_append, hq.get?_location]
    exact hnew
  have hmade : (d.put q name .emptyDir).top.get? (q.location ++ [name]) = some .emptyDir := by
    show (q.down name .emptyDir).rebuild.get? _ = _
    rw [Node.get?_append, htwins.location, htwins.right.get?_location]
    exact hchild
  -- An empty directory has no location but its own.
  have hempty : ∀ l, (Node.emptyDir.get? l).isSome →
      (∃ c, q.node.child? name = some c ∧ (c.get? l).isSome) ∨ l = [] := by
    intro l hl
    cases l with
    | nil => exact .inr rfl
    | cons m l => cases hl
  have honly := Position.isSome_get?_plug hq (Node.isSome_get?_setChild hdir hempty)
  refine ⟨rfl, hext, List.nodup_singleton _, ?_, ?_⟩
  · intro l
    rw [List.mem_singleton]
    constructor
    · rintro rfl
      exact ⟨hmissing, by rw [hmade]; exact Option.some_ne_none _⟩
    · rintro ⟨hnone, hsome⟩
      obtain hold | hl := honly l (Option.isSome_iff_ne_none.2 hsome)
      · exact absurd hnone (Option.isSome_iff_ne_none.1 hold)
      · exact hl
  · intro l hl n hn
    rw [List.mem_singleton.1 hl, hmade] at hn
    cases hn
    rfl

/-- Making a directory adds the one that its path leads to then. -/
theorem adds_of_makeDir (h : d.makeDir p = .ok d') : ∃ l, d.Adds [l] d' ∧ d'.LeadsTo p l := by
  obtain ⟨q, last, r, hparent, rfl, htwins, hnew, -, hlocate⟩ := locate_of_made h
  obtain ⟨-, hdir, -⟩ := locateParent_eq_ok hparent
  refine ⟨q.location ++ [last], adds_put (in_of_locateParent hparent) hdir hnew, _, hlocate, ?_⟩
  rw [Position.location_down, htwins.location]

/-! ## Walks -/

/-- A walk over `ps` that came to `result` got past the prefixes `before`. -/
def GotPast (ps before : List Path) : Except PathError Nat → Prop
  | .ok _ => before = ps
  | .error failure =>
    ∃ q after e, ps = before ++ q :: after ∧ (failure = .unverifiable q e ∨ failure = .createDir q e)

/-- A walk that begins one prefix earlier got past that prefix too. -/
theorem GotPast.cons {before : List Path} (h : GotPast ps before result) (p : Path) :
    GotPast (p :: ps) (p :: before) result := by
  cases result with
  | ok c => exact congrArg (p :: ·) h
  | error failure =>
    obtain ⟨q, after, e, hps, hfailure⟩ := h
    exact ⟨q, after, e, congrArg (p :: ·) hps, hfailure⟩

/-- A walk that fails at its first prefix got past none. -/
theorem FailsAt.gotPast {failure : PathError} (h : d.FailsAt p failure) (ps : List Path) :
    GotPast (p :: ps) [] (.error failure) := by
  cases h with
  | @probe e answer => exact ⟨p, ps, e, rfl, .inl rfl⟩
  | @create e missing answer kind => exact ⟨p, ps, e, rfl, .inr rfl⟩

/-- What a walk adds are directories that the prefixes lead to which it got past, and if it gets to its end
it counts them. -/
theorem adds_of_run_ensureFrom (n : Nat) (ps : List Path) (d : Disk) :
    ∃ before new, GotPast ps before ((ensureFrom n ps).run fileSystem d).1 ∧
      d.Adds new ((ensureFrom n ps).run fileSystem d).2 ∧
      (∀ l ∈ new, ∃ p ∈ before, ((ensureFrom n ps).run fileSystem d).2.LeadsTo p l) ∧
      ∀ c, ((ensureFrom n ps).run fileSystem d).1 = .ok c → c = n + new.length := by
  induction ps generalizing n d with
  | nil =>
    refine ⟨[], [], rfl, .refl d, nofun, ?_⟩
    intro c hc
    cases hc
    rfl
  | cons p ps ih =>
    -- A prefix that is passed adds nothing, be it there or not.
    have hpassed (hrun : (ensureFrom n (p :: ps)).run fileSystem d = (ensureFrom n ps).run fileSystem d) :
        ∃ before new, GotPast (p :: ps) before ((ensureFrom n (p :: ps)).run fileSystem d).1 ∧
          d.Adds new ((ensureFrom n (p :: ps)).run fileSystem d).2 ∧
          (∀ l ∈ new, ∃ q ∈ before, ((ensureFrom n (p :: ps)).run fileSystem d).2.LeadsTo q l) ∧
          ∀ c, ((ensureFrom n (p :: ps)).run fileSystem d).1 = .ok c → c = n + new.length := by
      obtain ⟨before, new, hpast, hadds, hleads, hcount⟩ := ih n d
      rw [hrun]
      refine ⟨p :: before, new, hpast.cons p, hadds, ?_, hcount⟩
      intro l hl
      obtain ⟨q, hq, hlead⟩ := hleads l hl
      exact ⟨q, List.mem_cons_of_mem p hq, hlead⟩
    obtain ⟨-, hrun⟩ | ⟨after, -, hmake, hrun⟩ | ⟨e, -, -, -, hrun⟩ | ⟨failure, hfail, hrun⟩ :=
      run_ensureFrom_cons_cases n p ps d
    · exact hpassed hrun
    · obtain ⟨l₀, hfirst, hmade⟩ := adds_of_makeDir hmake
      obtain ⟨before, new, hpast, hadds, hleads, hcount⟩ := ih (n + 1) after
      rw [hrun]
      refine ⟨p :: before, l₀ :: new, hpast.cons p, hfirst.trans hadds, ?_, ?_⟩
      · intro l hl
        obtain rfl | hl := List.mem_cons.1 hl
        · exact ⟨p, List.mem_cons_self, hadds.leadsTo hmade⟩
        · obtain ⟨q, hq, hlead⟩ := hleads l hl
          exact ⟨q, List.mem_cons_of_mem p hq, hlead⟩
      · intro c hc
        have := hcount c hc
        rw [List.length_cons]
        omega
    · exact hpassed hrun
    · rw [hrun]
      refine ⟨[], [], hfail.gotPast ps, .refl d, nofun, ?_⟩
      intro c hc
      cases hc

end Disk

/-- **A walk harms nothing.** Whatever it comes to, every entry that was there is there still, of the same
kind, with the same content or target, and every new entry is a directory. A walk that gets to its end counts
the new entries. One that fails does so at a prefix, and each new entry is a directory that a prefix before
that one leads to in the end. -/
theorem walk_only_adds_directories (d : Disk) (p : Path) :
    let r := (ensure p).run Disk.fileSystem d
    d.top.Extends r.2.top ∧
    (∀ l ∈ d.top.added r.2.top, ∃ entries, r.2.top.get? l = some (.dir entries)) ∧
    (∀ c, r.1 = .ok c → (d.top.added r.2.top).encard = c) ∧
    ∀ failure, r.1 = .error failure → ∃ before q after e,
      p.walked = before ++ q :: after ∧ (failure = .unverifiable q e ∨ failure = .createDir q e) ∧
        ∀ l ∈ d.top.added r.2.top, ∃ b ∈ before, r.2.LeadsTo b l := by
  intro r
  obtain ⟨before, new, hpast, hadds, hleads, hcount⟩ := Disk.adds_of_run_ensureFrom 0 p.walked d
  refine ⟨hadds.kept, ?_, ?_, ?_⟩
  · intro l hl
    exact hadds.exists_dir ((hadds.mem_iff l).2 hl)
  · intro c hc
    have hlength := hcount c hc
    rw [Nat.zero_add] at hlength
    rw [hlength]
    exact hadds.encard_added
  · intro failure hfailure
    have hfailure' : ((ensureFrom 0 p.walked).run Disk.fileSystem d).1 = .error failure := hfailure
    rw [hfailure'] at hpast
    obtain ⟨q, after, e, hwalked, hcause⟩ := hpast
    refine ⟨before, q, after, e, hwalked, hcause, ?_⟩
    intro l hl
    exact hleads l ((hadds.mem_iff l).2 hl)

end PortableLayout
