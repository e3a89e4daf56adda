import PortableLayout.Proofs.Disk.Prefixes

/-!
# Walks on trees without links

On a tree without symbolic links a path leads one component further at a time, and three things can be found
there: an entry, a directory that has no such entry, or a regular file that has nothing below it
(`Disk.reach_concat_cases`). So a walk makes every directory that is missing, and what stops it is a file
before the last prefix and nothing else (`walk_makes_what_is_missing`). A `..` may lead through directories
that the walk has only just made, which is why all of this is said of the tree that the walk leaves.
-/

set_option autoImplicit false

namespace PortableLayout

open PortableLayout.Path (spell)

namespace Node

/-- All nodes of a tree are such, the top included. -/
def Everywhere (P : Node → Prop) (t : Node) : Prop :=
  ∀ l n, t.get? l = some n → P n

/-- A tree without symbolic links. -/
def Unlinked (t : Node) : Prop :=
  t.Everywhere fun n => ∀ target, n ≠ .link target

variable {P : Node → Prop}

/-- What holds of a directory and of all the nodes in its entries holds everywhere. -/
theorem everywhere_dir {entries : List (Bytes × Node)} (h : P (.dir entries))
    (hall : ∀ e ∈ entries, e.2.Everywhere P) : (Node.dir entries).Everywhere P := by
  intro l n hn
  cases l with
  | nil =>
    cases hn
    exact h
  | cons name l =>
    obtain ⟨c, hc, hcl⟩ := Option.bind_eq_some_iff.1 hn
    obtain ⟨before, after, hentries, -⟩ := List.lookup_eq_some_iff.1 hc
    exact hall (name, c) (by rw [hentries]; simp) l n hcl

/-- What holds of a file holds everywhere in it, since it has no entries. -/
theorem everywhere_file {content : Bytes} (h : P (.file content)) : (Node.file content).Everywhere P := by
  intro l n hn
  cases l with
  | nil =>
    cases hn
    exact h
  | cons name l => cases hn

/-- A directory without links in its entries is a tree without links. -/
theorem unlinked_dir {entries : List (Bytes × Node)} (hall : ∀ e ∈ entries, e.2.Unlinked) :
    (Node.dir entries).Unlinked := by
  apply everywhere_dir ?_ hall
  intro target h
  cases h

/-- A file is a tree without links. -/
theorem unlinked_file (content : Bytes) : (Node.file content).Unlinked := by
  apply everywhere_file
  intro target h
  cases h

end Node

namespace Disk

/-- The working directory is a directory of the tree. -/
def HasCwd (d : Disk) : Prop :=
  ∃ entries, d.top.get? d.cwd = some (.dir entries)

variable {d d' : Disk} {p : Path} {cs ds : List Component} {c : Component} {q : Position}
  {new : List (List Bytes)} {m : Nat}

/-- What is so of every node, whatever it holds, and of directories stays so when directories are added. -/
theorem Adds.everywhere {P : Node → Prop} (h : d.Adds new d')
    (hsame : ∀ a b : Node, a.SameEntry b → P a → P b) (hdir : ∀ n : Node, n.isDir = true → P n)
    (hP : d.top.Everywhere P) : d'.top.Everywhere P := by
  intro l n' hn'
  cases hn : d.top.get? l with
  | none =>
    have hl : l ∈ new := (h.mem_iff l).2 ⟨hn, by rw [hn']; exact Option.some_ne_none n'⟩
    exact hdir n' (h.isDir l hl n' hn')
  | some n =>
    obtain ⟨m, hm, hnm⟩ := h.kept l n hn
    cases hn'.symm.trans hm
    exact hsame n n' hnm (hP l n hn)

/-- Added directories are no links. -/
theorem Adds.unlinked (h : d.Adds new d') (hlinks : d.top.Unlinked) : d'.top.Unlinked := by
  refine h.everywhere ?_ ?_ hlinks
  · intro a b hab ha target hb
    subst hb
    cases hab
    exact ha target rfl
  · intro n hdir target hn
    rw [hn] at hdir
    cases hdir

/-- With a working directory in the tree, each lookup starts at a directory. -/
theorem start_of_hasCwd (h : d.HasCwd) (p : Path) : ∃ s, d.start p = .ok s ∧ s.node.isDir = true := by
  obtain ⟨entries, hcwd⟩ := h
  have htop : d.top.isDir = true := by
    cases hl : d.cwd with
    | nil =>
      rw [hl] at hcwd
      rw [Option.some.inj hcwd]
      rfl
    | cons name l =>
      rw [hl] at hcwd
      obtain ⟨c, hc, -⟩ := Option.bind_eq_some_iff.1 hcwd
      exact Node.isDir_of_child? hc
  obtain ⟨s, hs, -, -, hnode⟩ := Position.find?_of_get? (p := .top d.top) .top hcwd
  rw [start]
  by_cases habs : p.isAbsolute = true
  · exact ⟨.top d.top, by rw [if_pos habs], htop⟩
  · refine ⟨s, ?_, ?_⟩
    · rw [if_neg habs, hs]
    · rw [hnode]
      rfl

/-! ## One component further -/

/-- Without links, what is reached and is no directory is a file. -/
theorem isFile_of_reach (hlinks : d.top.Unlinked) (h : d.reach p cs = .ok q) (hdir : q.node.isDir = false) :
    ∃ content, q.node = .file content := by
  cases hnode : q.node with
  | dir entries =>
    rw [hnode] at hdir
    cases hdir
  | file content => exact ⟨content, rfl⟩
  | link target => exact absurd hnode (hlinks _ _ (in_of_reach h).get?_location target)

/-- What can be found one component further: nothing, because it would have to be below a file; an entry; or
a directory that has no entry of the name. -/
theorem reach_concat_cases (hlinks : d.top.Unlinked) (hp : p.WithinLimits)
    (hcs : cs ++ [c] <+: p.components) (hq : d.reach p cs = .ok q) :
    (q.node.isDir = false ∧ d.reach p (cs ++ [c]) = .error .notADirectory) ∨
      (∃ r, d.reach p (cs ++ [c]) = .ok r) ∨
      (q.node.isDir = true ∧ d.reach p (cs ++ [c]) = .error .noEntry ∧
        ∃ n, c = .name n ∧ q.node.child? n = none) := by
  obtain ⟨k, hk⟩ := reach_append hq
  have hreach : d.reach p (cs ++ [c]) = follow d.top k q [c.piece] := hk [c]
  rw [hreach]
  cases hdir : q.node.isDir with
  | false => exact .inl ⟨rfl, follow_of_failed (by rw [stride, if_pos hdir])⟩
  | true =>
    -- The root, `.` and `..` lead on in any directory.
    have hstep {r : Position} (h : q.Step c.piece r) : ∃ r, follow d.top k q [c.piece] = .ok r :=
      ⟨r, follow_of_arrived (stride_of_step h [])⟩
    cases c with
    | root => exact .inr (.inl (hstep (.stay hdir rfl)))
    | here => exact .inr (.inl (hstep (.stay hdir rfl)))
    | up => exact .inr (.inl (hstep (.up hdir rfl)))
    | name n =>
      have hinner := (listed_of_isPrefix hcs).isInner_name (n := n) (by simp)
      have hshort : n.length ≤ maxNameBytes := hp.shortNames n (hcs.subset (by simp))
      cases hchild : q.node.child? n with
      | none =>
        have hmissing : stride q [n] = .failed .noEntry :=
          stride_of_missing hdir hinner.1 hinner.2.1 hshort hchild []
        exact .inr (.inr ⟨rfl, follow_of_failed hmissing, n, rfl, hchild⟩)
      | some child =>
        obtain hdown | ⟨target, rfl, -⟩ := Position.step_or_meets hinner.1 hinner.2.1 hshort hchild
        · exact .inr (.inl (hstep hdown))
        · have hlink : (q.down n (.link target)).In d.top := .down (in_of_reach hq) hchild
          exact absurd rfl (hlinks _ _ hlink.get?_location target)

/-- What the calls at one prefix more come to: nothing is below a file, and a directory that is missing in a
directory can be made. -/
theorem probe_spell_cases (hlinks : d.top.Unlinked) (hp : p.WithinLimits)
    (hcs : cs ++ [c] <+: p.components) (hq : d.reach p cs = .ok q) :
    ((∃ content, q.node = .file content) ∧
      d.probe (spell (cs ++ [c])) = .error (.system .notADirectory)) ∨
    (d.probe (spell (cs ++ [c])) = .ok true ∧ ∃ r, d.reach p (cs ++ [c]) = .ok r) ∨
    (d.probe (spell (cs ++ [c])) = .ok false ∧
      ∃ after r, d.makeDir (spell (cs ++ [c])) = .ok after ∧ after.reach p (cs ++ [c]) = .ok r) := by
  have hne : cs ++ [c] ≠ [] := by simp
  have hlocate : d.locate (spell (cs ++ [c])) = (d.reach p (cs ++ [c])).mapError .system :=
    locate_spell hp hcs hne
  obtain ⟨hnot, herror⟩ | ⟨r, hr⟩ | ⟨hdir, herror, name, rfl, hnew⟩ := reach_concat_cases hlinks hp hcs hq
  · refine .inl ⟨isFile_of_reach hlinks hq hnot, ?_⟩
    rw [probe, hlocate, herror]
    rfl
  · refine .inr (.inl ⟨?_, r, hr⟩)
    rw [probe, hlocate, hr]
    rfl
  · obtain ⟨after, hmake⟩ := makeDir_spell hp hcs hq hdir hnew
    obtain ⟨_, _, r, -, -, -, -, -, hmade⟩ := locate_of_made hmake
    refine .inr (.inr ⟨?_, after, _, hmake, (locate_spell_eq_ok_iff hp hcs hne).1 hmade⟩)
    rw [probe, hlocate, herror]
    rfl

/-! ## The walk -/

/-- A walk that has come to a prefix either gets to the end of its path or stops right behind a file. -/
theorem run_walkedFrom_cases (hlinks : d.top.Unlinked) (hp : p.WithinLimits) (hcs : cs ++ ds = p.components)
    (hq : d.reach p cs = .ok q) (n : Nat) :
    let r := (ensureFrom n ((spell cs).walkedFrom ds)).run fileSystem d
    (∃ m q', r.1 = .ok m ∧ r.2.reach p p.components = .ok q') ∨
      ∃ before c after q' content, p.components = before ++ c :: after ∧
        r.1 = .error (.unverifiable (spell (before ++ [c])) (.system .notADirectory)) ∧
        r.2.reach p before = .ok q' ∧ q'.node = .file content := by
  induction ds generalizing cs d q n with
  | nil =>
    rw [List.append_nil] at hcs
    subst hcs
    exact .inl ⟨n, q, rfl, hq⟩
  | cons c ds ih =>
    have hnext : (cs ++ [c]) ++ ds = p.components := by rw [← hcs, List.append_assoc]; rfl
    have hupto : cs ++ [c] <+: p.components := ⟨ds, hnext⟩
    have hwalked : (spell cs).walkedFrom (c :: ds) = spell (cs ++ [c]) :: (spell (cs ++ [c])).walkedFrom ds := by
      rw [Path.walkedFrom, Path.spell_append_singleton]
    rw [hwalked]
    rw [run_ensureFrom_cons]
    obtain ⟨⟨content, hfile⟩, hprobe⟩ | ⟨hprobe, r, hr⟩ | ⟨hprobe, after, r, hmake, hr⟩ :=
      probe_spell_cases hlinks hp hupto hq
    · rw [hprobe, afterProbe_error _ _ _ (by decide) (by decide)]
      exact .inr ⟨cs, c, ds, q, content, hcs.symm, rfl, hq, hfile⟩
    · rw [hprobe, afterProbe_true]
      exact ih hlinks hnext hr n
    · obtain ⟨l, hadds, -⟩ := adds_of_makeDir hmake
      rw [hprobe, afterProbe_false, run_createDir, createDir_of_makeDir hmake, afterCreate_ok]
      exact ih (hadds.unlinked hlinks) hnext hr (n + 1)

/-- Every prefix but the last of those that are reached is a directory. -/
theorem isDir_getElem_walked (hp : p.WithinLimits) (hcs : cs <+: p.components)
    (h : d.reach p cs = .ok q) {i : Nat} (hi : i < p.walked.length) (hshorter : i + 1 < cs.length) :
    d.isDir p.walked[i] = true := by
  have htake : p.components.take (i + 1) = cs.take (i + 1) := by
    obtain ⟨ds, hds⟩ := hcs
    rw [← hds, List.take_append_of_le_length (Nat.le_of_lt hshorter)]
  have hupto : cs.take (i + 1) <+: p.components := (List.take_prefix _ _).trans hcs
  have hne : cs.take (i + 1) ≠ [] := by
    intro hnil
    have hzero := congrArg List.length hnil
    rw [List.length_take, List.length_nil] at hzero
    omega
  rw [← List.take_append_drop (i + 1) cs, List.drop_eq_getElem_cons hshorter] at h
  rw [Path.getElem_walked, htake, isDir_spell_iff hp hupto hne]
  exact isDir_of_reach h

/-- A walk gets to the end of its path or stops behind the first prefix that is a file. -/
theorem run_walked_cases (hcwd : d.HasCwd) (hlinks : d.top.Unlinked) (hp : p.WithinLimits) :
    let r := (ensure p).run fileSystem d
    (∃ m q', r.1 = .ok m ∧ r.2.reach p p.components = .ok q') ∨
      ∃ (k : Nat) (hk : k + 1 < p.walked.length),
        r.1 = .error (.unverifiable p.walked[k + 1] (.system .notADirectory)) ∧
          r.2.HoldsFile p.walked[k] ∧ ∀ (j : Nat) (hj : j < k), r.2.isDir p.walked[j] = true := by
  intro r
  obtain ⟨s, hs, hsdir⟩ := start_of_hasCwd hcwd p
  have hstart : d.reach p [] = .ok s := lookupPieces_eq_ok_iff.2 ⟨s, hs, rfl⟩
  obtain ⟨-, new, -, hadds, -⟩ := adds_of_run_ensureFrom 0 p.walked d
  obtain hdone | ⟨before, c, after, found, content, hsplit, herror, hfound, hfile⟩ :=
    run_walkedFrom_cases hlinks hp rfl hstart 0
  · exact .inl hdone
  have hupto : before <+: p.components := ⟨c :: after, hsplit.symm⟩
  -- The walk starts in a directory, so that the file is at one of the prefixes.
  have hne : before ≠ [] := by
    rintro rfl
    obtain ⟨s', hs', htwins⟩ := hadds.reach hstart
    cases hs'.symm.trans hfound
    have hkept := (htwins.sameEntry hadds.kept).isDir_eq
    rw [hfile, hsdir] at hkept
    cases hkept
  obtain ⟨k, hk⟩ : ∃ k, before.length = k + 1 :=
    Nat.exists_eq_succ_of_ne_zero fun h => hne (List.length_eq_zero_iff.1 h)
  have hlength : p.walked.length = before.length + (after.length + 1) := by
    rw [Path.length_walked, hsplit, List.length_append, List.length_cons]
  have hpast : k + 1 < p.walked.length := by omega
  have hupfile : p.walked[k] = spell before := by
    rw [Path.getElem_walked, hsplit, ← hk, List.take_left]
  refine .inr ⟨k, hpast, ?_, ?_, ?_⟩
  · rw [Path.getElem_walked, hsplit, ← hk, List.take_length_add_append]
    exact herror
  · rw [hupfile]
    exact (holdsFile_spell_iff hp hupto hne).2 ⟨found, content, hfound, hfile⟩
  · intro j hj
    exact isDir_getElem_walked hp hupto hfound _ (by omega)

end Disk

/-- **A walk makes what is missing** on a tree without links, and nothing but a file can stop it. No
directory is refused to it. Where a prefix other than the last one is a regular file in the tree that is left,
the walk ended behind the first such prefix. Where none is, the walk got to its end, all prefixes before the
last one are directories, the last one is there, and the new entries have been counted. -/
theorem walk_makes_what_is_missing (d : Disk) (p : Path) (hcwd : d.HasCwd) (hlinks : d.top.Unlinked)
    (hp : p.WithinLimits) :
    let r := (ensure p).run Disk.fileSystem d
    (∀ q e, r.1 ≠ .error (.createDir q e)) ∧
    (∀ (i : Nat) (hi : i + 1 < p.walked.length), r.2.HoldsFile p.walked[i] →
      (∀ (j : Nat) (hj : j < i), ¬ r.2.HoldsFile p.walked[j]) →
        r.1 = .error (.unverifiable p.walked[i + 1] (.system .notADirectory))) ∧
    ((∀ (i : Nat) (hi : i + 1 < p.walked.length), ¬ r.2.HoldsFile p.walked[i]) →
      ∃ c : Nat, r.1 = .ok c ∧
        (∀ (i : Nat) (hi : i + 1 < p.walked.length), r.2.isDir p.walked[i] = true) ∧
        (∀ q, p.walked.getLast? = some q → ∃ found, r.2.locate q = .ok found) ∧
        (d.top.added r.2.top).encard = c) := by
  intro r
  obtain ⟨-, new, -, hadds, -, hcount⟩ := Disk.adds_of_run_ensureFrom 0 p.walked d
  obtain ⟨c, found, hok, hfound⟩ | ⟨k, hk, herror, hheld, hdirs⟩ := Disk.run_walked_cases hcwd hlinks hp
  · -- All of the path is there, so that no prefix before the last one is a file.
    have hrun : r.1 = .ok c := hok
    have hdirs : ∀ (i : Nat) (hi : i + 1 < p.walked.length), r.2.isDir p.walked[i] = true := by
      intro i hi
      exact Disk.isDir_getElem_walked hp List.prefix_rfl hfound _ (by simpa using hi)
    refine ⟨?_, ?_, ?_⟩
    · intro q e h
      rw [hrun] at h
      cases h
    · intro i hi hheld
      exact absurd hheld (Disk.not_holdsFile_of_isDir (hdirs i hi))
    · intro _
      refine ⟨c, hrun, hdirs, ?_, ?_⟩
      · intro q hq
        have hne : p ≠ .empty := by
          rintro rfl
          cases hq
        rw [Path.getLast?_walked hne] at hq
        cases hq
        have hcomponents : p.components ≠ [] := fun h => hne (Path.components_eq_nil_iff.1 h)
        exact ⟨found, (Disk.locate_spell_eq_ok_iff hp List.prefix_rfl hcomponents).2 hfound⟩
      · have hlength := hcount c hok
        rw [Nat.zero_add] at hlength
        rw [hlength]
        exact hadds.encard_added
  · have hrun : r.1 = .error (.unverifiable p.walked[k + 1] (.system .notADirectory)) := herror
    refine ⟨?_, ?_, ?_⟩
    · intro q e h
      rw [hrun] at h
      cases h
    · intro i hi hheld' hleast
      -- Above the prefix that stopped the walk there are directories only.
      obtain hlt | rfl | hgt := Nat.lt_trichotomy i k
      · exact absurd hheld' (Disk.not_holdsFile_of_isDir (hdirs i hlt))
      · exact hrun
      · exact absurd hheld (hleast k hgt)
    · intro hnone
      exact absurd hheld (hnone k hk)

/-- Through a directory that it makes on its way, a walk comes to a file and stops behind it. -/
theorem walk_stops_behind_file :
    let name (text : String) : Bytes := Text.Utf8.encode text
    let d : Disk := .ofTree (.dir [(name "a", .dir [(name "f", .file [])])])
    let p : Path := .ofString "a/x/.././f/b"
    let r := (ensure p).run Disk.fileSystem d
    d.HasCwd ∧ d.top.Unlinked ∧ p.WithinLimits ∧ r.2.isDir (.ofString "a/x") = true ∧
      r.1 = .error (.unverifiable (.ofString "a/x/../f/b") (.system .notADirectory)) := by
  intro name d p r
  have hcwd : d.HasCwd := ⟨_, rfl⟩
  have hlinks : d.top.Unlinked := by
    apply Node.unlinked_dir
    intro e he
    rw [List.mem_singleton.1 he]
    apply Node.unlinked_dir
    intro e he
    rw [List.mem_singleton.1 he]
    exact Node.unlinked_file []
  have hp : p.WithinLimits := by decide
  have hdirs : ∀ q ∈ p.walked.take 3, r.2.isDir q = true := by decide +kernel
  have hfile : r.2.HoldsFile p.walked[3] := by
    have hprobe : r.2.probe p.walked[3] = .ok true := by decide +kernel
    have hnot : ¬ r.2.isDir p.walked[3] = true := by decide +kernel
    exact (Disk.isDir_or_holdsFile_of_probe hprobe).resolve_left hnot
  obtain ⟨-, hstopped, -⟩ := walk_makes_what_is_missing d p hcwd hlinks hp
  refine ⟨hcwd, hlinks, hp, hdirs (.ofString "a/x") (by decide), ?_⟩
  apply hstopped 3 (by decide) hfile
  intro j hj
  have hlength : p.walked.length = 5 := by decide
  have hin : j < p.walked.length := by omega
  have hmem : p.walked[j] ∈ p.walked.take 3 := List.mem_take_iff_getElem.2 ⟨j, by omega, rfl⟩
  exact Disk.not_holdsFile_of_isDir (hdirs _ hmem)

end PortableLayout
