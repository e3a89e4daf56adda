import PortableLayout.Proofs.Disk.Spellings
import PortableLayout.Proofs.Path.Walked
import PortableLayout.Proofs.Walk.Steps
import PortableLayout.Proofs.Table.Looks

/-!
# When a resolved directory exists

A walk looks only whether *something* is at each prefix, and it looks at prefixes in their normal
spelling. What it leaves behind is decided at the last prefix, by one of three things: something was
there, or the directory was made, or it could not be made because a link that leads nowhere is in its
place. So a resolved path leads to a directory unless it is empty or too long, or names a file or such a
link (`resolved_directory_exists_iff`).
-/

set_option autoImplicit false

namespace PortableLayout

namespace Disk

variable {d d' : Disk} {p : Path} {n c : Nat}

/-- A walk on a disk begins with the answer of its first prefix. -/
theorem run_ensureFrom_cons (n : Nat) (p : Path) (ps : List Path) (d : Disk) :
    (ensureFrom n (p :: ps)).run fileSystem d =
      (afterProbe n p ps (d.probe p)).run fileSystem d :=
  rfl

/-- Making a directory goes on with its outcome on the disk that it leaves. -/
theorem run_createDir (p : Path) (next : Except IoError Unit → Dialogue (Except PathError Nat))
    (d : Disk) :
    (Dialogue.createDir p next).run fileSystem d =
      (next (d.createDir p).1).run fileSystem (d.createDir p).2 :=
  rfl

/-- A walk that comes to `p` ends there with a failure. -/
inductive FailsAt (d : Disk) (p : Path) : PathError → Prop
  | probe {e : IoError} (answer : d.probe p = .error e) : FailsAt d p (.unverifiable p e)
  | create {e : IoError} (missing : d.probe p = .ok false) (answer : d.makeDir p = .error e)
      (kind : e.kind ≠ .alreadyExists) : FailsAt d p (.createDir p e)

/-- What a walk does at its first prefix: it passes something that is there, it makes the directory, it
passes something that keeps the directory from being made, or it ends and leaves the tree as it is. -/
theorem run_ensureFrom_cons_cases (n : Nat) (p : Path) (ps : List Path) (d : Disk) :
    (d.probe p = .ok true ∧
      (ensureFrom n (p :: ps)).run fileSystem d = (ensureFrom n ps).run fileSystem d) ∨
    (∃ after, d.probe p = .ok false ∧ d.makeDir p = .ok after ∧
      (ensureFrom n (p :: ps)).run fileSystem d = (ensureFrom (n + 1) ps).run fileSystem after) ∨
    (∃ e, d.probe p = .ok false ∧ d.makeDir p = .error e ∧ e.kind = .alreadyExists ∧
      (ensureFrom n (p :: ps)).run fileSystem d = (ensureFrom n ps).run fileSystem d) ∨
    ∃ failure, d.FailsAt p failure ∧
      (ensureFrom n (p :: ps)).run fileSystem d = (.error failure, d) := by
  rw [run_ensureFrom_cons]
  cases hprobe : d.probe p with
  | error e =>
    obtain ⟨hn, hp⟩ := kind_of_probe hprobe
    rw [afterProbe_error n p ps hn hp]
    exact .inr (.inr (.inr ⟨_, .probe hprobe, rfl⟩))
  | ok found =>
    cases found with
    | true => exact .inl ⟨rfl, rfl⟩
    | false =>
      rw [afterProbe_false, run_createDir]
      cases hmake : d.makeDir p with
      | ok after =>
        rw [createDir_of_makeDir hmake]
        exact .inr (.inl ⟨after, rfl, rfl, rfl⟩)
      | error e =>
        rw [createDir_of_error hmake]
        by_cases he : e.kind = .alreadyExists
        · rw [afterCreate_alreadyExists n p ps he]
          exact .inr (.inr (.inl ⟨e, rfl, rfl, he, rfl⟩))
        · rw [afterCreate_error n p ps he]
          exact .inr (.inr (.inr ⟨_, .create hprobe hmake he, rfl⟩))

/-- The ways in which a walk gets past one prefix. -/
theorem run_ensureFrom_singleton_cases
    (h : (ensureFrom n [p]).run fileSystem d = (.ok c, d')) :
    (d.probe p = .ok true ∧ d' = d) ∨
      (d.probe p = .ok false ∧ d.makeDir p = .ok d') ∨
      ∃ e, d.probe p = .ok false ∧ d.makeDir p = .error e ∧ e.kind = .alreadyExists ∧ d' = d := by
  obtain ⟨hprobe, hrun⟩ | ⟨after, hprobe, hmake, hrun⟩ | ⟨e, hprobe, hmake, he, hrun⟩ |
    ⟨failure, -, hrun⟩ := run_ensureFrom_cons_cases n p [] d
  · rw [hrun] at h
    exact .inl ⟨hprobe, (congrArg Prod.snd h).symm⟩
  · rw [hrun] at h
    cases congrArg Prod.snd h
    exact .inr (.inl ⟨hprobe, hmake⟩)
  · rw [hrun] at h
    exact .inr (.inr ⟨e, hprobe, hmake, he, (congrArg Prod.snd h).symm⟩)
  · rw [hrun] at h
    cases congrArg Prod.fst h

/-- Where something is found there is no dead link. -/
theorem not_holdsDeadLink_of_probe (h : d.probe p = .ok true) : ¬ d.HoldsDeadLink p := by
  rintro ⟨hprobe, -⟩
  rw [h] at hprobe
  cases hprobe

/-- A directory is found. -/
theorem probe_of_isDir (h : d.isDir p = true) : d.probe p = .ok true := by
  obtain ⟨q, hq, -⟩ := isDir_iff.1 h
  exact probe_eq_true_iff.2 ⟨q, hq⟩

/-- Where there is a directory there is no file. -/
theorem not_holdsFile_of_isDir (h : d.isDir p = true) : ¬ d.HoldsFile p := by
  rintro ⟨q, content, hq, hfile⟩
  obtain ⟨q', hq', hdir⟩ := isDir_iff.1 h
  rw [hq] at hq'
  cases hq'
  rw [hfile] at hdir
  cases hdir

/-- Where something is, it is a directory or a regular file. -/
theorem isDir_or_holdsFile_of_probe (h : d.probe p = .ok true) : d.isDir p = true ∨ d.HoldsFile p := by
  obtain ⟨q, hq⟩ := probe_eq_true_iff.1 h
  cases hnode : q.node with
  | dir entries => exact .inl (isDir_iff.2 ⟨q, hq, by rw [hnode]; rfl⟩)
  | file content => exact .inr ⟨q, content, hq, hnode⟩
  | link target => exact absurd hnode (plain_of_locate hq target)

/-- After a walk that ends with `p`, only a file or a dead link can be in the place of the directory. -/
theorem isDir_iff_of_run_singleton (h : (ensureFrom n [p]).run fileSystem d = (.ok c, d')) :
    d'.isDir p = true ↔ ¬ d'.HoldsFile p ∧ ¬ d'.HoldsDeadLink p := by
  obtain ⟨hprobe, rfl⟩ | ⟨-, hmake⟩ | ⟨e, hprobe, hmake, he, rfl⟩ := run_ensureFrom_singleton_cases h
  · constructor
    · exact fun hdir => ⟨not_holdsFile_of_isDir hdir, not_holdsDeadLink_of_probe hprobe⟩
    · rintro ⟨hfile, -⟩
      exact (isDir_or_holdsFile_of_probe hprobe).resolve_right hfile
  · have hdir := isDir_of_makeDir hmake
    have hprobe := probe_of_isDir hdir
    exact ⟨fun _ => ⟨not_holdsFile_of_isDir hdir, not_holdsDeadLink_of_probe hprobe⟩, fun _ => hdir⟩
  · have hdead := holdsDeadLink_of_makeDir hprobe hmake he
    constructor
    · intro hdir
      exact absurd hdead (not_holdsDeadLink_of_probe (probe_of_isDir hdir))
    · rintro ⟨-, hnot⟩
      exact absurd hdead hnot

/-- What a walk decides about its path is decided at the last prefix, the normal spelling. -/
theorem isDir_normal_iff_of_run_ensure (hne : p ≠ .empty)
    (h : (ensure p).run fileSystem d = (.ok c, d')) :
    d'.isDir p.normal = true ↔ ¬ d'.HoldsFile p.normal ∧ ¬ d'.HoldsDeadLink p.normal := by
  obtain ⟨before, hwalked⟩ := List.getLast?_eq_some_iff.1 (Path.getLast?_walked hne)
  rw [ensure, hwalked, run_ensureFrom_append, bind_apply] at h
  cases hresult : ((ensureFrom 0 before).run fileSystem d).1 with
  | error failure =>
    rw [hresult] at h
    cases congrArg Prod.fst h
  | ok created =>
    rw [hresult] at h
    exact isDir_iff_of_run_singleton h

/-- After a successful walk there is a directory at the path, unless it is empty or too long or holds a
file or a dead link. -/
theorem isDir_iff_of_run_ensure (h : (ensure p).run fileSystem d = (.ok c, d')) :
    d'.isDir p = true ↔
      p ≠ .empty ∧ p.bytes.length ≤ maxPathBytes ∧
        ¬ d'.HoldsFile p.normal ∧ ¬ d'.HoldsDeadLink p.normal := by
  by_cases hne : p = .empty
  · subst hne
    constructor
    · intro hdir
      cases hdir
    · rintro ⟨hne, -⟩
      exact absurd rfl hne
  · rw [isDir_iff_normal hne, isDir_normal_iff_of_run_ensure hne h]
    exact ⟨fun h => ⟨hne, h⟩, And.right⟩

end Disk

/-! ## Resolving a role -/

section Resolve

variable {look : Path → StateM Disk Bool} {t : Table} {role : Role} {d d' : Disk} {a : Attempt}
  {r : Resolved}

/-- Resolving an ensured role is walking its path. -/
theorem resolve_of_dirFor {path : Path} {d₀ : Disk} (hdir : t.dirFor look role d = (some path, d₀))
    (hrole : role.isEnsured = true) :
    (resolve look Disk.fileSystem t role d).1.result =
        ((ensure path).run Disk.fileSystem d₀).1.map (fun _ => ⟨role, path, true⟩) ∧
      (resolve look Disk.fileSystem t role d).2 = ((ensure path).run Disk.fileSystem d₀).2 := by
  obtain ⟨told, hresolve⟩ := resolve_of_ensured Disk.fileSystem hdir hrole
  rw [hresolve, run_eq_record]
  exact ⟨rfl, rfl⟩

/-- A role that resolves to an ensured directory had its path walked without a failure. -/
theorem run_ensure_of_resolve (hrole : role.isEnsured = true)
    (h : resolve look Disk.fileSystem t role d = (a, d')) (hok : a.result = .ok r) :
    ∃ d₀ c, (ensure r.path).run Disk.fileSystem d₀ = (.ok c, d') := by
  rcases hdir : t.dirFor look role d with ⟨_ | path, d₀⟩
  · obtain ⟨told, hresolve⟩ := resolve_of_no_dir Disk.fileSystem hdir
    rw [hresolve] at h
    cases h
    cases hok
  · obtain ⟨hresult, hdisk⟩ := resolve_of_dirFor hdir hrole
    rw [h] at hresult hdisk
    rcases hrun : (ensure path).run Disk.fileSystem d₀ with ⟨_ | c, d₁⟩
    · rw [hrun, hok] at hresult
      cases hresult
    · rw [hrun] at hresult hdisk
      cases hok.symm.trans hresult
      cases hdisk
      exact ⟨d₀, c, hrun⟩

/-- What a role resolves to is a directory, unless the path is empty or longer than the system takes, or
a regular file or a link that leads nowhere is found under its normal spelling. -/
theorem resolved_directory_exists_iff (hrole : role.isEnsured = true)
    (h : resolve look Disk.fileSystem t role d = (a, d')) (hok : a.result = .ok r) :
    d'.isDir r.path = true ↔
      r.path ≠ .empty ∧ r.path.bytes.length ≤ maxPathBytes ∧
        ¬ d'.HoldsFile r.path.normal ∧ ¬ d'.HoldsDeadLink r.path.normal := by
  obtain ⟨d₀, c, hrun⟩ := run_ensure_of_resolve hrole h hok
  exact Disk.isDir_iff_of_run_ensure hrun

/-- In an empty tree the documents are a directory after they were resolved. -/
theorem resolved_documents_exist :
    let documents : Path := .ofString "base/Documents"
    let run := resolve Disk.host.holds Disk.fileSystem (.fallback (.ofString "base")) .personalData
      (.ofTree .emptyDir)
    run.1.result = .ok ⟨.personalData, documents, true⟩ ∧ run.2.isDir documents = true ∧
      ¬ run.2.HoldsFile documents.normal ∧ ¬ run.2.HoldsDeadLink documents.normal := by
  intro documents run
  have hok : run.1.result = .ok ⟨.personalData, documents, true⟩ := by decide +kernel
  have hdir : run.2.isDir documents = true := by decide +kernel
  have hrole : Role.personalData.isEnsured = true := rfl
  have hrun : run = (run.1, run.2) := (Prod.eta run).symm
  have hiff := resolved_directory_exists_iff hrole hrun hok
  exact ⟨hok, hdir, (hiff.1 hdir).2.2⟩

/-- Not every resolved path is a directory: a file in the place of the documents is taken for them. -/
theorem resolved_path_can_be_file :
    ¬ ∀ (t : Table) (role : Role) (d d' : Disk) (a : Attempt) (r : Resolved),
      role.isEnsured = true → resolve Disk.host.holds Disk.fileSystem t role d = (a, d') →
        a.result = .ok r → d'.isDir r.path = true := by
  intro h
  let documents : Path := .ofString "base/Documents"
  let tree : Node := .dir [(Text.Utf8.encode "base",
    .dir [(Text.Utf8.encode Names.documents, .file [])])]
  let run := resolve Disk.host.holds Disk.fileSystem (.fallback (.ofString "base")) .personalData
    (.ofTree tree)
  have hok : run.1.result = .ok ⟨.personalData, documents, true⟩ := by decide +kernel
  have hnot : run.2.isDir documents = false := by decide +kernel
  have hdir := h _ _ _ run.2 run.1 ⟨.personalData, documents, true⟩ rfl (Prod.eta run).symm hok
  rw [hnot] at hdir
  cases hdir

end Resolve

end PortableLayout
