import PortableLayout.Proofs.Disk.Creation
import PortableLayout.Proofs.Disk.Existence
import PortableLayout.Proofs.Disk.Reading

/-!
# A base directory that could not be made

The base directory is made deepest first and a failure is passed over; a walk to it makes its prefixes
shallowest first and reports the failure. The two agree in the tree that the first one leaves: it is settled,
so that a walk to the base directory makes nothing more (`Settled.run_ensure`), and where the base directory
is none, nothing can be had below it, so that every walk further down fails (`Settled.run_ensure_below`).
-/

set_option autoImplicit false

namespace PortableLayout

open PortableLayout.Path (rooted isInner_of_isPrefix)

/-- A path as the system reports that of a directory: absolute, without repeated or trailing separators, a
piece `.` or a NUL byte. -/
structure Path.IsTidy (p : Path) : Prop where
  absolute : p.isAbsolute = true
  /-- All that is between and behind separators is a component, unless the path is the root. -/
  spoken : p.bytes = [slash] ∨ ∀ piece ∈ (pieces p.bytes).tail, isSilent piece = false
  noNul : 0 ∉ p.bytes

/-- A tidy path is in its normal spelling. -/
theorem Path.IsTidy.normal_eq {p : Path} (h : p.IsTidy) : p.normal = p :=
  normal_eq_self h.spoken

namespace Disk

variable {d : Disk} {p : Path} {ps : List Path} {cs ds : List Component} {c : Component}

/-- A walk over prefixes that cannot be made leaves the tree as it is. -/
theorem run_ensureFrom_of_not_made (h : ∀ p ∈ ps, ∀ d', d.makeDir p ≠ .ok d') (n : Nat) :
    (ensureFrom n ps).run fileSystem d = (.ok n, d) ∨
      ∃ failure, (ensureFrom n ps).run fileSystem d = (.error failure, d) := by
  induction ps with
  | nil => exact .inl rfl
  | cons p ps ih =>
    have hlater := ih fun q hq => h q (by simp [hq])
    obtain ⟨-, hrun⟩ | ⟨after, -, hmake, -⟩ | ⟨e, -, -, -, hrun⟩ | ⟨failure, -, hrun⟩ :=
      run_ensureFrom_cons_cases n p ps d
    · rw [hrun]
      exact hlater
    · exact absurd hmake (h p (by simp) after)
    · rw [hrun]
      exact hlater
    · exact .inr ⟨failure, hrun⟩

/-- Where no directory can be made, a walk makes none and leaves the disk as it is. -/
theorem Settled.run_ensure (h : d.Settled cs) (hcs : ∀ c ∈ cs, c.IsInner) :
    (ensure (rooted cs)).run fileSystem d = (.ok 0, d) ∨
      ∃ failure, (ensure (rooted cs)).run fileSystem d = (.error failure, d) := by
  refine run_ensureFrom_of_not_made ?_ 0
  intro p hp
  obtain ⟨ds, hshorter, rfl⟩ := Path.mem_walked_rooted hcs hp
  exact h ds hshorter

/-- A walk does not get past a prefix whose parent is no directory. -/
theorem run_ensureFrom_of_no_parent (hcs : ∀ e ∈ cs ++ [c], e.IsInner) (h : d.isDir (rooted cs) = false)
    (n : Nat) (ps : List Path) :
    ∃ failure, (ensureFrom n (rooted (cs ++ [c]) :: ps)).run fileSystem d = (.error failure, d) := by
  have hnot : d.isDir (rooted cs) ≠ true := by simp [h]
  obtain ⟨hprobe, -⟩ | ⟨after, -, hmake, -⟩ | ⟨e, -, hmake, he, -⟩ | ⟨failure, -, hrun⟩ :=
    run_ensureFrom_cons_cases n (rooted (cs ++ [c])) ps d
  · obtain ⟨q, hq⟩ := probe_eq_true_iff.1 hprobe
    exact absurd (isDir_of_locate_concat hcs hq) hnot
  · exact absurd (isDir_of_makeDir_concat hcs hmake) hnot
  · obtain ⟨-, hsplit⟩ | ⟨q, last, hparent, -⟩ := makeDir_error_cases hmake he
    · rw [splitLast_rooted_concat hcs] at hsplit
      cases hsplit
    · exact absurd (isDir_of_locateParent hcs hparent) hnot
  · exact ⟨failure, hrun⟩

/-- A walk that has to go through something that is no directory fails, and leaves the disk as it is. -/
theorem Settled.run_ensure_below (h : d.Settled cs) (hcs : ∀ e ∈ cs ++ c :: ds, e.IsInner)
    (hdir : d.isDir (rooted cs) = false) :
    ∃ failure, (ensure (rooted (cs ++ c :: ds))).run fileSystem d = (.error failure, d) := by
  have hupto : cs <+: cs ++ c :: ds := List.prefix_append cs (c :: ds)
  have hpast : cs ++ [c] <+: cs ++ c :: ds := ⟨ds, by rw [List.append_assoc, List.singleton_append]⟩
  have hsplit : (rooted (cs ++ c :: ds)).walked =
      (rooted cs).walked ++ rooted (cs ++ [c]) :: (rooted (cs ++ [c])).walkedFrom ds := by
    rw [Path.walked_rooted_append hcs, Path.walkedFrom, Path.rooted_concat]
  rw [ensure, hsplit, run_ensureFrom_append, bind_apply]
  -- Up to the directory itself nothing is made, so the walk goes on in the same tree or has failed.
  obtain hrun | ⟨failure, hrun⟩ := h.run_ensure (isInner_of_isPrefix hupto hcs)
  · rw [ensure] at hrun
    rw [hrun]
    exact run_ensureFrom_of_no_parent (isInner_of_isPrefix hpast hcs) hdir 0 _
  · rw [ensure] at hrun
    rw [hrun]
    exact ⟨failure, rfl⟩

end Disk

/-! ## Roles below the base directory -/

section

variable {cs : List Component}

/-- A name below a path spelled from its components is one more component. -/
theorem Path.below_rooted (cs : List Component) (name : String) :
    (rooted cs).below name = rooted (cs ++ [.name (Text.Utf8.encode name)]) :=
  (rooted_concat cs (.name (Text.Utf8.encode name))).symm

/-- The base directory of such a path is one more component too. -/
theorem Path.basePath_rooted (cs : List Component) :
    basePath (rooted cs) = rooted (cs ++ [.name (Text.Utf8.encode Names.base)]) :=
  below_rooted cs Names.base

/-- On Unix every ensured role has its directory below the base directory. -/
theorem UnixTable.dirFor_of_isEnsured {m : Type → Type} [Monad m] (look : Path → m Bool) {t : UnixTable}
    {role : Role} (hbase : t.base = rooted cs) (hrole : role.isEnsured = true) :
    ∃ c ds, (∀ e ∈ c :: ds, e.IsInner) ∧
      (Table.unix t).dirFor look role = pure (some (rooted (cs ++ c :: ds))) := by
  cases role with
  | roamingData =>
    refine ⟨.name (Text.Utf8.encode Names.appData), [.name (Text.Utf8.encode Names.roaming)], ?_, ?_⟩
    · decide
    · show pure (some (roamingUnder t.base)) = _
      rw [hbase, roamingUnder, Path.below_rooted, Path.below_rooted, List.append_assoc]
      rfl
  | personalData =>
    refine ⟨.name (Text.Utf8.encode Names.documents), [], ?_, ?_⟩
    · decide
    · show pure (some (documentsUnder t.base)) = _
      rw [hbase, documentsUnder, Path.below_rooted]
  | cache =>
    refine ⟨.name (Text.Utf8.encode Names.cache), [], ?_, ?_⟩
    · decide
    · show pure (some (cacheUnder t.base)) = _
      rw [hbase, cacheUnder, Path.below_rooted]
  | appResources => cases hrole

/-- The components of the base directory can all stand behind others. -/
theorem isInner_basePath (hcs : ∀ c ∈ cs, c.IsInner) :
    ∀ c ∈ cs ++ [.name (Text.Utf8.encode Names.base)], c.IsInner := by
  have hname : Component.IsInner (.name (Text.Utf8.encode Names.base)) := by decide
  intro c hc
  obtain hc | hc := List.mem_append.1 hc
  · exact hcs c hc
  · rw [List.mem_singleton.1 hc]
    exact hname

/-- The system accepts the path of a base directory that is not too long and has no NUL byte. -/
theorem checkPath_basePath (hcs : ∀ c ∈ cs, c.IsInner) (hnul : 0 ∉ (rooted cs).bytes)
    (hlong : (basePath (rooted cs)).bytes.length ≤ maxPathBytes) :
    Disk.checkPath (basePath (rooted cs)) = .ok () := by
  have hbase := isInner_basePath hcs
  rw [Path.basePath_rooted] at hlong ⊢
  refine Disk.checkPath_eq_ok_iff.2 ⟨?_, Path.bytes_rooted_ne_nil hbase, hlong⟩
  intro hmem
  obtain ⟨c, hc, hin⟩ := (Path.mem_bytes_rooted_iff (by decide) hbase).1 hmem
  obtain hc | hc := List.mem_append.1 hc
  · exact hnul ((Path.mem_bytes_rooted_iff (by decide) hcs).2 ⟨c, hc, hin⟩)
  · rw [List.mem_singleton.1 hc] at hin
    exact absurd hin (by decide)

/-- The base directory is made with its parents, unless something is in its place. -/
theorem resolveBase_cases (exeDir : Path) (d : Disk) :
    (d.probe (basePath exeDir) = .ok true ∧ resolveBase Disk.host exeDir d = (basePath exeDir, d)) ∨
      resolveBase Disk.host exeDir d =
        (basePath exeDir, (createAll Disk.host (basePath exeDir) d).2) := by
  rw [resolveBase, bind_apply, Disk.readsOnly_holds]
  cases hfound : (Disk.host.holds (basePath exeDir) d).1 with
  | true => exact .inl ⟨Disk.probe_of_holds hfound, rfl⟩
  | false => exact .inr rfl

/-- Nothing on the way to the base directory can be made after it was to be made. -/
theorem settled_resolveBase (hcs : ∀ c ∈ cs, c.IsInner)
    (hcheck : Disk.checkPath (basePath (rooted cs)) = .ok ()) (d : Disk) :
    (resolveBase Disk.host (rooted cs) d).1 = basePath (rooted cs) ∧
      (resolveBase Disk.host (rooted cs) d).2.Settled
        (cs ++ [.name (Text.Utf8.encode Names.base)]) := by
  have hbase := isInner_basePath hcs
  obtain ⟨hprobe, hrun⟩ | hrun := resolveBase_cases (rooted cs) d
  · rw [hrun]
    rw [Path.basePath_rooted] at hprobe
    obtain ⟨q, hq⟩ := Disk.probe_eq_true_iff.1 hprobe
    exact ⟨rfl, Disk.settled_of_locate hbase hq⟩
  · rw [hrun]
    rw [Path.basePath_rooted] at hcheck ⊢
    exact ⟨rfl, (Disk.createAll_rooted hbase hcheck d).2⟩

/-- **A base directory that could not be made is not lost.** The base directory of an executable's directory
is always the same path. In the tree that is left when it was to be made, a walk to it makes nothing, whether
it fails or not. And if it is no directory there, no role of a Unix table resolves that has its directory
below it: the failure that was passed over is reported. -/
theorem unmade_base_directory_is_reported (exeDir : Path) (d : Disk) (hexe : exeDir.IsTidy)
    (hlong : (basePath exeDir).bytes.length ≤ maxPathBytes) :
    let r := resolveBase Disk.host exeDir d
    r.1 = exeDir.below Names.base ∧
    ((ensure r.1).run Disk.fileSystem r.2 = (.ok 0, r.2) ∨
      ∃ failure, (ensure r.1).run Disk.fileSystem r.2 = (.error failure, r.2)) ∧
    (r.2.isDir r.1 = false →
      ∀ t : UnixTable, t.base = r.1 → ∀ role ∈ [Role.roamingData, .personalData, .cache],
        ∃ failure,
          (resolve Disk.host.holds Disk.fileSystem (.unix t) role r.2).1.result = .error failure) := by
  intro r
  obtain ⟨cs, hcs, rfl⟩ := Path.exists_rooted hexe.absolute hexe.normal_eq
  obtain ⟨hpath, hsettled⟩ := settled_resolveBase hcs (checkPath_basePath hcs hexe.noNul hlong) d
  have hbase := isInner_basePath hcs
  have hspelled : r.1 = rooted (cs ++ [.name (Text.Utf8.encode Names.base)]) :=
    hpath.trans (Path.basePath_rooted cs)
  refine ⟨hpath, ?_, ?_⟩
  · rw [hspelled]
    exact hsettled.run_ensure hbase
  · intro hnot t ht role hrole
    have hensured : role.isEnsured = true := by
      revert role
      decide
    rw [hspelled] at hnot ht
    obtain ⟨c, ds, hbelow, hdir⟩ := UnixTable.dirFor_of_isEnsured Disk.host.holds ht hensured
    have hinner : ∀ e ∈ (cs ++ [.name (Text.Utf8.encode Names.base)]) ++ c :: ds, e.IsInner := by
      intro e he
      exact (List.mem_append.1 he).elim (hbase e) (hbelow e)
    obtain ⟨failure, hrun⟩ := hsettled.run_ensure_below hinner hnot
    refine ⟨failure, ?_⟩
    rw [(resolve_of_dirFor (congrFun hdir r.2) hensured).1, hrun]
    rfl

/-- A link that leads nowhere is in the place of the base directory: it cannot be made, and no roaming data
can be had. -/
theorem dead_base_link_is_reported :
    let exeDir : Path := .ofString "/app"
    let app : Node := .dir [(Text.Utf8.encode Names.base, .link (Text.Utf8.encode "/gone"))]
    let r := resolveBase Disk.host exeDir (.ofTree (.dir [(Text.Utf8.encode "app", app)]))
    let table := UnixTable.ofPackaging r.1 exeDir ⟨none, none⟩
    exeDir.IsTidy ∧ (basePath exeDir).bytes.length ≤ maxPathBytes ∧ r.2.isDir r.1 = false ∧
      ∃ failure, (resolve Disk.host.holds Disk.fileSystem (.unix table) .roamingData r.2).1.result =
        .error failure := by
  intro exeDir app r table
  have htidy : exeDir.IsTidy := ⟨by decide, .inr (by decide), by decide⟩
  have hlong : (basePath exeDir).bytes.length ≤ maxPathBytes := by decide
  have hnot : r.2.isDir r.1 = false := by decide +kernel
  obtain ⟨-, -, hroles⟩ := unmade_base_directory_is_reported exeDir _ htidy hlong
  exact ⟨htidy, hlong, hnot, hroles hnot table rfl .roamingData (by simp)⟩

end

end PortableLayout
