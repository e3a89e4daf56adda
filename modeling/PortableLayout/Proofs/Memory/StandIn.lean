import PortableLayout.FileSystem.Memory
import PortableLayout.Proofs.Disk.Directories

/-!
# A store in memory as a stand-in for a disk

A store is a set of spellings and never asks for parents; a disk is a tree that is looked up component by
component. Still no sequence of walks along ordinary paths can tell the two apart, as long as the store holds
the normal spellings of what is on the disk (`Memory.StandsFor`). A walk comes to a path only after its
parent is there, so the disk never refuses what the store grants. What either makes is one more spelling
here and one more directory there, and the two belong together again (`StandsFor.of_makeDir`).
-/

set_option autoImplicit false

namespace PortableLayout

open PortableLayout.Path (spell)

/-! ## Walks on record -/

section Records

variable {σ : Type} {fs : FileSystem (StateM σ)} {s t : σ} {p : Path}

/-- The record of a walk past a prefix that is there has one probe before the record of what is left. -/
theorem record_ensureFrom_of_present (h : fs.probe p s = (.ok true, s)) (n : Nat) (ps : List Path) :
    (ensureFrom n (p :: ps)).record fs s =
      (((ensureFrom n ps).record fs s).1.after [.probed p (.ok true)], ((ensureFrom n ps).record fs s).2) := by
  rw [ensureFrom_cons, record_probe h, afterProbe_true]

/-- The record of a walk that makes its first prefix has a probe and a creation before the record of what is
left. -/
theorem record_ensureFrom_of_made (hprobe : fs.probe p s = (.ok false, s))
    (hcreate : fs.createDir p s = (.ok (), t)) (n : Nat) (ps : List Path) :
    (ensureFrom n (p :: ps)).record fs s =
      (((ensureFrom (n + 1) ps).record fs t).1.after [.probed p (.ok false), .created p (.ok ())],
        ((ensureFrom (n + 1) ps).record fs t).2) := by
  rw [ensureFrom_cons, record_probe hprobe, afterProbe_false, record_createDir hcreate]
  rfl

/-- Walks along these paths, one after the other, with a record of each. -/
def walks (fs : FileSystem (StateM σ)) (ps : List Path) : StateM σ (List (Recorded (Except PathError Nat))) :=
  ps.mapM fun p => (ensure p).record fs

/-- Walks one after the other are a walk and then the others, on what it leaves. -/
theorem walks_cons (fs : FileSystem (StateM σ)) (p : Path) (ps : List Path) (s : σ) :
    walks fs (p :: ps) s =
      (((ensure p).record fs s).1 :: (walks fs ps ((ensure p).record fs s).2).1,
        (walks fs ps ((ensure p).record fs s).2).2) := by
  rw [walks, List.mapM_cons]
  rfl

end Records

namespace Memory

/-- A store that fails no call and holds, of the ordinary paths, those that lead somewhere on a disk of
directories. -/
structure StandsFor (s : Memory) (d : Disk) : Prop where
  noProbeError : ∀ p, s.probeError p = none
  noCreateError : ∀ p, s.createError p = none
  onlyDirs : d.top.OnlyDirs
  mem_iff : ∀ p : Path, p.IsOrdinary → (p.normal ∈ s.existing ↔ ∃ q, d.locate p = .ok q)

/-- Walks that made the same calls, got to their ends, and left a store and a disk that belong together. -/
structure InStep (a : Recorded (Except PathError Nat) × Memory) (b : Recorded (Except PathError Nat) × Disk) :
    Prop where
  same : a.1 = b.1
  isOk : ∃ n, b.1.result = .ok n
  standsFor : a.2.StandsFor b.2

variable {s : Memory} {d d' : Disk} {p : Path} {cs ds : List Component} {q : Position}

/-- The same calls before two walks in step keep them in step. -/
theorem InStep.after {a : Recorded (Except PathError Nat) × Memory} {b : Recorded (Except PathError Nat) × Disk}
    (h : InStep a b) (earlier : List Exchange) : InStep (a.1.after earlier, a.2) (b.1.after earlier, b.2) where
  same := by rw [h.same]
  isOk := h.isOk
  standsFor := h.standsFor

/-- Before anything is made, the root alone is there. -/
theorem standsFor_emptyDir (h : d.top = .emptyDir) : (ofList [⟨[slash]⟩]).StandsFor d := by
  have hdirs : d.top.OnlyDirs := by
    rw [h]
    exact Node.everywhere_dir rfl nofun
  refine ⟨fun _ => rfl, fun _ => rfl, hdirs, ?_⟩
  intro p hp
  rw [Disk.exists_locate_iff hdirs hp, h, mem_existing_ofList, List.mem_singleton,
    Path.normal_of_isAbsolute hp.absolute]
  cases hnames : p.names with
  | nil => simp [glue, Node.get?]
  | cons n ns =>
    -- A name has bytes, so that it shows in the spelling.
    have hn : n ≠ [] := by
      rintro rfl
      have hspoken := (hp.of_mem_names (n := []) (by rw [hnames]; exact List.mem_cons_self)).1
      cases hspoken
    have hglue : glue (n :: ns) ≠ [] := by
      cases ns with
      | nil => exact hn
      | cons m ns => simp [glue]
    simp [hglue, Node.get?, Node.emptyDir, Node.child?]

namespace StandsFor

/-- A store that stands for a disk answers a probe by what is in its set. -/
theorem probe_eq (h : s.StandsFor d) (p : Path) :
    fileSystem.probe p s = (.ok (decide (p ∈ s.existing)), s) := by
  show (s.probe p, s) = _
  rw [Memory.probe, h.noProbeError]

/-- A store that stands for a disk lets every path be created. -/
theorem createDir_eq (h : s.StandsFor d) (p : Path) : fileSystem.createDir p s = (.ok (), s.add p) := by
  show s.createDir p = _
  rw [Memory.createDir, h.noCreateError]

/-- A directory that is made on the disk makes one more spelling of the store. -/
theorem of_makeDir (h : s.StandsFor d) (hp : p.IsOrdinary) (hmake : d.makeDir p = .ok d') :
    (s.add p.normal).StandsFor d' := by
  obtain ⟨l, hadds, hleads⟩ := Disk.adds_of_makeDir hmake
  have hdirs := hadds.onlyDirs h.onlyDirs
  have hl : l = p.names := Disk.eq_names_of_leadsTo hdirs hp hleads
  refine ⟨h.noProbeError, h.noCreateError, hdirs, ?_⟩
  intro p' hp'
  rw [mem_existing_add, h.mem_iff p' hp', Disk.exists_locate_iff h.onlyDirs hp', Disk.exists_locate_iff hdirs hp',
    Path.normal_eq_normal_iff hp'.absolute hp.absolute, hadds.get?_ne_none_iff, List.mem_singleton, hl]

/-- From a prefix that is there, the two walks along the rest of a path stay in step. -/
theorem walkedFrom (h : s.StandsFor d) (hp : p.IsOrdinary) (hcs : cs ++ ds = p.components)
    (hq : d.reach p cs = .ok q) (n : Nat) :
    InStep ((ensureFrom n ((spell cs).walkedFrom ds)).record Memory.fileSystem s)
      ((ensureFrom n ((spell cs).walkedFrom ds)).record Disk.fileSystem d) := by
  induction ds generalizing cs s d q n with
  | nil => exact ⟨rfl, ⟨n, rfl⟩, h⟩
  | cons c ds ih =>
    have hnext : (cs ++ [c]) ++ ds = p.components := by rw [← hcs, List.append_assoc]; rfl
    have hupto : cs ++ [c] <+: p.components := ⟨ds, hnext⟩
    have hordinary : (spell (cs ++ [c])).IsOrdinary := hp.spell hupto (by simp)
    have hnormal : (spell (cs ++ [c])).normal = spell (cs ++ [c]) :=
      Path.normal_spell (Disk.listed_of_isPrefix hupto)
    have hmem := h.mem_iff _ hordinary
    rw [hnormal, ← Disk.probe_eq_true_iff] at hmem
    rw [Path.walkedFrom, ← Path.spell_append_singleton]
    obtain ⟨⟨content, hfile⟩, -⟩ | ⟨hprobe, r, hr⟩ | ⟨hprobe, after, r, hmake, hr⟩ :=
      Disk.probe_spell_cases h.onlyDirs.unlinked hp.within hupto hq
    -- Among directories only, no prefix is a file.
    · have hdir := h.onlyDirs.isDir_of_in (Disk.in_of_reach hq)
      rw [hfile] at hdir
      cases hdir
    · have hstore : Memory.fileSystem.probe (spell (cs ++ [c])) s = (.ok true, s) := by
        rw [h.probe_eq, decide_eq_true (hmem.2 hprobe)]
      have hdisk : Disk.fileSystem.probe (spell (cs ++ [c])) d = (.ok true, d) := congrArg (·, d) hprobe
      rw [record_ensureFrom_of_present hstore, record_ensureFrom_of_present hdisk]
      exact (ih h hnext hr n).after _
    · have hnot : spell (cs ++ [c]) ∉ s.existing := by
        rw [hmem, hprobe]
        intro hfound
        cases hfound
      have hstore : Memory.fileSystem.probe (spell (cs ++ [c])) s = (.ok false, s) := by
        rw [h.probe_eq, decide_eq_false hnot]
      have hdisk : Disk.fileSystem.probe (spell (cs ++ [c])) d = (.ok false, d) := congrArg (·, d) hprobe
      have hmade : Disk.fileSystem.createDir (spell (cs ++ [c])) d = (.ok (), after) :=
        Disk.createDir_of_makeDir hmake
      rw [record_ensureFrom_of_made hstore (h.createDir_eq _), record_ensureFrom_of_made hdisk hmade]
      -- The store that was added to stands for the disk with the new directory.
      have hlater := h.of_makeDir hordinary hmake
      rw [hnormal] at hlater
      exact (ih hlater hnext hr (n + 1)).after _

/-- A walk on the store and the walk on the disk that it stands for are in step. -/
theorem ensure (h : s.StandsFor d) (hp : p.IsOrdinary) :
    InStep ((PortableLayout.ensure p).record Memory.fileSystem s)
      ((PortableLayout.ensure p).record Disk.fileSystem d) := by
  have hstart : d.reach p [] = .ok (.top d.top) :=
    Disk.lookupPieces_eq_ok_iff.2 ⟨.top d.top, if_pos hp.absolute, rfl⟩
  exact h.walkedFrom hp rfl hstart 0

/-- Walks along ordinary paths, one after the other, stay in step. -/
theorem walks (h : s.StandsFor d) {ps : List Path} (hps : ∀ p ∈ ps, p.IsOrdinary) :
    let a := PortableLayout.walks Memory.fileSystem ps s
    let b := PortableLayout.walks Disk.fileSystem ps d
    a.1 = b.1 ∧ (∀ r ∈ b.1, ∃ n, r.result = .ok n) ∧ a.2.StandsFor b.2 := by
  induction ps generalizing s d with
  | nil => exact ⟨rfl, nofun, h⟩
  | cons p ps ih =>
    have hfirst := h.ensure (hps p List.mem_cons_self)
    obtain ⟨hsame, hok, hstands⟩ := ih hfirst.standsFor fun q hq => hps q (List.mem_cons_of_mem p hq)
    rw [walks_cons, walks_cons]
    refine ⟨?_, ?_, hstands⟩
    · rw [hfirst.same, hsame]
    · intro r hr
      obtain rfl | hr := List.mem_cons.1 hr
      · exact hfirst.isOk
      · exact hok r hr

end StandsFor

end Memory

/-- **A store stands in for a disk.** Walks along ordinary paths, one after the other, make the same calls in
memory as on a disk that the store stands for. They get the same answers and count the same directories, none
of them fails, and after each of them the store stands for the disk that is left. -/
theorem store_stands_in_for_disk (s : Memory) (d : Disk) (ps : List Path) (h : s.StandsFor d)
    (hps : ∀ p ∈ ps, p.IsOrdinary) (k : Nat) :
    let inMemory := walks Memory.fileSystem (ps.take k) s
    let onDisk := walks Disk.fileSystem (ps.take k) d
    inMemory.1 = onDisk.1 ∧ (∀ r ∈ onDisk.1, ∃ n, r.result = .ok n) ∧ inMemory.2.StandsFor onDisk.2 := by
  apply h.walks
  intro p hp
  exact hps p (List.mem_of_mem_take hp)

/-- Two walks below an empty root, spelled with more separators and dots than it takes. -/
theorem empty_store_stands_in_for_empty_disk :
    let s := Memory.ofList [.ofString "/"]
    let d : Disk := .ofTree .emptyDir
    let ps : List Path := [.ofString "/a//b", .ofString "/a/./b/c/"]
    let inMemory := walks Memory.fileSystem ps s
    let onDisk := walks Disk.fileSystem ps d
    s.StandsFor d ∧ (∀ p ∈ ps, p.IsOrdinary) ∧ inMemory.1 = onDisk.1 ∧ inMemory.2.StandsFor onDisk.2 ∧
      onDisk.1.map (·.result.toOption) = [some 2, some 1] := by
  intro s d ps inMemory onDisk
  have hstands : s.StandsFor d := Memory.standsFor_emptyDir rfl
  have hps : ∀ p ∈ ps, p.IsOrdinary := by decide
  obtain ⟨hsame, -, hstill⟩ := store_stands_in_for_disk s d ps hstands hps 2
  have hcounts : onDisk.1.map (·.result.toOption) = [some 2, some 1] := by decide +kernel
  exact ⟨hstands, hps, hsame, hstill, hcounts⟩

end PortableLayout
