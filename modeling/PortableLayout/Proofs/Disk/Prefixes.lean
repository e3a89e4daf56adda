import PortableLayout.Proofs.Disk.Additions
import PortableLayout.Proofs.Disk.Descent
import PortableLayout.Proofs.Path.Pieces

/-!
# Looking prefixes up

The prefixes of a walk are looked up one component further each (`Disk.reach`), from the same start. A call on
a prefix is therefore decided by where the prefix before it leads: a lookup goes on from there
(`locate_spell`), and making a directory puts it there (`makeDir_spell`).
-/

set_option autoImplicit false

namespace PortableLayout

open PortableLayout.Path (spell)

/-- The limits that the system sets to paths. -/
structure Path.WithinLimits (p : Path) : Prop where
  noNul : 0 ∉ p.bytes
  short : p.bytes.length ≤ maxPathBytes
  shortNames : ∀ n, .name n ∈ p.components → n.length ≤ maxNameBytes

/-- The limits in one line: no NUL byte, not too many bytes, and not too many in any component. -/
theorem Path.withinLimits_iff {p : Path} :
    p.WithinLimits ↔ 0 ∉ p.bytes ∧ p.bytes.length ≤ maxPathBytes ∧
      ∀ c ∈ p.components, c.bytes.length ≤ maxNameBytes := by
  constructor
  · rintro ⟨hnul, hshort, hnames⟩
    refine ⟨hnul, hshort, ?_⟩
    intro c hc
    cases c with
    | root => decide
    | here => decide
    | up => decide
    | name n => exact hnames n hc
  · rintro ⟨hnul, hshort, hall⟩
    exact ⟨hnul, hshort, fun n hn => hall (.name n) hn⟩

/-- Whether a path keeps to the limits can be computed. -/
instance (p : Path) : Decidable p.WithinLimits :=
  decidable_of_iff _ Path.withinLimits_iff.symm

namespace Disk

/-- Where a lookup that starts like one of `p` gets with the components `cs`. -/
def reach (d : Disk) (p : Path) (cs : List Component) : Except Errno Position :=
  d.lookupPieces p (cs.map Component.piece)

variable {d d' : Disk} {p : Path} {cs ds : List Component} {c : Component} {q r : Position}
  {todo : List Bytes} {new : List (List Bytes)} {n : Bytes}

/-- A lookup ends at a place exactly if it has a start and its pieces are followed to there. -/
theorem lookupPieces_eq_ok_iff :
    d.lookupPieces p todo = .ok q ↔ ∃ s, d.start p = .ok s ∧ follow d.top maxLinks s todo = .ok q := by
  unfold lookupPieces
  cases d.start p with
  | error e => simp
  | ok s => simp

/-! ## Longer and shorter lookups -/

/-- Further components are looked up from where the first ones led, with the links that are left. -/
theorem reach_append (h : d.reach p cs = .ok q) :
    ∃ k, ∀ ds, d.reach p (cs ++ ds) = follow d.top k q (ds.map Component.piece) := by
  obtain ⟨s, hs, hf⟩ := lookupPieces_eq_ok_iff.1 h
  obtain ⟨k, -, hk⟩ := follow_append hf
  refine ⟨k, fun ds => ?_⟩
  rw [reach, List.map_append, lookupPieces, hs]
  exact hk _

/-- What a lookup leads through is a directory. -/
theorem isDir_of_reach (h : d.reach p (cs ++ c :: ds) = .ok r) :
    ∃ q, d.reach p cs = .ok q ∧ q.node.isDir = true := by
  obtain ⟨s, hs, hf⟩ := lookupPieces_eq_ok_iff.1 h
  rw [List.map_append, List.map_cons] at hf
  obtain ⟨q, hq, hdir⟩ := isDir_of_follow_append hf
  exact ⟨q, lookupPieces_eq_ok_iff.2 ⟨s, hs, hq⟩, hdir⟩

/-- A lookup ends at a place of the tree. -/
theorem in_of_reach (h : d.reach p cs = .ok q) : q.In d.top := by
  obtain ⟨s, hs, hf⟩ := lookupPieces_eq_ok_iff.1 h
  have htwins : Twins d.top d.top s s := ⟨in_of_start hs, in_of_start hs, rfl⟩
  obtain ⟨q', hq', htwins'⟩ := htwins.follow (.refl d.top) hf
  exact htwins'.left

/-- A lookup ends at the same location after directories were added. -/
theorem Adds.reach (h : d.Adds new d') (hq : d.reach p cs = .ok q) :
    ∃ q', d'.reach p cs = .ok q' ∧ Twins d.top d'.top q q' := by
  obtain ⟨s, hs, hf⟩ := lookupPieces_eq_ok_iff.1 hq
  obtain ⟨s', hs', hstart⟩ := start_of_extends h.cwd h.kept hs
  obtain ⟨q', hf', htwins⟩ := hstart.follow h.kept hf
  exact ⟨q', lookupPieces_eq_ok_iff.2 ⟨s', hs', hf'⟩, htwins⟩

/-! ## Prefixes of a path -/

/-- The first components of a path are those of a path. -/
theorem listed_of_isPrefix (hcs : cs <+: p.components) : Listed cs := by
  obtain ⟨ds, hds⟩ := hcs
  have hlisted := Path.listed_components p
  rw [← hds] at hlisted
  exact hlisted.of_append

/-- A path made of the first components starts where the whole path starts. -/
theorem isAbsolute_spell (hcs : cs <+: p.components) (hne : cs ≠ []) :
    (spell cs).isAbsolute = p.isAbsolute := by
  have hroot : .root ∈ cs ↔ .root ∈ p.components := by
    refine ⟨fun h => hcs.subset h, fun h => ?_⟩
    obtain ⟨ds, hds⟩ := hcs
    have hall := Path.listed_components p
    rw [← hds] at h hall
    cases cs with
    | nil => exact absurd rfl hne
    | cons c cs =>
      obtain rfl | h := List.mem_cons.1 h
      · exact List.mem_cons_self
      · exact absurd (hall.2 _ h) id
  rw [Bool.eq_iff_iff, Path.isAbsolute_iff_root_mem, Path.isAbsolute_iff_root_mem,
    Path.components_spell (listed_of_isPrefix hcs), hroot]

/-- A prefix is looked up from where its path is. -/
theorem start_spell (hcs : cs <+: p.components) (hne : cs ≠ []) : d.start (spell cs) = d.start p := by
  rw [start, start, isAbsolute_spell hcs hne]

/-- The system accepts each path made of the first components of a path within the limits. -/
theorem checkPath_spell (hp : p.WithinLimits) (hcs : cs <+: p.components) (hne : cs ≠ []) :
    checkPath (spell cs) = .ok () := by
  have hlisted := listed_of_isPrefix hcs
  obtain ⟨ds, hds⟩ := hcs
  have hbytes : (spell cs).bytes <+: p.normal.bytes := by
    rw [Path.normal, ← hds]
    apply Path.bytes_spell_isPrefix
    rw [hds]
    exact Path.listed_components p
  refine checkPath_eq_ok_iff.2 ⟨?_, ?_, ?_⟩
  · intro hnul
    exact hp.noNul ((Path.mem_bytes_normal_iff (by decide) (by decide)).1 (hbytes.subset hnul))
  · intro hempty
    have hcomponents := Path.components_spell hlisted
    rw [show spell cs = .empty from congrArg Path.mk hempty] at hcomponents
    exact hne hcomponents.symm
  · exact (hbytes.length_le.trans p.length_normal_le).trans hp.short

/-- The path made of some components leads where they do. -/
theorem lookupPieces_spell (h : Listed cs) (hne : cs ≠ []) :
    d.lookupPieces p (pieces (spell cs).bytes) = d.reach p cs := by
  obtain rfl | ⟨before, c, rfl⟩ := cs.eq_nil_or_concat
  · exact absurd rfl hne
  rw [List.concat_eq_append] at h ⊢
  by_cases hc : c.IsInner
  · rw [Path.pieces_spell_concat h hc, reach, List.map_append, List.map_singleton, hc.piece_eq]
  · have hnil : before = [] := by
      by_contra hbefore
      exact hc (h.isInner_last hbefore)
    subst hnil
    obtain rfl | rfl | hinner := h.1
    · have hpieces : pieces (spell [.root]).bytes = [[], []] := rfl
      rw [List.nil_append, hpieces, reach, lookupPieces, lookupPieces]
      cases d.start p with
      | error e => rfl
      | ok s => exact follow_empty_empty d.top maxLinks s
    · rfl
    · exact absurd hinner hc

/-- A prefix leads where its components do. -/
theorem locate_spell (hp : p.WithinLimits) (hcs : cs <+: p.components) (hne : cs ≠ []) :
    d.locate (spell cs) = (d.reach p cs).mapError .system := by
  have hstart : d.lookupPieces (spell cs) (pieces (spell cs).bytes) =
      d.lookupPieces p (pieces (spell cs).bytes) := by
    rw [lookupPieces, lookupPieces, start_spell hcs hne]
  rw [locate, checkPath_spell hp hcs hne, hstart, lookupPieces_spell (listed_of_isPrefix hcs) hne]

/-- Within the limits, a prefix leads just where its components do. -/
theorem locate_spell_eq_ok_iff (hp : p.WithinLimits) (hcs : cs <+: p.components) (hne : cs ≠ []) :
    d.locate (spell cs) = .ok q ↔ d.reach p cs = .ok q := by
  rw [locate_spell hp hcs hne]
  cases d.reach p cs with
  | error e => simp [Except.mapError]
  | ok r => simp [Except.mapError]

/-- There is a directory at a prefix exactly if its components lead to one. -/
theorem isDir_spell_iff (hp : p.WithinLimits) (hcs : cs <+: p.components) (hne : cs ≠ []) :
    d.isDir (spell cs) = true ↔ ∃ q, d.reach p cs = .ok q ∧ q.node.isDir = true := by
  simp only [isDir_iff, locate_spell_eq_ok_iff hp hcs hne]

/-- There is a file at a prefix exactly if its components lead to one. -/
theorem holdsFile_spell_iff (hp : p.WithinLimits) (hcs : cs <+: p.components) (hne : cs ≠ []) :
    d.HoldsFile (spell cs) ↔ ∃ q content, d.reach p cs = .ok q ∧ q.node = .file content := by
  simp only [HoldsFile, locate_spell_eq_ok_iff hp hcs hne]

/-- In a directory, one that is missing can be made. -/
theorem makeDir_spell (hp : p.WithinLimits) (hcs : cs ++ [.name n] <+: p.components)
    (hq : d.reach p cs = .ok q) (hdir : q.node.isDir = true) (hnew : q.node.child? n = none) :
    ∃ d', d.makeDir (spell (cs ++ [.name n])) = .ok d' := by
  have hlisted := listed_of_isPrefix hcs
  have hne : cs ++ [.name n] ≠ [] := by simp
  have hinner : Component.IsInner (.name n) := hlisted.isInner_name (by simp)
  have hsplit : splitLast (spell (cs ++ [.name n])).bytes = some (cs.map Component.piece, n) := by
    have hspoken : ¬ n = [] := hinner.bytes_ne_nil
    rw [splitLast, Path.pieces_spell_concat hlisted hinner, List.reverse_append, List.reverse_singleton,
      List.singleton_append, List.dropWhile_cons_of_neg (by simpa [Component.bytes] using hspoken)]
    simp [Component.bytes]
  have hlookup : d.lookupPieces (spell (cs ++ [.name n])) (cs.map Component.piece) = .ok q := by
    rw [lookupPieces, start_spell hcs hne, ← hq]
    rfl
  have hparent : d.locateParent (spell (cs ++ [.name n])) = .ok (q, n) := by
    rw [locateParent, checkPath_spell hp hcs hne]
    simp only [hsplit, hlookup, if_pos hdir]
  have hshort : n.length ≤ maxNameBytes := hp.shortNames n (hcs.subset (by simp))
  have hdots : ¬ (n = [dot] ∨ n = [dot, dot]) := by
    rintro (hdot | hup)
    · exact hinner.bytes_ne_dot hdot
    · exact hinner.2.1 hup
  refine ⟨d.put q n .emptyDir, ?_⟩
  rw [makeDir, hparent]
  simp only [if_neg hdots, if_neg (Nat.not_lt.2 hshort), hnew]

end Disk

end PortableLayout
