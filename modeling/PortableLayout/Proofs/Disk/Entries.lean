import PortableLayout.Proofs.Disk.Prefixes
import PortableLayout.Proofs.Disk.Spellings
import PortableLayout.Proofs.Path.Join

/-!
# Entries of a directory

A name is looked up in a directory by joining it to the directory's path. However that path is spelled, the
lookup gets to the directory first and takes the name from there. So the joined path leads to the entry, unless
the entry is a link, in which case it leads wherever the link does (`locate_of_entry`), and where there is no entry
it leads nowhere (`exists_entry_of_locate`).
-/

set_option autoImplicit false

namespace PortableLayout

namespace Path

variable {n : Bytes}

/-- A path with a name put below it starts where it started before. -/
theorem isAbsolute_join_name (p : Path) (hn : (Component.name n).IsInner) :
    (p.join ⟨n⟩).isAbsolute = p.isAbsolute :=
  isAbsolute_join p (isAbsolute_name hn)

/-- The pieces before the joined name are those of the path, but for silent ones. -/
theorem pieces_join_name (p : Path) (hn : (Component.name n).IsInner) :
    ∃ ps, pieces (p.join ⟨n⟩).bytes = ps ++ [n] ∧ spoken (pieces p.bytes) = spoken ps := by
  have hpieces : pieces n = [n] := pieces_of_slash_notMem hn.slash_notMem
  by_cases hp : p.bytes = []
  · obtain rfl : p = empty := congrArg Path.mk hp
    refine ⟨[], ?_, rfl⟩
    rw [empty_join, hpieces, List.nil_append]
  · obtain ⟨ps, hjoin, hend⟩ := pieces_join hp (isAbsolute_name hn)
    rw [hpieces] at hjoin
    refine ⟨ps, hjoin, ?_⟩
    obtain hend | hend := hend
    · rw [hend]
    · have hempty : spoken [[]] = [] := rfl
      rw [hend, spoken_append, hempty, List.append_nil]

end Path

namespace Disk

/-- The node that a name stands for in the directory at a path, the links of the path followed but not the
node itself. Here the empty path is the working directory. -/
def childAt? (d : Disk) (dir : Path) (name : Bytes) : Option Node :=
  match d.lookupPieces dir (pieces dir.bytes) with
  | .ok q => q.node.child? name
  | .error _ => none

variable {d : Disk} {dir : Path} {n : Bytes} {node : Node} {q r : Position}

/-- An entry under a name is found exactly if the path leads to a node that has one. -/
theorem childAt?_eq_some_iff :
    d.childAt? dir n = some node ↔
      ∃ q, d.lookupPieces dir (pieces dir.bytes) = .ok q ∧ q.node.child? n = some node := by
  unfold childAt?
  cases d.lookupPieces dir (pieces dir.bytes) with
  | ok q => simp
  | error e => simp

/-- A path leads to a place exactly if a call accepts it and its pieces are looked up to there. -/
theorem locate_eq_ok_iff_lookup {p : Path} :
    d.locate p = .ok q ↔ checkPath p = .ok () ∧ d.lookupPieces p (pieces p.bytes) = .ok q := by
  rw [locate_eq_ok_iff, lookupPieces_eq_ok_iff]

/-- From the directory on, the lookup of the joined path is one of the name. -/
theorem lookup_join_name (hn : (Component.name n).IsInner)
    (h : d.lookupPieces dir (pieces dir.bytes) = .ok q) (hdir : q.node.isDir = true) :
    ∃ k, d.lookupPieces (dir.join ⟨n⟩) (pieces (dir.join ⟨n⟩).bytes) = follow d.top k q [n] := by
  obtain ⟨s, hs, hf⟩ := lookupPieces_eq_ok_iff.1 h
  obtain ⟨ps, hjoin, hspoken⟩ := dir.pieces_join_name hn
  obtain ⟨k, -, hk⟩ := follow_append (follow_of_spoken_eq hspoken hf hdir)
  refine ⟨k, ?_⟩
  rw [lookupPieces, start, dir.isAbsolute_join_name hn, ← start, hs, hjoin]
  exact hk [n]

/-- A joined path leads somewhere only through the directory. -/
theorem lookup_of_join_name (hn : (Component.name n).IsInner)
    (h : d.lookupPieces (dir.join ⟨n⟩) (pieces (dir.join ⟨n⟩).bytes) = .ok r) :
    ∃ q, d.lookupPieces dir (pieces dir.bytes) = .ok q ∧ q.node.isDir = true := by
  obtain ⟨s, hs, hf⟩ := lookupPieces_eq_ok_iff.1 h
  obtain ⟨ps, hjoin, hspoken⟩ := dir.pieces_join_name hn
  rw [start, dir.isAbsolute_join_name hn, ← start] at hs
  rw [hjoin] at hf
  obtain ⟨q, hq, hdir⟩ := isDir_of_follow_append hf
  exact ⟨q, lookupPieces_eq_ok_iff.2 ⟨s, hs, follow_of_spoken_eq hspoken.symm hq hdir⟩, hdir⟩

/-- The joined path leads to an entry that is no link. -/
theorem locate_of_entry (hn : (Component.name n).IsInner) (hshort : n.length ≤ maxNameBytes)
    (hcheck : checkPath (dir.join ⟨n⟩) = .ok ()) (h : d.childAt? dir n = some node)
    (hplain : ∀ target, node ≠ .link target) : ∃ q, d.locate (dir.join ⟨n⟩) = .ok q ∧ q.node = node := by
  obtain ⟨q, hq, hchild⟩ := childAt?_eq_some_iff.1 h
  obtain ⟨k, hk⟩ := lookup_join_name hn hq (Node.isDir_of_child? hchild)
  have hstep : q.Step n (q.down n node) := .down node hn.1 hn.2.1 hshort hchild hplain
  have hstride : stride q [n] = .arrived (q.down n node) := stride_of_step hstep []
  refine ⟨q.down n node, locate_eq_ok_iff_lookup.2 ⟨hcheck, ?_⟩, rfl⟩
  rw [hk, follow_of_arrived hstride]

/-- Where the joined path leads somewhere, there is an entry. -/
theorem exists_entry_of_locate (hn : (Component.name n).IsInner) (hshort : n.length ≤ maxNameBytes)
    (h : d.locate (dir.join ⟨n⟩) = .ok r) : ∃ node, d.childAt? dir n = some node := by
  have hlookup := (locate_eq_ok_iff_lookup.1 h).2
  obtain ⟨q, hq, hdir⟩ := lookup_of_join_name hn hlookup
  obtain ⟨k, hk⟩ := lookup_join_name hn hq hdir
  cases hchild : q.node.child? n with
  | some node => exact ⟨node, childAt?_eq_some_iff.2 ⟨q, hq, hchild⟩⟩
  | none =>
    have hmissing := stride_of_missing hdir hn.1 hn.2.1 hshort hchild []
    rw [hk, follow_of_failed hmissing] at hlookup
    cases hlookup

end Disk

end PortableLayout
