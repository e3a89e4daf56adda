import PortableLayout.Proofs.Disk.Calls
import PortableLayout.Proofs.Path.Rooted

/-!
# Descending from the top of a disk

An absolute path in its normal spelling is looked up from the top, one component after the other
(`Disk.descend`). A descent that fails fails in the same way with more components behind it, and each
component but the last one leads to a directory. So the calls on a path are decided by the descent to its
parent: where that one fails, a directory cannot be made for the same reason (`makeDir_of_descend_error`),
and where one can be made its parent is a directory (`isDir_of_locateParent`).
-/

set_option autoImplicit false

namespace PortableLayout.Disk

open Position
open PortableLayout.Path (rooted isAbsolute_rooted pieces_rooted_concat)

/-- Where the root and these components lead. -/
def descend (d : Disk) (cs : List Component) : Except Errno Position :=
  follow d.top maxLinks (.top d.top) ([] :: cs.map Component.bytes)

variable {d d' : Disk} {p : Path} {cs ds : List Component} {c : Component} {q r : Position}
  {last : Bytes} {e : Errno}

/-! ## Longer and shorter descents -/

/-- A descent that fails does not go on. -/
theorem descend_append_of_error (h : d.descend cs = .error e) (ds : List Component) :
    d.descend (cs ++ ds) = .error e := by
  rw [descend, List.map_append, ← List.cons_append]
  exact follow_append_of_error h _

/-- Where a descent ends, each shorter one ends as well. -/
theorem descend_of_isPrefix (hshorter : ds <+: cs) (h : d.descend cs = .ok r) :
    ∃ q, d.descend ds = .ok q := by
  obtain ⟨more, rfl⟩ := hshorter
  cases hds : d.descend ds with
  | ok q => exact ⟨q, rfl⟩
  | error e =>
    rw [descend_append_of_error hds more] at h
    cases h

/-- What has a component below it is a directory. -/
theorem isDir_of_descend_concat (h : d.descend (cs ++ [c]) = .ok r) :
    ∃ q, d.descend cs = .ok q ∧ q.node.isDir = true := by
  rw [descend, List.map_append, ← List.cons_append] at h
  exact isDir_of_follow_append h

/-! ## Calls on absolute paths -/

/-- A path spelled from the root starts at the top. -/
theorem start_rooted (hcs : ∀ c ∈ cs, c.IsInner) : d.start (rooted cs) = .ok (.top d.top) :=
  if_pos (isAbsolute_rooted hcs)

/-- One empty piece more at the start of a lookup says nothing. -/
theorem follow_empty_empty (top : Node) (links : Nat) (p : Position) :
    follow top links p [[], []] = follow top links p [[]] := by
  cases hdir : p.node.isDir with
  | true =>
    have hstay : p.Step [] p := .stay hdir rfl
    rw [follow, follow, stride_of_step hstay]
  | false => rw [follow, follow, stride, stride, if_pos hdir, if_pos hdir]

/-- An accepted path from the root leads where the descent through its components ends. -/
theorem locate_rooted (hcs : ∀ c ∈ cs, c.IsInner) (hcheck : checkPath (rooted cs) = .ok ()) :
    d.locate (rooted cs) = (d.descend cs).mapError .system := by
  rw [locate_of_check hcheck (start_rooted hcs), descend]
  obtain rfl | ⟨before, c, rfl⟩ := cs.eq_nil_or_concat
  · have hpieces : pieces (rooted []).bytes = [[], []] := rfl
    rw [hpieces, follow_empty_empty]
    rfl
  · rw [List.concat_eq_append] at hcs ⊢
    rw [pieces_rooted_concat hcs, List.map_append]
    rfl

/-- The descent through the components of a path from the root ends where the path leads to. -/
theorem descend_of_locate (hcs : ∀ c ∈ cs, c.IsInner) (h : d.locate (rooted cs) = .ok q) :
    d.descend cs = .ok q := by
  obtain ⟨hcheck, -⟩ := locate_eq_ok_iff.1 h
  rw [locate_rooted hcs hcheck] at h
  cases hd : d.descend cs with
  | ok r =>
    rw [hd] at h
    cases h
    rfl
  | error e =>
    rw [hd] at h
    cases h

/-- There is a directory at such a path exactly if the descent ends in one. -/
theorem isDir_rooted_iff (hcs : ∀ c ∈ cs, c.IsInner) (hcheck : checkPath (rooted cs) = .ok ()) :
    d.isDir (rooted cs) = true ↔ ∃ q, d.descend cs = .ok q ∧ q.node.isDir = true := by
  rw [isDir_iff, locate_rooted hcs hcheck]
  cases d.descend cs with
  | ok q => simp [Except.mapError]
  | error e => simp [Except.mapError]

/-- What the system accepts it accepts cut off at any component, too. -/
theorem checkPath_of_isPrefix (hshorter : ds <+: cs) (hcs : ∀ c ∈ cs, c.IsInner)
    (hcheck : checkPath (rooted cs) = .ok ()) : checkPath (rooted ds) = .ok () := by
  obtain ⟨hnul, -, hlong⟩ := checkPath_eq_ok_iff.1 hcheck
  have hds := Path.isInner_of_isPrefix hshorter hcs
  refine checkPath_eq_ok_iff.2 ⟨?_, ?_, ?_⟩
  · intro hmem
    exact hnul (Path.mem_bytes_rooted_of_isPrefix (by decide) hshorter hcs hmem)
  · exact Path.bytes_rooted_ne_nil hds
  · exact Nat.le_trans (Path.length_rooted_le_of_isPrefix hshorter hcs) hlong

/-- The last piece of such a path is its last component. -/
theorem splitLast_rooted_concat (hcs : ∀ e ∈ cs ++ [c], e.IsInner) :
    splitLast (rooted (cs ++ [c])).bytes = some ([] :: cs.map Component.bytes, c.bytes) := by
  have hne : c.bytes ≠ [] := (hcs c (by simp)).bytes_ne_nil
  rw [splitLast, pieces_rooted_concat hcs, List.reverse_append, List.reverse_singleton,
    List.singleton_append, List.dropWhile_cons_of_neg (by simpa using hne)]
  simp only [List.reverse_reverse]

/-- The parent of the last piece is where the descent through the others ends. -/
theorem descend_of_locateParent (hcs : ∀ e ∈ cs ++ [c], e.IsInner)
    (h : d.locateParent (rooted (cs ++ [c])) = .ok (q, last)) :
    d.descend cs = .ok q ∧ q.node.isDir = true := by
  obtain ⟨-, hdir, before, s, hsplit, hs, hf⟩ := locateParent_eq_ok h
  rw [splitLast_rooted_concat hcs] at hsplit
  rw [start_rooted hcs] at hs
  cases hsplit
  cases hs
  exact ⟨hf, hdir⟩

/-- Below a place that the descent does not get to no directory is made, for the same reason. -/
theorem makeDir_of_descend_error (hcs : ∀ e ∈ cs ++ [c], e.IsInner)
    (hcheck : checkPath (rooted (cs ++ [c])) = .ok ()) (h : d.descend cs = .error e) :
    d.makeDir (rooted (cs ++ [c])) = .error (.system e) := by
  have hparent : d.locateParent (rooted (cs ++ [c])) = .error (.system e) := by
    unfold locateParent
    rw [hcheck]
    simp only [splitLast_rooted_concat hcs, lookupPieces, start_rooted hcs]
    rw [descend] at h
    rw [h]
  rw [makeDir, hparent]

/-- A directory can be made only where nothing is. -/
theorem locate_of_makeDir (h : d.makeDir p = .ok d') : d.locate p = .error (.system .noEntry) := by
  obtain ⟨q, last, hparent, hdot, hup, hshort, hnew, -⟩ := makeDir_eq_ok h
  obtain ⟨-, hdir, before, s, hsplit, -⟩ := locateParent_eq_ok hparent
  obtain ⟨hne, -⟩ := splitLast_eq_some hsplit
  obtain ⟨k, ends, -, hl⟩ := locate_of_locateParent hparent
  have hspoken : isSilent last = false := by simp [isSilent, hne, hdot]
  have hfail := stride_of_missing hdir hspoken hup hshort hnew ends
  rw [hl, follow_of_failed hfail]
  rfl

/-- A directory is made only where the descent found no entry. -/
theorem descend_of_makeDir (hcs : ∀ c ∈ cs, c.IsInner) (hcheck : checkPath (rooted cs) = .ok ())
    (h : d.makeDir (rooted cs) = .ok d') : d.descend cs = .error .noEntry := by
  have hlocate := locate_of_makeDir h
  rw [locate_rooted hcs hcheck] at hlocate
  cases hd : d.descend cs with
  | ok q =>
    rw [hd] at hlocate
    cases hlocate
  | error e =>
    rw [hd] at hlocate
    cases hlocate
    rfl

/-- Where a call finds the parent of a path, that is a directory. -/
theorem isDir_of_locateParent (hcs : ∀ e ∈ cs ++ [c], e.IsInner)
    (h : d.locateParent (rooted (cs ++ [c])) = .ok (q, last)) : d.isDir (rooted cs) = true := by
  have hshorter : cs <+: cs ++ [c] := List.prefix_append cs [c]
  obtain ⟨hcheck, -⟩ := locateParent_eq_ok h
  exact (isDir_rooted_iff (Path.isInner_of_isPrefix hshorter hcs)
    (checkPath_of_isPrefix hshorter hcs hcheck)).2 ⟨q, descend_of_locateParent hcs h⟩

/-- What lies above a path that leads somewhere is a directory. -/
theorem isDir_of_locate_concat (hcs : ∀ e ∈ cs ++ [c], e.IsInner)
    (h : d.locate (rooted (cs ++ [c])) = .ok r) : d.isDir (rooted cs) = true := by
  have hshorter : cs <+: cs ++ [c] := List.prefix_append cs [c]
  obtain ⟨hcheck, -⟩ := locate_eq_ok_iff.1 h
  exact (isDir_rooted_iff (Path.isInner_of_isPrefix hshorter hcs)
    (checkPath_of_isPrefix hshorter hcs hcheck)).2 (isDir_of_descend_concat (descend_of_locate hcs h))

/-- What lies above a directory is a directory. -/
theorem isDir_of_isDir_concat (hcs : ∀ e ∈ cs ++ [c], e.IsInner) (h : d.isDir (rooted (cs ++ [c])) = true) :
    d.isDir (rooted cs) = true := by
  obtain ⟨r, hr, -⟩ := isDir_iff.1 h
  exact isDir_of_locate_concat hcs hr

/-- What lies above a place where a directory can be made is one. -/
theorem isDir_of_makeDir_concat (hcs : ∀ e ∈ cs ++ [c], e.IsInner)
    (h : d.makeDir (rooted (cs ++ [c])) = .ok d') : d.isDir (rooted cs) = true := by
  obtain ⟨q, last, hparent, -⟩ := makeDir_eq_ok h
  exact isDir_of_locateParent hcs hparent

end PortableLayout.Disk
