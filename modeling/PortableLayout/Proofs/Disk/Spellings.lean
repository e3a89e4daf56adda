import PortableLayout.Proofs.Disk.Calls
import PortableLayout.Proofs.Path.Normal

/-!
# Spellings that lead to the same directory

A silent piece asks for a directory at the place where it stands and changes nothing else. Two lists of
pieces that differ in silent pieces only therefore end in the same directory, if they end in one
(`follow_of_spoken_eq`). It does not hold for files: `f` leads to a file and `f/` nowhere.

On a disk, a path leads to a directory exactly when its normal spelling does and the path itself is not
too long to be looked up (`Disk.isDir_iff_normal`).
-/

set_option autoImplicit false

namespace PortableLayout

/-- The pieces that are not silent. -/
def spoken (todo : List Bytes) : List Bytes :=
  todo.filter fun piece => !isSilent piece

/-- A silent piece is left out. -/
theorem spoken_cons_of_silent {piece : Bytes} (h : isSilent piece = true) (todo : List Bytes) :
    spoken (piece :: todo) = spoken todo := by
  simp [spoken, h]

/-- Any other piece is kept. -/
theorem spoken_cons_of_spoken {piece : Bytes} (h : isSilent piece = false) (todo : List Bytes) :
    spoken (piece :: todo) = piece :: spoken todo := by
  simp [spoken, h]

/-- Pieces one list after the other are kept one list after the other. -/
theorem spoken_append (todo rest : List Bytes) :
    spoken (todo ++ rest) = spoken todo ++ spoken rest :=
  List.filter_append todo rest

section Lookup

variable {top : Node} {p q : Position} {piece target : Bytes} {todo todo' rest : List Bytes}
  {links : Nat}

/-- A stride that arrives at a directory starts at one. -/
theorem isDir_of_stride_arrived (h : stride p todo = .arrived q) (hdir : q.node.isDir = true) :
    p.node.isDir = true := by
  cases todo with
  | nil =>
    cases h
    exact hdir
  | cons piece todo =>
    obtain ⟨r, hstep, -⟩ := stride_cons_arrived h
    exact hstep.isDir

/-- A silent piece stays in a directory. -/
theorem stride_cons_of_silent (hdir : p.node.isDir = true) (h : isSilent piece = true)
    (rest : List Bytes) : stride p (piece :: rest) = stride p rest :=
  stride_of_step (.stay hdir h) rest

/-- Without its silent pieces a stride arrives at the same place. -/
theorem stride_spoken_of_arrived (h : stride p todo = .arrived q) :
    stride p (spoken todo) = .arrived q := by
  induction todo generalizing p with
  | nil => exact h
  | cons piece todo ih =>
    obtain ⟨r, hstep, hr⟩ := stride_cons_arrived h
    cases hsilent : isSilent piece with
    | true =>
      rw [stride_cons_of_silent hstep.isDir hsilent] at h
      rw [spoken_cons_of_silent hsilent]
      exact ih h
    | false =>
      rw [spoken_cons_of_spoken hsilent, stride_of_step hstep]
      exact ih hr

/-- Without its silent pieces a stride meets the same link. -/
theorem stride_spoken_of_met (h : stride p todo = .met target q rest) :
    stride p (spoken todo) = .met target q (spoken rest) := by
  induction todo generalizing p with
  | nil => cases h
  | cons piece todo ih =>
    cases hsilent : isSilent piece with
    | true =>
      rw [stride_cons_of_silent (isDir_of_stride_met h) hsilent] at h
      rw [spoken_cons_of_silent hsilent]
      exact ih h
    | false =>
      rw [spoken_cons_of_spoken hsilent]
      obtain ⟨r, hstep, hr⟩ | ⟨hmeets, rfl, rfl⟩ := stride_cons_met h
      · rw [stride_of_step hstep]
        exact ih hr
      · exact stride_of_meets hmeets _

/-- With silent pieces a stride arrives at the same place, if it is a directory. -/
theorem stride_of_spoken_arrived (h : stride p (spoken todo) = .arrived q)
    (hdir : q.node.isDir = true) : stride p todo = .arrived q := by
  induction todo generalizing p with
  | nil => exact h
  | cons piece todo ih =>
    cases hsilent : isSilent piece with
    | true =>
      rw [stride_cons_of_silent (isDir_of_stride_arrived h hdir) hsilent]
      rw [spoken_cons_of_silent hsilent] at h
      exact ih h
    | false =>
      rw [spoken_cons_of_spoken hsilent] at h
      obtain ⟨r, hstep, hr⟩ := stride_cons_arrived h
      rw [stride_of_step hstep]
      exact ih hr

/-- With silent pieces a stride meets the same link. -/
theorem stride_of_spoken_met (h : stride p (spoken todo) = .met target q rest) :
    ∃ more, stride p todo = .met target q more ∧ spoken more = rest := by
  induction todo generalizing p with
  | nil => cases h
  | cons piece todo ih =>
    cases hsilent : isSilent piece with
    | true =>
      rw [stride_cons_of_silent (isDir_of_stride_met h) hsilent]
      rw [spoken_cons_of_silent hsilent] at h
      exact ih h
    | false =>
      rw [spoken_cons_of_spoken hsilent] at h
      obtain ⟨r, hstep, hr⟩ | ⟨hmeets, rfl, rfl⟩ := stride_cons_met h
      · rw [stride_of_step hstep]
        exact ih hr
      · exact ⟨todo, stride_of_meets hmeets _, rfl⟩

/-- Silent pieces do not matter for a lookup that ends in a directory, nor for the links on its way. -/
theorem follow_of_spoken_eq (heq : spoken todo = spoken todo')
    (h : follow top links p todo = .ok q) (hdir : q.node.isDir = true) :
    follow top links p todo' = .ok q := by
  have hreaches := reaches_of_follow h
  clear h
  induction hreaches generalizing todo' with
  | arrived stop =>
    have hspoken := stride_spoken_of_arrived stop
    rw [heq] at hspoken
    exact follow_of_arrived (stride_of_spoken_arrived hspoken hdir)
  | linked stop named later ih =>
    have hspoken := stride_spoken_of_met stop
    rw [heq] at hspoken
    obtain ⟨rest', hmet', hrest'⟩ := stride_of_spoken_met hspoken
    rw [follow_of_met hmet' named]
    apply ih
    rw [spoken_append, spoken_append, hrest']

end Lookup

/-! ## Paths and their normal spelling -/

namespace Path

/-- The spoken pieces of a path are its components without the root and a leading `.`. -/
theorem spoken_pieces (p : Path) :
    spoken (pieces p.bytes) =
      (p.components.filter fun c => c ≠ .root ∧ c ≠ .here).map Component.bytes := by
  have hinner : ∀ ps : List Bytes, (∀ q ∈ ps, slash ∉ q) →
      ((ps.filterMap Component.ofPiece?).filter fun c => c ≠ .root ∧ c ≠ .here).map Component.bytes =
        spoken ps := by
    intro ps hps
    rw [List.filter_eq_self.2, map_bytes_filterMap_ofPiece?, spoken]
    intro c hc
    have := isInner_of_mem_filterMap hps hc
    cases c with
    | root => exact absurd this id
    | here => exact absurd this id
    | up => rfl
    | name n => rfl
  obtain rfl | ⟨r, hb, hc⟩ | ⟨first, rest, -, -, hp, hc⟩ := components_cases p
  · rfl
  · have hpieces : pieces p.bytes = [] :: pieces r := by
      rw [hb, pieces, if_pos rfl]
    rw [hpieces, hc, spoken_cons_of_silent rfl, ← hinner _ fun _ h => slash_notMem_of_mem_pieces h]
    rfl
  · have hslash := slash_notMem_of_pieces_eq hp
    by_cases hdot : first = [dot]
    · rw [hp, hc, if_pos hdot, hdot, spoken_cons_of_silent rfl,
        ← hinner rest fun q hq => hslash q (List.mem_cons_of_mem _ hq)]
      rfl
    · rw [hp, hc, if_neg hdot, hinner _ hslash]

/-- A path is absolute exactly if the root is among its components. -/
theorem isAbsolute_iff_root_mem {p : Path} : p.isAbsolute = true ↔ .root ∈ p.components := by
  obtain rfl | ⟨r, hb, hc⟩ | ⟨first, rest, -, habs, hp, hc⟩ := components_cases p
  · simp [isAbsolute, empty, components]
  · simp [isAbsolute, hb, hc]
  · have hslash := slash_notMem_of_pieces_eq hp
    have hroot : ∀ ps : List Bytes, (∀ q ∈ ps, slash ∉ q) →
        Component.root ∉ ps.filterMap Component.ofPiece? :=
      fun ps hps hmem => isInner_of_mem_filterMap hps hmem
    have hmem : Component.root ∉ p.components := by
      rw [hc]
      by_cases hdot : first = [dot]
      · rw [if_pos hdot, List.mem_cons, not_or]
        exact ⟨by simp, hroot rest fun q hq => hslash q (List.mem_cons_of_mem _ hq)⟩
      · rw [if_neg hdot]
        exact hroot _ hslash
    simp [isAbsolute, habs, hmem]

/-- The normal spelling of a path is absolute exactly if the path is. -/
theorem isAbsolute_normal (p : Path) : p.normal.isAbsolute = p.isAbsolute := by
  rw [Bool.eq_iff_iff, isAbsolute_iff_root_mem, isAbsolute_iff_root_mem, components_normal]

/-- The normal spelling has the same pieces, silent ones aside. -/
theorem spoken_pieces_normal (p : Path) : spoken (pieces p.normal.bytes) = spoken (pieces p.bytes) := by
  rw [spoken_pieces, spoken_pieces, components_normal]

end Path

namespace Disk

variable {d : Disk} {p p' : Path}

/-- Of two paths with the same pieces, silent ones aside, the other leads to a directory if the one
does. -/
theorem isDir_of_spoken_eq (habs : p'.isAbsolute = p.isAbsolute)
    (heq : spoken (pieces p.bytes) = spoken (pieces p'.bytes)) (hcheck : checkPath p' = .ok ())
    (h : d.isDir p = true) : d.isDir p' = true := by
  obtain ⟨q, hq, hdir⟩ := isDir_iff.1 h
  obtain ⟨-, s, hs, hf⟩ := locate_eq_ok_iff.1 hq
  have hs' : d.start p' = .ok s := by rw [start, habs, ← hs, start]
  exact isDir_iff.2
    ⟨q, locate_eq_ok_iff.2 ⟨hcheck, s, hs', follow_of_spoken_eq heq hf hdir⟩, hdir⟩

/-- A path that leads to a directory is accepted. -/
theorem checkPath_of_isDir (h : d.isDir p = true) : checkPath p = .ok () := by
  obtain ⟨q, hq, -⟩ := isDir_iff.1 h
  exact (locate_eq_ok_iff.1 hq).1

/-- A path leads to a directory if its normal spelling does, unless it is too long to be looked up. -/
theorem isDir_iff_normal (hne : p ≠ .empty) :
    d.isDir p = true ↔ p.bytes.length ≤ maxPathBytes ∧ d.isDir p.normal = true := by
  constructor
  · intro h
    obtain ⟨hnul, -, hlong⟩ := checkPath_eq_ok_iff.1 (checkPath_of_isDir h)
    refine ⟨hlong, isDir_of_spoken_eq p.isAbsolute_normal p.spoken_pieces_normal.symm ?_ h⟩
    refine checkPath_eq_ok_iff.2 ⟨?_, ?_, Nat.le_trans p.length_normal_le hlong⟩
    · rwa [Path.mem_bytes_normal_iff (by decide) (by decide)]
    · intro hempty
      exact hne (Path.normal_eq_empty_iff.1 (congrArg Path.mk hempty))
  · rintro ⟨hlong, h⟩
    obtain ⟨hnul, -, -⟩ := checkPath_eq_ok_iff.1 (checkPath_of_isDir h)
    refine isDir_of_spoken_eq p.isAbsolute_normal.symm p.spoken_pieces_normal ?_ h
    refine checkPath_eq_ok_iff.2 ⟨?_, fun hempty => hne (congrArg Path.mk hempty), hlong⟩
    rwa [Path.mem_bytes_normal_iff (by decide) (by decide)] at hnul

end Disk

end PortableLayout
