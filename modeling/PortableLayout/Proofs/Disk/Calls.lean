import Mathlib.Data.List.TakeWhile
import PortableLayout.FileSystem.Disk
import PortableLayout.Proofs.Disk.Lookup

/-!
# The calls of a disk

What the calls say about the tree: when a path leads somewhere, what a probe can answer, and how making a
directory relates to looking its path up. A directory that was made is there under its path
(`isDir_of_makeDir`). One that cannot be made because something is there, while a probe finds nothing,
is kept from being made by a link that leads nowhere (`holdsDeadLink_of_makeDir`).
-/

set_option autoImplicit false

namespace PortableLayout.Disk

open Position

variable {d d' : Disk} {p : Path} {q s : Position} {last : Bytes} {e : IoError}

/-! ## Looking a path up -/

/-- A call accepts just the paths that have bytes, but no NUL byte, and that are not too long. -/
theorem checkPath_eq_ok_iff :
    checkPath p = .ok () ↔ 0 ∉ p.bytes ∧ p.bytes ≠ [] ∧ p.bytes.length ≤ maxPathBytes := by
  unfold checkPath
  by_cases hnul : 0 ∈ p.bytes
  · simp [hnul]
  · by_cases hempty : p.bytes = []
    · simp [hempty]
    · by_cases hlong : maxPathBytes < p.bytes.length
      · simp only [if_neg hnul, if_neg hempty, if_pos hlong]
        constructor
        · nofun
        · rintro ⟨-, -, hshort⟩
          omega
      · simp only [if_neg hnul, if_neg hempty, if_neg hlong]
        exact ⟨fun _ => ⟨hnul, hempty, Nat.not_lt.1 hlong⟩, fun _ => trivial⟩

/-- An accepted path is looked up piece by piece from its start. -/
theorem locate_of_check (hcheck : checkPath p = .ok ()) (hs : d.start p = .ok s) :
    d.locate p = (follow d.top maxLinks s (pieces p.bytes)).mapError .system := by
  rw [locate, hcheck]
  simp only [lookupPieces, hs]

/-- A path leads to a place exactly if a call accepts it and the lookup of its pieces ends there. -/
theorem locate_eq_ok_iff :
    d.locate p = .ok q ↔
      checkPath p = .ok () ∧
        ∃ s, d.start p = .ok s ∧ follow d.top maxLinks s (pieces p.bytes) = .ok q := by
  constructor
  · intro h
    cases hcheck : checkPath p with
    | error e =>
      rw [locate, hcheck] at h
      cases h
    | ok u =>
      refine ⟨rfl, ?_⟩
      cases hs : d.start p with
      | error e =>
        rw [locate, hcheck] at h
        simp only [lookupPieces, hs] at h
        cases h
      | ok s =>
        rw [locate_of_check hcheck hs] at h
        cases hf : follow d.top maxLinks s (pieces p.bytes) with
        | error e =>
          rw [hf] at h
          cases h
        | ok r =>
          rw [hf] at h
          cases h
          exact ⟨s, rfl, hf⟩
  · rintro ⟨hcheck, s, hs, hf⟩
    rw [locate_of_check hcheck hs, hf]
    rfl

/-- There is a directory at a path exactly if the path leads to one. -/
theorem isDir_iff : d.isDir p = true ↔ ∃ q, d.locate p = .ok q ∧ q.node.isDir = true := by
  unfold isDir
  cases d.locate p with
  | ok q => simp
  | error e => simp

/-- A lookup starts at a place of the tree. -/
theorem in_of_start (h : d.start p = .ok s) : s.In d.top := by
  rw [start] at h
  by_cases habs : p.isAbsolute = true
  · rw [if_pos habs] at h
    cases h
    exact .top
  · rw [if_neg habs] at h
    cases hcwd : (Position.top d.top).find? d.cwd with
    | none =>
      rw [hcwd] at h
      cases h
    | some r =>
      rw [hcwd] at h
      cases h
      exact (in_of_find? .top hcwd).1

/-- The place where a lookup starts stays where it is when the tree grows. -/
theorem start_of_extends (hcwd : d'.cwd = d.cwd) (hext : d.top.Extends d'.top)
    (h : d.start p = .ok s) : ∃ s', d'.start p = .ok s' ∧ Twins d.top d'.top s s' := by
  rw [start] at h
  by_cases habs : p.isAbsolute = true
  · rw [if_pos habs] at h
    cases h
    exact ⟨.top d'.top, by rw [start, if_pos habs], Twins.top d.top d'.top⟩
  · rw [if_neg habs] at h
    cases hfind : (Position.top d.top).find? d.cwd with
    | none =>
      rw [hfind] at h
      cases h
    | some r =>
      rw [hfind] at h
      cases h
      obtain ⟨hin, hloc⟩ := in_of_find? .top hfind
      rw [location_top, List.nil_append] at hloc
      obtain ⟨n', hn', -⟩ := hext _ _ hin.get?_location
      rw [hloc] at hn'
      obtain ⟨s', hs', hin', hloc', -⟩ := find?_of_get? (p := .top d'.top) .top hn'
      refine ⟨s', ?_, hin, hin', ?_⟩
      · rw [start, if_neg habs, hcwd, hs']
      · rw [hloc, hloc', location_top, List.nil_append]

/-- A path never leads to a link. -/
theorem plain_of_locate (h : d.locate p = .ok q) (target : Bytes) : q.node ≠ .link target := by
  obtain ⟨-, s, hs, hf⟩ := locate_eq_ok_iff.1 h
  exact plain_of_follow (in_of_start hs) hf (pieces_ne_nil _) target

/-! ## Probes -/

/-- A failed lookup is no lack of permission, and nothing that is there already. -/
theorem kind_of_isLookup {e : Errno} (h : e.IsLookup) :
    e.kind ≠ .permissionDenied ∧ e.kind ≠ .alreadyExists := by
  obtain rfl | rfl | rfl | rfl := h
  · exact ⟨nofun, nofun⟩
  · exact ⟨nofun, nofun⟩
  · exact ⟨nofun, nofun⟩
  · exact ⟨nofun, nofun⟩

/-- The refusal of a path is no lack of permission, and nothing that is there already. -/
theorem kind_of_checkPath (h : checkPath p = .error e) :
    e.kind ≠ .permissionDenied ∧ e.kind ≠ .alreadyExists := by
  unfold checkPath at h
  split at h
  · cases h
    exact ⟨nofun, nofun⟩
  · split at h
    · cases h
      exact ⟨nofun, nofun⟩
    · split at h
      · cases h
        exact ⟨nofun, nofun⟩
      · cases h

/-- Whatever the pieces, the errors are those that a lookup ends with. -/
theorem isLookup_of_lookupPieces {e : Errno} {todo : List Bytes}
    (h : d.lookupPieces p todo = .error e) : e.IsLookup := by
  unfold lookupPieces at h
  cases hs : d.start p with
  | error e' =>
    rw [hs] at h
    cases h
    unfold start at hs
    split at hs
    · cases hs
    · split at hs
      · cases hs
      · cases hs
        exact .inl rfl
  | ok s =>
    rw [hs] at h
    exact isLookup_of_follow h

/-- A path that leads nowhere is not for lack of permission. -/
theorem kind_of_locate (h : d.locate p = .error e) : e.kind ≠ .permissionDenied := by
  unfold locate at h
  cases hcheck : checkPath p with
  | error e' =>
    rw [hcheck] at h
    cases h
    exact (kind_of_checkPath hcheck).1
  | ok u =>
    rw [hcheck] at h
    cases hl : d.lookupPieces p (pieces p.bytes) with
    | ok r =>
      rw [hl] at h
      cases h
    | error e' =>
      rw [hl] at h
      cases h
      exact (kind_of_isLookup (isLookup_of_lookupPieces hl)).1

/-- The answer that something is there means that the path leads somewhere. -/
theorem probe_eq_true_iff : d.probe p = .ok true ↔ ∃ q, d.locate p = .ok q := by
  unfold probe
  cases d.locate p with
  | ok q => simp
  | error e => by_cases he : e.kind = .notFound <;> simp [he]

/-- The answer that nothing is there means that a lookup failed for want of an entry. -/
theorem probe_eq_false_iff :
    d.probe p = .ok false ↔ ∃ e : IoError, d.locate p = .error e ∧ e.kind = .notFound := by
  unfold probe
  cases d.locate p with
  | ok q => simp
  | error e => by_cases he : e.kind = .notFound <;> simp [he]

/-- A probe that fails says neither that there is nothing nor that it may not look. -/
theorem kind_of_probe (h : d.probe p = .error e) :
    e.kind ≠ .notFound ∧ e.kind ≠ .permissionDenied := by
  unfold probe at h
  cases hl : d.locate p with
  | ok q =>
    rw [hl] at h
    cases h
  | error e' =>
    rw [hl] at h
    by_cases he : e'.kind = .notFound
    · simp [he] at h
    · simp only [if_neg he] at h
      cases h
      exact ⟨he, kind_of_locate hl⟩

/-! ## Making a directory -/

/-- The last piece of a byte string has only empty pieces behind it. -/
theorem splitLast_eq_some {bytes : Bytes} {before : List Bytes}
    (h : splitLast bytes = some (before, last)) :
    last ≠ [] ∧ ∃ ends, pieces bytes = before ++ last :: ends ∧ ∀ piece ∈ ends, piece = [] := by
  unfold splitLast at h
  cases hd : (pieces bytes).reverse.dropWhile (· == []) with
  | nil =>
    rw [hd] at h
    cases h
  | cons x xs =>
    rw [hd] at h
    cases h
    have hhead := List.head?_dropWhile_not (· == ([] : Bytes)) (pieces bytes).reverse
    rw [hd] at hhead
    refine ⟨by simpa using hhead,
      ((pieces bytes).reverse.takeWhile (· == [])).reverse, ?_, ?_⟩
    · have happend :=
        List.takeWhile_append_dropWhile (p := (· == ([] : Bytes))) (l := (pieces bytes).reverse)
      rw [hd] at happend
      calc pieces bytes = (pieces bytes).reverse.reverse := (List.reverse_reverse _).symm
        _ = ((pieces bytes).reverse.takeWhile (· == []) ++ last :: xs).reverse := by rw [happend]
        _ = xs.reverse ++ last :: ((pieces bytes).reverse.takeWhile (· == [])).reverse := by simp
    · intro piece hpiece
      have := List.mem_takeWhile_imp (List.mem_reverse.1 hpiece)
      simpa using this

/-- Only a path of nothing but separators has no last piece. -/
theorem splitLast_eq_none {bytes : Bytes} (h : splitLast bytes = none) :
    ∀ piece ∈ pieces bytes, piece = [] := by
  unfold splitLast at h
  cases hd : (pieces bytes).reverse.dropWhile (· == []) with
  | nil =>
    intro piece hpiece
    have := List.dropWhile_eq_nil_iff.1 hd piece (List.mem_reverse.2 hpiece)
    simpa using this
  | cons x xs =>
    rw [hd] at h
    cases h

/-- Where the parent of a last piece is found, the path is accepted and the pieces before the last one
lead to a directory. -/
theorem locateParent_eq_ok (h : d.locateParent p = .ok (q, last)) :
    checkPath p = .ok () ∧ q.node.isDir = true ∧
      ∃ before s, splitLast p.bytes = some (before, last) ∧ d.start p = .ok s ∧
        follow d.top maxLinks s before = .ok q := by
  unfold locateParent at h
  cases hcheck : checkPath p with
  | error e =>
    rw [hcheck] at h
    cases h
  | ok u =>
    rw [hcheck] at h
    cases hsplit : splitLast p.bytes with
    | none =>
      rw [hsplit] at h
      cases h
    | some parts =>
      obtain ⟨before, last'⟩ := parts
      rw [hsplit] at h
      cases hs : d.start p with
      | error e =>
        simp only [lookupPieces, hs] at h
        cases h
      | ok s =>
        simp only [lookupPieces, hs] at h
        cases hf : follow d.top maxLinks s before with
        | error e =>
          rw [hf] at h
          cases h
        | ok r =>
          rw [hf] at h
          by_cases hdir : r.node.isDir = true
          · simp only [if_pos hdir] at h
            cases h
            exact ⟨rfl, hdir, before, s, rfl, rfl, hf⟩
          · simp only [if_neg hdir] at h
            cases h

/-- A lookup of a path is, from the directory of its last piece on, one of that piece. -/
theorem locate_of_locateParent (h : d.locateParent p = .ok (q, last)) :
    ∃ k ends, (∀ piece ∈ ends, piece = []) ∧
      d.locate p = (follow d.top k q (last :: ends)).mapError .system := by
  obtain ⟨hcheck, -, before, s, hsplit, hs, hf⟩ := locateParent_eq_ok h
  obtain ⟨-, ends, hpieces, hends⟩ := splitLast_eq_some hsplit
  obtain ⟨k, -, hk⟩ := follow_append hf
  exact ⟨k, ends, hends, by rw [locate_of_check hcheck hs, hpieces, hk]⟩

/-- The parent of a last piece is a place of the tree. -/
theorem in_of_locateParent (h : d.locateParent p = .ok (q, last)) : q.In d.top := by
  obtain ⟨-, -, before, s, -, hs, hf⟩ := locateParent_eq_ok h
  have htwins : Twins d.top d.top s s := ⟨in_of_start hs, in_of_start hs, rfl⟩
  obtain ⟨q', -, hq⟩ := htwins.follow (.refl d.top) hf
  exact hq.left

/-- Empty pieces at the end stay in the directory that they are taken in. -/
theorem stride_of_empty {ends : List Bytes} (hdir : q.node.isDir = true)
    (h : ∀ piece ∈ ends, piece = []) : stride q ends = .arrived q := by
  induction ends with
  | nil => rfl
  | cons piece ends ih =>
    have hpiece : piece = [] := h piece (by simp)
    rw [stride_of_step (.stay hdir (by rw [hpiece]; rfl))]
    exact ih fun piece hmem => h piece (by simp [hmem])

/-- Where a directory can be made, its parent is found and the last piece is a free name that is not too
long. -/
theorem makeDir_eq_ok (h : d.makeDir p = .ok d') :
    ∃ q last, d.locateParent p = .ok (q, last) ∧ last ≠ [dot] ∧ last ≠ [dot, dot] ∧
      last.length ≤ maxNameBytes ∧ q.node.child? last = none ∧ d' = d.put q last .emptyDir := by
  unfold makeDir at h
  cases hp : d.locateParent p with
  | error e =>
    rw [hp] at h
    cases h
  | ok found =>
    obtain ⟨q, last⟩ := found
    rw [hp] at h
    by_cases hdots : last = [dot] ∨ last = [dot, dot]
    · simp only [if_pos hdots] at h
      cases h
    · by_cases hlong : maxNameBytes < last.length
      · simp only [if_neg hdots, if_pos hlong] at h
        cases h
      · simp only [if_neg hdots, if_neg hlong] at h
        rw [not_or] at hdots
        cases hchild : q.node.child? last with
        | some c =>
          rw [hchild] at h
          cases h
        | none =>
          rw [hchild] at h
          cases h
          exact ⟨q, last, rfl, hdots.1, hdots.2, Nat.not_lt.1 hlong, hchild, rfl⟩

/-- A directory that can be made is made, and the call says so. -/
theorem createDir_of_makeDir (h : d.makeDir p = .ok d') : d.createDir p = (.ok (), d') := by
  rw [createDir, h]

/-- One that cannot be made leaves the disk as it is. -/
theorem createDir_of_error (h : d.makeDir p = .error e) : d.createDir p = (.error e, d) := by
  rw [createDir, h]

/-- The path of a directory that was made leads to it, below the directory that the parent leads to. -/
theorem locate_of_made (h : d.makeDir p = .ok d') :
    ∃ q last r, d.locateParent p = .ok (q, last) ∧ d' = d.put q last .emptyDir ∧
      Twins d.top d'.top q r ∧ q.node.child? last = none ∧ r.node.child? last = some .emptyDir ∧
      d'.locate p = .ok (r.down last .emptyDir) := by
  obtain ⟨q, last, hparent, hdot, hup, hshort, hnew, rfl⟩ := makeDir_eq_ok h
  obtain ⟨hcheck, hdir, before, s, hsplit, hs, hf⟩ := locateParent_eq_ok hparent
  obtain ⟨hlast, ends, hpieces, hends⟩ := splitLast_eq_some hsplit
  -- The lookup up to the parent ends at the same directory, which has the new entry now.
  obtain ⟨hext, q', htwins, hchild⟩ :=
    extends_put (in_of_locateParent hparent) hdir hnew .emptyDir
  have hcwd : (d.put q last .emptyDir).cwd = d.cwd := rfl
  obtain ⟨s', hs', hstart⟩ := start_of_extends hcwd hext hs
  obtain ⟨r, hr, hqr⟩ := hstart.follow hext hf
  have hrq : r = q' := hqr.right.ext htwins.right (by rw [← hqr.location, htwins.location])
  subst hrq
  obtain ⟨k, -, hk⟩ := follow_append hr
  -- From there the last piece leads to the new directory.
  have hsilent : isSilent last = false := by simp [isSilent, hlast, hdot]
  have hstep : r.Step last (r.down last .emptyDir) := by
    obtain hstep | ⟨target, hlink, -⟩ := step_or_meets hsilent hup hshort hchild
    · exact hstep
    · cases hlink
  have harrived : stride r (last :: ends) = .arrived (r.down last .emptyDir) := by
    rw [stride_of_step hstep]
    exact stride_of_empty rfl hends
  refine ⟨q, last, r, hparent, rfl, htwins, hnew, hchild, ?_⟩
  rw [locate_of_check hcheck hs', hpieces]
  have := hk (last :: ends)
  rw [follow_of_arrived harrived] at this
  simp only [put] at this ⊢
  rw [this]
  rfl

/-- The path of a directory that was made leads to a directory. -/
theorem isDir_of_makeDir (h : d.makeDir p = .ok d') : d'.isDir p = true := by
  obtain ⟨q, last, r, -, -, -, -, -, hlocate⟩ := locate_of_made h
  exact isDir_iff.2 ⟨r.down last .emptyDir, hlocate, rfl⟩

/-! ## Links that lead nowhere -/

/-- The target of the link that a path names, links followed up to there only. -/
def linkAt? (d : Disk) (p : Path) : Option Bytes :=
  match d.locateParent p with
  | .error _ => none
  | .ok (q, last) =>
    if last = [dot] ∨ last = [dot, dot] then none
    else
      match q.node.child? last with
      | some (.link target) => some target
      | _ => none

/-- A path names a link, and there is nothing where that link leads to. -/
def HoldsDeadLink (d : Disk) (p : Path) : Prop :=
  d.probe p = .ok false ∧ ∃ target, d.linkAt? p = some target

/-- A path leads to a regular file. -/
def HoldsFile (d : Disk) (p : Path) : Prop :=
  ∃ q content, d.locate p = .ok q ∧ q.node = .file content

/-- The parent of a last piece is refused as something that is there already only where there is no last
piece. -/
theorem splitLast_eq_none_of_error (h : d.locateParent p = .error e)
    (he : e.kind = .alreadyExists) : checkPath p = .ok () ∧ splitLast p.bytes = none := by
  unfold locateParent at h
  cases hcheck : checkPath p with
  | error e' =>
    rw [hcheck] at h
    cases h
    exact absurd he (kind_of_checkPath hcheck).2
  | ok u =>
    rw [hcheck] at h
    cases hsplit : splitLast p.bytes with
    | none => exact ⟨rfl, rfl⟩
    | some parts =>
      obtain ⟨before, last⟩ := parts
      rw [hsplit] at h
      cases hl : d.lookupPieces p before with
      | error e' =>
        simp only [hl] at h
        cases h
        exact absurd he (kind_of_isLookup (isLookup_of_lookupPieces hl)).2
      | ok q =>
        simp only [hl] at h
        split at h
        · cases h
        · cases h
          cases he

/-- A directory cannot be made where one is: at the root, at `.` and `..`, and at any entry. -/
theorem makeDir_error_cases (h : d.makeDir p = .error e) (he : e.kind = .alreadyExists) :
    (checkPath p = .ok () ∧ splitLast p.bytes = none) ∨
      ∃ q last, d.locateParent p = .ok (q, last) ∧
        ((last = [dot] ∨ last = [dot, dot]) ∨
          last ≠ [dot] ∧ last ≠ [dot, dot] ∧ last.length ≤ maxNameBytes ∧
            ∃ child, q.node.child? last = some child) := by
  unfold makeDir at h
  cases hp : d.locateParent p with
  | error e' =>
    rw [hp] at h
    cases h
    exact .inl (splitLast_eq_none_of_error hp he)
  | ok found =>
    obtain ⟨q, last⟩ := found
    refine .inr ⟨q, last, rfl, ?_⟩
    rw [hp] at h
    by_cases hdots : last = [dot] ∨ last = [dot, dot]
    · exact .inl hdots
    · simp only [if_neg hdots] at h
      rw [not_or] at hdots
      by_cases hlong : maxNameBytes < last.length
      · simp only [if_pos hlong] at h
        cases h
        cases he
      · simp only [if_neg hlong] at h
        cases hchild : q.node.child? last with
        | none =>
          rw [hchild] at h
          cases h
        | some child => exact .inr ⟨hdots.1, hdots.2, Nat.not_lt.1 hlong, child, rfl⟩

/-- A path with bytes and without a last piece is absolute. -/
theorem isAbsolute_of_splitLast (hne : p.bytes ≠ []) (h : splitLast p.bytes = none) :
    p.isAbsolute = true := by
  have hempty := splitLast_eq_none h
  cases hb : p.bytes with
  | nil => exact absurd hb hne
  | cons b r =>
    rw [hb] at hempty
    by_cases hslash : b = slash
    · simp [Path.isAbsolute, hb, hslash]
    · rw [pieces, if_neg hslash] at hempty
      split at hempty
      · simp at hempty
      · simp at hempty

/-- A path whose lookup arrives somewhere without a link is not said to hold nothing. -/
theorem not_probe_false_of_arrived {k : Nat} {todo : List Bytes} {r : Position}
    (hl : d.locate p = (follow d.top k q todo).mapError .system) (h : stride q todo = .arrived r) :
    d.probe p ≠ .ok false := by
  intro hprobe
  obtain ⟨e, he, -⟩ := probe_eq_false_iff.1 hprobe
  rw [hl, follow_of_arrived h] at he
  cases he

/-- A path whose lookup goes through something that is no directory is not said to hold nothing. -/
theorem not_probe_false_of_notADirectory {k : Nat} {todo : List Bytes}
    (hl : d.locate p = (follow d.top k q todo).mapError .system)
    (h : stride q todo = .failed .notADirectory) : d.probe p ≠ .ok false := by
  intro hprobe
  obtain ⟨e, he, hkind⟩ := probe_eq_false_iff.1 hprobe
  rw [hl, follow_of_failed h] at he
  cases he
  cases hkind

/-- From a node that is there, empty pieces lead to a directory or show that it is none. -/
theorem stride_empty_cases {ends : List Bytes} (q : Position) (h : ∀ piece ∈ ends, piece = []) :
    stride q ends = .arrived q ∨ stride q ends = .failed .notADirectory := by
  cases hdir : q.node.isDir with
  | true => exact .inl (stride_of_empty hdir h)
  | false =>
    cases ends with
    | nil => exact .inl rfl
    | cons piece ends => exact .inr (by rw [stride, if_pos hdir])

/-- A path whose lookup arrives somewhere but for empty pieces at the end is not said to hold nothing. -/
theorem not_probe_false_of_ends {k : Nat} {todo ends : List Bytes} {r : Position}
    (hl : d.locate p = (follow d.top k q todo).mapError .system)
    (hr : stride q todo = stride r ends) (h : ∀ piece ∈ ends, piece = []) :
    d.probe p ≠ .ok false := by
  obtain harrived | hfailed := stride_empty_cases r h
  · exact not_probe_false_of_arrived hl (hr.trans harrived)
  · exact not_probe_false_of_notADirectory hl (hr.trans hfailed)

/-- Where a probe finds nothing and yet a directory cannot be made for something that is there, that is a
link that leads nowhere. -/
theorem holdsDeadLink_of_makeDir (hprobe : d.probe p = .ok false) (h : d.makeDir p = .error e)
    (he : e.kind = .alreadyExists) : d.HoldsDeadLink p := by
  refine ⟨hprobe, ?_⟩
  obtain ⟨hcheck, hsplit⟩ | ⟨q, last, hparent, hlast⟩ := makeDir_error_cases h he
  · have habs := isAbsolute_of_splitLast (checkPath_eq_ok_iff.1 hcheck).2.1 hsplit
    have hs : d.start p = .ok (.top d.top) := by rw [start, if_pos habs]
    exact absurd hprobe
      (not_probe_false_of_ends (locate_of_check hcheck hs) rfl (splitLast_eq_none hsplit))
  · obtain ⟨k, ends, hends, hl⟩ := locate_of_locateParent hparent
    obtain ⟨-, hdir, before, s, hsplit, -⟩ := locateParent_eq_ok hparent
    obtain ⟨hne, -⟩ := splitLast_eq_some hsplit
    obtain hdots | ⟨hdot, hup, hshort, child, hchild⟩ := hlast
    · obtain rfl | rfl := hdots
      · have hstep : q.Step [dot] q := .stay hdir rfl
        exact absurd hprobe (not_probe_false_of_ends hl (stride_of_step hstep ends) hends)
      · have hstep : q.Step [dot, dot] q.up := .up hdir rfl
        exact absurd hprobe (not_probe_false_of_ends hl (stride_of_step hstep ends) hends)
    · have hsilent : isSilent last = false := by simp [isSilent, hne, hdot]
      obtain hstep | ⟨target, rfl, -⟩ := step_or_meets hsilent hup hshort hchild
      · exact absurd hprobe (not_probe_false_of_ends hl (stride_of_step hstep ends) hends)
      · exact ⟨target, by simp [linkAt?, hparent, hdot, hup, hchild]⟩

end PortableLayout.Disk
