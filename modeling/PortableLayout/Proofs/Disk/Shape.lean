import PortableLayout.Proofs.Disk.Additions

/-!
# Trees that differ in what their files hold

Two trees are alike if they have nodes at the same locations, of the same kinds and with the same targets, and
only the bytes of files differ. A lookup cannot tell such trees apart: it ends at the same location or with
the same error (`Twins.follow_alike`). So probes answer alike, and a directory that can be made on one disk can
be made at the same location of the other (`Disk.Alike.makeDir`).
-/

set_option autoImplicit false

namespace PortableLayout

/-- Two calls that came to the same: results that correspond, or one error. -/
inductive SameOutcome {ε α β : Type} (R : α → β → Prop) : Except ε α → Except ε β → Prop
  | ok {a : α} {b : β} (h : R a b) : SameOutcome R (.ok a) (.ok b)
  | error (e : ε) : SameOutcome R (.error e) (.error e)

/-- Outcomes that are the same stay so if their errors are told in another way. -/
theorem SameOutcome.mapError {ε ε' α β : Type} {R : α → β → Prop} {x : Except ε α} {y : Except ε β}
    (h : SameOutcome R x y) (f : ε → ε') : SameOutcome R (x.mapError f) (y.mapError f) := by
  cases h with
  | ok h => exact .ok h
  | error e => exact .error (f e)

namespace Node

/-- Two nodes of one kind; links with the same target, and files with any bytes. -/
inductive SameShape : Node → Node → Prop
  | dir (entries entries' : List (Bytes × Node)) : SameShape (.dir entries) (.dir entries')
  | file (content content' : Bytes) : SameShape (.file content) (.file content')
  | link (target : Bytes) : SameShape (.link target) (.link target)

/-- The nodes of two trees have the same locations and shapes. -/
def Alike (t t' : Node) : Prop :=
  ∀ l, Option.Rel SameShape (t.get? l) (t'.get? l)

/-- Nodes of one shape are both directories or neither is. -/
theorem SameShape.isDir_eq {a b : Node} (h : a.SameShape b) : b.isDir = a.isDir := by
  cases h with
  | dir es es' => rfl
  | file c c' => rfl
  | link target => rfl

/-- The same entry has the same shape. -/
theorem SameEntry.sameShape {a b : Node} (h : a.SameEntry b) : a.SameShape b := by
  cases h with
  | dir es es' => exact .dir es es'
  | file content => exact .file content content
  | link target => exact .link target

/-- Shapes that are the same for two nodes are so for entries that are the same as these. -/
theorem SameShape.of_sameEntry {a b a' b' : Node} (ha : a.SameEntry a') (hb : b.SameEntry b')
    (h : a.SameShape b) : a'.SameShape b' := by
  cases h with
  | dir es es' =>
    cases ha
    cases hb
    exact .dir _ _
  | file c c' =>
    cases ha
    cases hb
    exact .file _ _
  | link target =>
    cases ha
    cases hb
    exact .link target

end Node

variable {t t' : Node} {p p' : Position}

/-! ## Lookups in trees that are alike -/

/-- Two strides that came to the same, seen from two trees. -/
inductive Stride.Alike (t t' : Node) : Stride → Stride → Prop
  | arrived {q q' : Position} (h : Twins t t' q q') : Stride.Alike t t' (.arrived q) (.arrived q')
  | failed (e : Errno) : Stride.Alike t t' (.failed e) (.failed e)
  | met {q q' : Position} (target : Bytes) (rest : List Bytes) (h : Twins t t' q q') :
      Stride.Alike t t' (.met target q rest) (.met target q' rest)

namespace Twins

/-- At one location, trees that are alike have nodes of one shape. -/
theorem sameShape (h : Twins t t' p p') (ht : t.Alike t') : p.node.SameShape p'.node := by
  have hnode := ht p.location
  rw [h.left.get?_location, h.location, h.right.get?_location] at hnode
  cases hnode with
  | some hshape => exact hshape

/-- A name there leads to nodes of one shape, or to none in both trees. -/
theorem child_rel (h : Twins t t' p p') (ht : t.Alike t') (name : Bytes) :
    Option.Rel Node.SameShape (p.node.child? name) (p'.node.child? name) := by
  have hchild := ht (p.location ++ [name])
  rw [Node.get?_append, h.left.get?_location, h.location, Node.get?_append, h.right.get?_location] at hchild
  exact hchild

/-- A stride comes to the same in trees that are alike. -/
theorem stride_alike (h : Twins t t' p p') (ht : t.Alike t') (todo : List Bytes) :
    Stride.Alike t t' (stride p todo) (stride p' todo) := by
  induction todo generalizing p p' with
  | nil => exact .arrived h
  | cons piece todo ih =>
    have hkind : p'.node.isDir = p.node.isDir := (h.sameShape ht).isDir_eq
    rw [stride, stride, hkind]
    by_cases hdir : p.node.isDir = false
    · rw [if_pos hdir, if_pos hdir]
      exact .failed .notADirectory
    rw [if_neg hdir, if_neg hdir]
    by_cases hsilent : isSilent piece = true
    · rw [if_pos hsilent, if_pos hsilent]
      exact ih h
    rw [if_neg hsilent, if_neg hsilent]
    by_cases hup : piece = [dot, dot]
    · rw [if_pos hup, if_pos hup]
      exact ih h.up
    rw [if_neg hup, if_neg hup]
    by_cases hlong : maxNameBytes < piece.length
    · rw [if_pos hlong, if_pos hlong]
      exact .failed .nameTooLong
    rw [if_neg hlong, if_neg hlong]
    -- Only here is the tree asked, and there the same name leads to the same shape.
    have hchild := h.child_rel ht piece
    generalize hc : p.node.child? piece = found, hc' : p'.node.child? piece = found' at hchild
    cases hchild with
    | none => exact .failed .noEntry
    | some hshape =>
      have htwins := h.below hc hc'
      cases hshape with
      | dir es es' => exact ih htwins
      | file content content' => exact ih htwins
      | link target => exact .met target todo h

/-- A lookup comes to the same, links followed. -/
theorem follow_alike (h : Twins t t' p p') (ht : t.Alike t') (links : Nat) (todo : List Bytes) :
    SameOutcome (Twins t t') (PortableLayout.follow t links p todo)
      (PortableLayout.follow t' links p' todo) := by
  induction links generalizing p p' todo with
  | zero =>
    rw [PortableLayout.follow, PortableLayout.follow]
    have hstride := h.stride_alike ht todo
    generalize stride p todo = x, stride p' todo = x' at hstride
    cases hstride with
    | arrived hq => exact .ok hq
    | failed e => exact .error e
    | met target rest hq => exact .error Errno.linkLoop
  | succ links ih =>
    rw [PortableLayout.follow, PortableLayout.follow]
    have hstride := h.stride_alike ht todo
    generalize stride p todo = x, stride p' todo = x' at hstride
    cases hstride with
    | arrived hq => exact .ok hq
    | failed e => exact .error e
    | met target rest hq =>
      by_cases htarget : target = []
      · simp only [if_pos htarget]
        exact .error Errno.noEntry
      · simp only [if_neg htarget]
        exact ih (hq.linkStart target) (pieces target ++ rest)

/-- A location is found in both trees or in none. -/
theorem find?_alike (h : Twins t t' p p') (ht : t.Alike t') (l : List Bytes) :
    Option.Rel (Twins t t') (p.find? l) (p'.find? l) := by
  induction l generalizing p p' with
  | nil => exact .some h
  | cons name l ih =>
    rw [Position.find?, Position.find?]
    have hchild := h.child_rel ht name
    generalize hc : p.node.child? name = found, hc' : p'.node.child? name = found' at hchild
    cases hchild with
    | none => exact .none
    | some hshape => exact ih (h.below hc hc')

end Twins

namespace Disk

/-- Two disks that differ in nothing but the bytes of files. -/
structure Alike (d d' : Disk) : Prop where
  cwd : d'.cwd = d.cwd
  top : d.top.Alike d'.top

variable {d d₁ d' d₁' : Disk} {new : List (List Bytes)} {l : List Bytes}

namespace Alike

/-- A path starts at the same location on disks that are alike. -/
theorem start (h : d.Alike d') (p : Path) : SameOutcome (Twins d.top d'.top) (d.start p) (d'.start p) := by
  rw [Disk.start, Disk.start, h.cwd]
  have htop : Twins d.top d'.top (.top d.top) (.top d'.top) := Twins.top d.top d'.top
  by_cases habs : p.isAbsolute = true
  · rw [if_pos habs, if_pos habs]
    exact .ok htop
  rw [if_neg habs, if_neg habs]
  have hfind := htop.find?_alike h.top d.cwd
  generalize (Position.top d.top).find? d.cwd = found, (Position.top d'.top).find? d.cwd = found' at hfind
  cases hfind with
  | none => exact .error Errno.noEntry
  | some htwins => exact .ok htwins

/-- Pieces are looked up to the same location there. -/
theorem lookupPieces (h : d.Alike d') (p : Path) (todo : List Bytes) :
    SameOutcome (Twins d.top d'.top) (d.lookupPieces p todo) (d'.lookupPieces p todo) := by
  rw [Disk.lookupPieces, Disk.lookupPieces]
  have hstart := h.start p
  generalize d.start p = s, d'.start p = s' at hstart
  cases hstart with
  | ok htwins => exact htwins.follow_alike h.top maxLinks todo
  | error e => exact .error e

/-- A path leads to the same location there. -/
theorem locate (h : d.Alike d') (p : Path) :
    SameOutcome (Twins d.top d'.top) (d.locate p) (d'.locate p) := by
  rw [Disk.locate, Disk.locate]
  cases checkPath p with
  | error e => exact .error e
  | ok _ => exact (h.lookupPieces p _).mapError IoError.system

/-- A probe has the same answer there. -/
theorem probe_eq (h : d.Alike d') (p : Path) : d.probe p = d'.probe p := by
  rw [Disk.probe, Disk.probe]
  have hlocate := h.locate p
  generalize d.locate p = found, d'.locate p = found' at hlocate
  cases hlocate with
  | ok htwins => rfl
  | error e => rfl

/-- There is a directory at a path of the one exactly if there is one at that path of the other. -/
theorem isDir_eq (h : d.Alike d') (p : Path) : d.isDir p = d'.isDir p := by
  rw [Disk.isDir, Disk.isDir]
  have hlocate := h.locate p
  generalize d.locate p = found, d'.locate p = found' at hlocate
  cases hlocate with
  | ok htwins => exact (htwins.sameShape h.top).isDir_eq.symm
  | error e => rfl

/-- The parent of a last piece is a directory at the same location there, and the piece is the same. -/
theorem locateParent (h : d.Alike d') (p : Path) :
    SameOutcome (fun a b => Twins d.top d'.top a.1 b.1 ∧ a.1.node.isDir = true ∧ a.2 = b.2)
      (d.locateParent p) (d'.locateParent p) := by
  rw [Disk.locateParent, Disk.locateParent]
  cases checkPath p with
  | error e => exact .error e
  | ok _ =>
    cases splitLast p.bytes with
    | none => exact .error _
    | some parts =>
      obtain ⟨before, last⟩ := parts
      dsimp only
      have hlookup := h.lookupPieces p before
      generalize d.lookupPieces p before = found, d'.lookupPieces p before = found' at hlookup
      cases hlookup with
      | error e => exact .error _
      | @ok q q' htwins =>
        have hkind : q'.node.isDir = q.node.isDir := (htwins.sameShape h.top).isDir_eq
        dsimp only
        rw [hkind]
        cases hdir : q.node.isDir with
        | true => exact .ok ⟨htwins, hdir, rfl⟩
        | false => exact .error _

/-- A directory is made on both disks, at the same location, or on neither. -/
theorem makeDir (h : d.Alike d') (p : Path) :
    SameOutcome (fun e e' => ∃ l, d.Adds [l] e ∧ d'.Adds [l] e') (d.makeDir p) (d'.makeDir p) := by
  rw [Disk.makeDir, Disk.makeDir]
  have hparent := h.locateParent p
  generalize d.locateParent p = found, d'.locateParent p = found' at hparent
  cases hparent with
  | error e => exact .error e
  | @ok a b hab =>
    obtain ⟨q, last⟩ := a
    obtain ⟨q', last'⟩ := b
    obtain ⟨htwins, hdir, hlast⟩ := hab
    dsimp only at htwins hdir hlast ⊢
    subst hlast
    by_cases hdots : last = [dot] ∨ last = [dot, dot]
    · rw [if_pos hdots, if_pos hdots]
      exact .error _
    rw [if_neg hdots, if_neg hdots]
    by_cases hlong : maxNameBytes < last.length
    · rw [if_pos hlong, if_pos hlong]
      exact .error _
    rw [if_neg hlong, if_neg hlong]
    have hchild := htwins.child_rel h.top last
    generalize hc : q.node.child? last = child, hc' : q'.node.child? last = child' at hchild
    cases hchild with
    | some hshape => exact .error _
    | none =>
      have hdir' : q'.node.isDir = true := by rw [(htwins.sameShape h.top).isDir_eq, hdir]
      refine .ok ⟨q.location ++ [last], adds_put htwins.left hdir hc, ?_⟩
      rw [htwins.location]
      exact adds_put htwins.right hdir' hc'

end Alike

/-! ## Additions -/

/-- What two trees have in common at a location they still have after the same additions. -/
theorem Adds.rel {R : Node → Node → Prop} (hdir : ∀ entries entries', R (.dir entries) (.dir entries'))
    (hsame : ∀ {a b a' b' : Node}, a.SameEntry a' → b.SameEntry b' → R a b → R a' b')
    (h : d.Adds new d₁) (h' : d'.Adds new d₁') (hl : Option.Rel R (d.top.get? l) (d'.top.get? l)) :
    Option.Rel R (d₁.top.get? l) (d₁'.top.get? l) := by
  by_cases hnew : l ∈ new
  · obtain ⟨entries, hn⟩ := h.exists_dir hnew
    obtain ⟨entries', hn'⟩ := h'.exists_dir hnew
    rw [hn, hn']
    exact .some (hdir entries entries')
  · generalize hn : d.top.get? l = n, hn' : d'.top.get? l = n' at hl
    cases hl with
    | none =>
      rw [h.get?_eq_none hnew hn, h'.get?_eq_none hnew hn']
      exact .none
    | some hrel =>
      obtain ⟨m, hm, hnm⟩ := h.kept l _ hn
      obtain ⟨m', hm', hnm'⟩ := h'.kept l _ hn'
      rw [hm, hm']
      exact .some (hsame hnm hnm' hrel)

/-- The same additions leave disks that are alike. -/
theorem Alike.adds (h : d.Alike d') (hadds : d.Adds new d₁) (hadds' : d'.Adds new d₁') : d₁.Alike d₁' where
  cwd := by rw [hadds'.cwd, hadds.cwd, h.cwd]
  top l := Adds.rel .dir .of_sameEntry hadds hadds' (h.top l)

end Disk

end PortableLayout
