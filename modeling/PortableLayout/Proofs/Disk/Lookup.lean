import PortableLayout.FileSystem.Lookup
import PortableLayout.Proofs.Disk.Extension

/-!
# What a lookup does, piece by piece

One piece either leads on to another position (`Position.Step`), or meets a link (`Position.Meets`),
or ends the lookup with one of four errors. A lookup that succeeds is a chain of strides from link to
link (`Reaches`), and what is proved about such lookups is proved by induction on the chain: a lookup of
`a ++ b` is a lookup of `a` and then one of `b`, and a lookup that succeeds still succeeds, at the same
location, in a tree that has more entries.
-/

set_option autoImplicit false

namespace PortableLayout

namespace Position

/-- One piece leads from the directory at `p` to `q` without a link on the way. -/
inductive Step (p : Position) (piece : Bytes) : Position → Prop
  | stay (dir : p.node.isDir = true) (silent : isSilent piece = true) : Step p piece p
  | up (dir : p.node.isDir = true) (parent : piece = [dot, dot]) : Step p piece p.up
  | down (child : Node) (spoken : isSilent piece = false) (name : piece ≠ [dot, dot])
      (short : piece.length ≤ maxNameBytes) (entry : p.node.child? piece = some child)
      (plain : ∀ target, child ≠ .link target) : Step p piece (p.down piece child)

/-- One piece names a link to `target` in the directory at `p`. -/
structure Meets (p : Position) (piece target : Bytes) : Prop where
  spoken : isSilent piece = false
  name : piece ≠ [dot, dot]
  short : piece.length ≤ maxNameBytes
  entry : p.node.child? piece = some (.link target)

/-- A step is made from a directory. -/
theorem Step.isDir {p q : Position} {piece : Bytes} (h : p.Step piece q) : p.node.isDir = true := by
  cases h with
  | stay dir silent => exact dir
  | up dir parent => exact dir
  | down child spoken name short entry plain => exact Node.isDir_of_child? entry

/-- What is above a directory is a directory. -/
theorem In.isDir_up {t : Node} {p : Position} (hp : p.In t) (h : p.node.isDir = true) :
    p.up.node.isDir = true := by
  cases hp with
  | top => exact h
  | down below entry => exact Node.isDir_of_child? entry

/-- A step does not leave the tree. -/
theorem Step.in {t : Node} {p q : Position} {piece : Bytes} (hp : p.In t) (h : p.Step piece q) :
    q.In t := by
  cases h with
  | stay dir silent => exact hp
  | up dir parent => exact hp.up
  | down child spoken name short entry plain => exact .down hp entry

end Position

open Position

variable {t t' top : Node} {p q : Position} {piece target : Bytes} {todo rest : List Bytes}
  {links : Nat} {e : Errno}

/-! ## One piece -/

/-- A stride goes on from where its first step leads. -/
theorem stride_of_step (h : p.Step piece q) (rest : List Bytes) :
    stride p (piece :: rest) = stride q rest := by
  have hdir := h.isDir
  cases h with
  | stay dir silent => simp [stride, hdir, silent]
  | up dir parent =>
    have hspoken : isSilent [dot, dot] = false := by decide
    subst parent
    simp [stride, hdir, hspoken]
  | down child spoken name short entry plain =>
    have hshort : ¬ maxNameBytes < piece.length := Nat.not_lt.2 short
    cases child with
    | dir entries => simp [stride, hdir, spoken, name, hshort, entry]
    | file content => simp [stride, hdir, spoken, name, hshort, entry]
    | link target => exact absurd rfl (plain target)

/-- A stride stops at the first link it meets. -/
theorem stride_of_meets (h : p.Meets piece target) (rest : List Bytes) :
    stride p (piece :: rest) = .met target p rest := by
  have hdir := Node.isDir_of_child? h.entry
  have hshort : ¬ maxNameBytes < piece.length := Nat.not_lt.2 h.short
  simp [stride, hdir, h.spoken, h.name, hshort, h.entry]

/-- A name that is not there ends a stride. -/
theorem stride_of_missing (hdir : p.node.isDir = true) (hspoken : isSilent piece = false)
    (hname : piece ≠ [dot, dot]) (hshort : piece.length ≤ maxNameBytes) (hnone : p.node.child? piece = none)
    (rest : List Bytes) : stride p (piece :: rest) = .failed .noEntry := by
  rw [stride, if_neg (by simp [hdir]), if_neg (by simp [hspoken]), if_neg hname, if_neg (Nat.not_lt.2 hshort),
    hnone]

/-- A name that is in the directory leads to its entry, or to a link. -/
theorem Position.step_or_meets {child : Node} (hspoken : isSilent piece = false)
    (hname : piece ≠ [dot, dot]) (hshort : piece.length ≤ maxNameBytes)
    (hentry : p.node.child? piece = some child) :
    p.Step piece (p.down piece child) ∨ ∃ target, child = .link target ∧ p.Meets piece target := by
  cases child with
  | dir entries =>
    refine .inl (.down _ hspoken hname hshort hentry ?_)
    intro target h
    cases h
  | file content =>
    refine .inl (.down _ hspoken hname hshort hentry ?_)
    intro target h
    cases h
  | link target => exact .inr ⟨target, rfl, hspoken, hname, hshort, hentry⟩

/-- The errors that a lookup ends with. -/
def Errno.IsLookup (e : Errno) : Prop :=
  e = .noEntry ∨ e = .notADirectory ∨ e = .nameTooLong ∨ e = .linkLoop

/-- All that one piece can do. -/
theorem stride_cons_cases (p : Position) (piece : Bytes) :
    (∃ e : Errno, e.IsLookup ∧ ∀ rest, stride p (piece :: rest) = .failed e) ∨
      (∃ q, p.Step piece q) ∨ ∃ target, p.Meets piece target := by
  by_cases hdir : p.node.isDir = false
  · refine .inl ⟨.notADirectory, .inr (.inl rfl), fun rest => ?_⟩
    rw [stride, if_pos hdir]
  have hdir' : p.node.isDir = true := by simpa using hdir
  by_cases hsilent : isSilent piece = true
  · exact .inr (.inl ⟨p, .stay hdir' hsilent⟩)
  have hspoken : isSilent piece = false := by simpa using hsilent
  by_cases hup : piece = [dot, dot]
  · exact .inr (.inl ⟨p.up, .up hdir' hup⟩)
  by_cases hlong : maxNameBytes < piece.length
  · refine .inl ⟨.nameTooLong, .inr (.inr (.inl rfl)), fun rest => ?_⟩
    rw [stride, if_neg hdir, if_neg hsilent, if_neg hup, if_pos hlong]
  have hshort : piece.length ≤ maxNameBytes := Nat.not_lt.1 hlong
  cases hchild : p.node.child? piece with
  | none =>
    exact .inl ⟨.noEntry, .inl rfl, stride_of_missing hdir' hspoken hup hshort hchild⟩
  | some child =>
    obtain hstep | ⟨target, -, hmeets⟩ := Position.step_or_meets hspoken hup hshort hchild
    · exact .inr (.inl ⟨_, hstep⟩)
    · exact .inr (.inr ⟨target, hmeets⟩)

/-- The first piece of a lookup that arrives is a step. -/
theorem stride_cons_arrived (h : stride p (piece :: todo) = .arrived q) :
    ∃ r, p.Step piece r ∧ stride r todo = .arrived q := by
  obtain ⟨e, -, hfail⟩ | ⟨r, hstep⟩ | ⟨target, hmeets⟩ := stride_cons_cases p piece
  · rw [hfail] at h
    cases h
  · rw [stride_of_step hstep] at h
    exact ⟨r, hstep, h⟩
  · rw [stride_of_meets hmeets] at h
    cases h

/-- The first piece of a lookup that meets a link is a step or names the link. -/
theorem stride_cons_met (h : stride p (piece :: todo) = .met target q rest) :
    (∃ r, p.Step piece r ∧ stride r todo = .met target q rest) ∨
      p.Meets piece target ∧ q = p ∧ rest = todo := by
  obtain ⟨e, -, hfail⟩ | ⟨r, hstep⟩ | ⟨target', hmeets⟩ := stride_cons_cases p piece
  · rw [hfail] at h
    cases h
  · rw [stride_of_step hstep] at h
    exact .inl ⟨r, hstep, h⟩
  · rw [stride_of_meets hmeets] at h
    cases h
    exact .inr ⟨hmeets, rfl, rfl⟩

/-- The errors of a stride are those that a lookup ends with. -/
theorem isLookup_of_stride (h : stride p todo = .failed e) : e.IsLookup := by
  induction todo generalizing p with
  | nil => cases h
  | cons piece rest ih =>
    obtain ⟨e', he', hfail⟩ | ⟨q, hstep⟩ | ⟨target, hmeets⟩ := stride_cons_cases p piece
    · rw [hfail] at h
      cases h
      exact he'
    · rw [stride_of_step hstep] at h
      exact ih h
    · rw [stride_of_meets hmeets] at h
      cases h

/-! ## Links -/

/-- The lookup ends at `q`: at once, or after it followed a link. -/
inductive Reaches (top : Node) (q : Position) : (links : Nat) → Position → List Bytes → Prop
  | arrived {links : Nat} {p : Position} {todo : List Bytes} (stop : stride p todo = .arrived q) :
      Reaches top q links p todo
  | linked {links : Nat} {p r : Position} {todo rest : List Bytes} {target : Bytes}
      (stop : stride p todo = .met target r rest) (named : target ≠ [])
      (later : Reaches top q links (linkStart top target r) (pieces target ++ rest)) :
      Reaches top q (links + 1) p todo

/-- A lookup that meets no link ends where its stride arrives. -/
theorem follow_of_arrived (h : stride p todo = .arrived q) : follow top links p todo = .ok q := by
  rw [follow, h]

/-- A stride that fails ends the lookup. -/
theorem follow_of_failed (h : stride p todo = .failed e) : follow top links p todo = .error e := by
  rw [follow, h]

/-- A lookup that meets a link goes on with the pieces of its target, and has one link less to follow. -/
theorem follow_of_met (h : stride p todo = .met target q rest) (htarget : target ≠ []) :
    follow top (links + 1) p todo =
      follow top links (linkStart top target q) (pieces target ++ rest) := by
  rw [follow, h]
  exact if_neg htarget

/-- A lookup ends at the place that it reaches. -/
theorem follow_of_reaches (h : Reaches top q links p todo) : follow top links p todo = .ok q := by
  induction h with
  | arrived stop => exact follow_of_arrived stop
  | linked stop named later ih =>
    rw [follow_of_met stop named]
    exact ih

/-- A lookup gives the position that it reaches, and otherwise one of the four errors. -/
theorem follow_cases (top : Node) (links : Nat) (p : Position) (todo : List Bytes) :
    (∃ q, Reaches top q links p todo) ∨
      ∃ e : Errno, e.IsLookup ∧ follow top links p todo = .error e := by
  induction links generalizing p todo with
  | zero =>
    cases hs : stride p todo with
    | arrived q => exact .inl ⟨q, .arrived hs⟩
    | failed e => exact .inr ⟨e, isLookup_of_stride hs, follow_of_failed hs⟩
    | met target q rest => exact .inr ⟨.linkLoop, .inr (.inr (.inr rfl)), by rw [follow, hs]⟩
  | succ links ih =>
    cases hs : stride p todo with
    | arrived q => exact .inl ⟨q, .arrived hs⟩
    | failed e => exact .inr ⟨e, isLookup_of_stride hs, follow_of_failed hs⟩
    | met target q rest =>
      by_cases htarget : target = []
      · refine .inr ⟨.noEntry, .inl rfl, ?_⟩
        rw [follow, hs]
        exact if_pos htarget
      · rw [follow_of_met hs htarget]
        obtain ⟨r, hr⟩ | herror := ih (linkStart top target q) (pieces target ++ rest)
        · exact .inl ⟨r, .linked hs htarget hr⟩
        · exact .inr herror

/-- A lookup that ends at a place reached it. -/
theorem reaches_of_follow (h : follow top links p todo = .ok q) : Reaches top q links p todo := by
  obtain ⟨r, hr⟩ | ⟨e, -, he⟩ := follow_cases top links p todo
  · rw [follow_of_reaches hr] at h
    cases h
    exact hr
  · rw [he] at h
    cases h

/-- The errors of a lookup with links are no others. -/
theorem isLookup_of_follow (h : follow top links p todo = .error e) : e.IsLookup := by
  obtain ⟨r, hr⟩ | ⟨e', he', hfollow⟩ := follow_cases top links p todo
  · rw [follow_of_reaches hr] at h
    cases h
  · rw [hfollow] at h
    cases h
    exact he'

/-! ## One lookup after another -/

/-- A stride that arrived goes on with further pieces. -/
theorem stride_append_of_arrived (h : stride p todo = .arrived q) (rest : List Bytes) :
    stride p (todo ++ rest) = stride q rest := by
  induction todo generalizing p with
  | nil =>
    cases h
    rfl
  | cons piece todo ih =>
    obtain ⟨r, hstep, hr⟩ := stride_cons_arrived h
    rw [List.cons_append, stride_of_step hstep]
    exact ih hr

/-- Further pieces are left over where a stride has met a link. -/
theorem stride_append_of_met {more : List Bytes} (h : stride p todo = .met target q more)
    (rest : List Bytes) : stride p (todo ++ rest) = .met target q (more ++ rest) := by
  induction todo generalizing p with
  | nil => cases h
  | cons piece todo ih =>
    rw [List.cons_append]
    obtain ⟨r, hstep, hr⟩ | ⟨hmeets, rfl, rfl⟩ := stride_cons_met h
    · rw [stride_of_step hstep]
      exact ih hr
    · rw [stride_of_meets hmeets]

/-- After a lookup that succeeds, the rest of a longer one starts where it ended, with fewer links
left. -/
theorem follow_append (h : follow top links p todo = .ok q) :
    ∃ k, k ≤ links ∧ ∀ rest, follow top links p (todo ++ rest) = follow top k q rest := by
  have hreaches := reaches_of_follow h
  clear h
  induction hreaches with
  | @arrived links p todo stop =>
    refine ⟨links, Nat.le_refl _, fun rest => ?_⟩
    rw [follow, follow, stride_append_of_arrived stop]
  | @linked links p r todo more target stop named later ih =>
    obtain ⟨k, hk, heq⟩ := ih
    refine ⟨k, Nat.le_succ_of_le hk, fun rest => ?_⟩
    rw [follow_of_met (stride_append_of_met stop rest) named, ← heq rest, List.append_assoc]

/-- Further pieces do not help a stride that failed. -/
theorem stride_append_of_failed (h : stride p todo = .failed e) (rest : List Bytes) :
    stride p (todo ++ rest) = .failed e := by
  induction todo generalizing p with
  | nil => cases h
  | cons piece todo ih =>
    rw [List.cons_append]
    obtain ⟨e', -, hfail⟩ | ⟨r, hstep⟩ | ⟨target, hmeets⟩ := stride_cons_cases p piece
    · rw [hfail] at h
      rw [hfail, h]
    · rw [stride_of_step hstep] at h
      rw [stride_of_step hstep]
      exact ih h
    · rw [stride_of_meets hmeets] at h
      cases h

/-- A lookup that fails fails in the same way with more pieces behind it. -/
theorem follow_append_of_error (h : follow top links p todo = .error e) (rest : List Bytes) :
    follow top links p (todo ++ rest) = .error e := by
  fun_induction follow top links p todo with
  | case1 => cases h
  | case2 links p todo e' hs =>
    rw [follow_of_failed (stride_append_of_failed hs rest), h]
  | case3 p todo target q more hs =>
    rw [follow, stride_append_of_met hs rest, ← h]
  | case4 p todo q more links hs =>
    rw [follow, stride_append_of_met hs rest, ← h]
    exact if_pos rfl
  | case5 p todo target q more hs links named ih =>
    rw [follow_of_met (stride_append_of_met hs rest) named, ← List.append_assoc]
    exact ih h

/-- A link is met on the way from a directory only. -/
theorem isDir_of_stride_met (h : stride p todo = .met target q rest) : p.node.isDir = true := by
  cases todo with
  | nil => cases h
  | cons piece todo =>
    obtain ⟨r, hstep, -⟩ | ⟨hmeets, -⟩ := stride_cons_met h
    · exact hstep.isDir
    · exact Node.isDir_of_child? hmeets.entry

/-- A lookup that takes a piece and succeeds starts in a directory. -/
theorem isDir_of_follow_cons (h : follow top links p (piece :: todo) = .ok q) :
    p.node.isDir = true := by
  cases reaches_of_follow h with
  | arrived stop =>
    obtain ⟨r, hstep, -⟩ := stride_cons_arrived stop
    exact hstep.isDir
  | linked stop named later => exact isDir_of_stride_met stop

/-- What a longer lookup leads through is a directory. -/
theorem isDir_of_follow_append (h : follow top links p (todo ++ piece :: rest) = .ok q) :
    ∃ r, follow top links p todo = .ok r ∧ r.node.isDir = true := by
  cases hr : follow top links p todo with
  | error e =>
    rw [follow_append_of_error hr] at h
    cases h
  | ok r =>
    obtain ⟨k, -, hk⟩ := follow_append hr
    rw [hk] at h
    exact ⟨r, rfl, isDir_of_follow_cons h⟩

/-! ## In a larger tree -/

namespace Twins

variable {p' : Position}

/-- In a tree that extends another one, each step can be made again. -/
theorem step (h : Twins t t' p p') (hext : t.Extends t') (hstep : p.Step piece q) :
    ∃ q', p'.Step piece q' ∧ Twins t t' q q' := by
  have hdir : p'.node.isDir = true := by
    rw [(h.sameEntry hext).isDir_eq]
    exact hstep.isDir
  cases hstep with
  | stay dir silent => exact ⟨p', .stay hdir silent, h⟩
  | up dir parent => exact ⟨p'.up, .up hdir parent, h.up⟩
  | down child spoken name short entry plain =>
    obtain ⟨child', hentry, hsame, htwins⟩ := h.down hext entry
    refine ⟨_, .down child' spoken name short hentry ?_, htwins⟩
    intro target hlink
    subst hlink
    cases hsame
    exact plain target rfl

/-- Each link is met again, too. -/
theorem meets (h : Twins t t' p p') (hext : t.Extends t') (hmeets : p.Meets piece target) :
    p'.Meets piece target := by
  obtain ⟨child', hentry, hsame, -⟩ := h.down hext hmeets.entry
  cases hsame
  exact ⟨hmeets.spoken, hmeets.name, hmeets.short, hentry⟩

/-- A stride arrives at the same location there. -/
theorem stride_arrived (h : Twins t t' p p') (hext : t.Extends t')
    (hs : stride p todo = .arrived q) : ∃ q', stride p' todo = .arrived q' ∧ Twins t t' q q' := by
  induction todo generalizing p p' with
  | nil =>
    cases hs
    exact ⟨p', rfl, h⟩
  | cons piece todo ih =>
    obtain ⟨r, hstep, hr⟩ := stride_cons_arrived hs
    obtain ⟨r', hstep', htwins⟩ := h.step hext hstep
    rw [stride_of_step hstep']
    exact ih htwins hr

/-- A stride meets the same link at the same location there. -/
theorem stride_met (h : Twins t t' p p') (hext : t.Extends t')
    (hs : stride p todo = .met target q rest) :
    ∃ q', stride p' todo = .met target q' rest ∧ Twins t t' q q' := by
  induction todo generalizing p p' with
  | nil => cases hs
  | cons piece todo ih =>
    obtain ⟨r, hstep, hr⟩ | ⟨hmeets, rfl, rfl⟩ := stride_cons_met hs
    · obtain ⟨r', hstep', htwins⟩ := h.step hext hstep
      rw [stride_of_step hstep']
      exact ih htwins hr
    · exact ⟨p', stride_of_meets (h.meets hext hmeets) _, h⟩

/-- The target of the link leads on from the same location. -/
theorem linkStart (h : Twins t t' p p') (target : Bytes) :
    Twins t t' (linkStart t target p) (linkStart t' target p') := by
  unfold PortableLayout.linkStart
  by_cases habs : target.head? = some slash
  · rw [if_pos habs, if_pos habs]
    exact Twins.top t t'
  · rw [if_neg habs, if_neg habs]
    exact h

/-- A lookup that succeeds does so in a larger tree too, and ends at the same location. -/
theorem follow (h : Twins t t' p p') (hext : t.Extends t')
    (hq : PortableLayout.follow t links p todo = .ok q) :
    ∃ q', PortableLayout.follow t' links p' todo = .ok q' ∧ Twins t t' q q' := by
  have hreaches := reaches_of_follow hq
  clear hq
  induction hreaches generalizing p' with
  | arrived stop =>
    obtain ⟨q', hq', htwins⟩ := h.stride_arrived hext stop
    exact ⟨q', follow_of_arrived hq', htwins⟩
  | linked stop named later ih =>
    obtain ⟨r', hr', htwins⟩ := h.stride_met hext stop
    rw [follow_of_met hr' named]
    exact ih (htwins.linkStart _)

end Twins

/-! ## What a lookup can end at -/

/-- A stride that took a piece does not arrive at a link. -/
theorem plain_of_stride (hp : p.In t) (hs : stride p todo = .arrived q) (htodo : todo ≠ []) :
    ∀ target, q.node ≠ .link target := by
  induction todo generalizing p with
  | nil => exact absurd rfl htodo
  | cons piece todo ih =>
    obtain ⟨r, hstep, hr⟩ := stride_cons_arrived hs
    by_cases hnil : todo = []
    · subst hnil
      cases hr
      intro target hlink
      cases hstep with
      | stay dir silent =>
        rw [hlink] at dir
        cases dir
      | up dir parent =>
        have hup := hp.isDir_up dir
        rw [hlink] at hup
        cases hup
      | down child spoken name short entry plain => exact plain target hlink
    · exact ih (hstep.in hp) hr hnil

/-- A lookup never ends at a link. -/
theorem plain_of_follow (hp : p.In t) (hq : follow t links p todo = .ok q) (htodo : todo ≠ []) :
    ∀ target, q.node ≠ .link target := by
  have hreaches := reaches_of_follow hq
  clear hq
  induction hreaches with
  | arrived stop => exact plain_of_stride hp stop htodo
  | linked stop named later ih =>
    have htwins : Twins t t _ _ := ⟨hp, hp, rfl⟩
    obtain ⟨r', -, hr⟩ := htwins.stride_met (.refl t) stop
    apply ih (hr.linkStart _).left
    simp [pieces_ne_nil]

end PortableLayout
