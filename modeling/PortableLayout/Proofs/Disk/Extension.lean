import PortableLayout.FileSystem.Tree

/-!
# Trees that only gain entries

One tree extends another when every node of the smaller tree is at its location in the larger one as
well, with the same kind, file content and link target (`Node.Extends`). Positions in two such trees
correspond when they have the same location (`Twins`), and going up or down keeps this.

Putting a node into a directory that has no entry of its name extends the tree (`extends_put`), and the
node is then found there.
-/

set_option autoImplicit false

namespace PortableLayout

namespace Node

/-- Two nodes that are the same entry: of one kind, with the same content or the same target. -/
inductive SameEntry : Node → Node → Prop
  | dir (entries entries' : List (Bytes × Node)) : SameEntry (.dir entries) (.dir entries')
  | file (content : Bytes) : SameEntry (.file content) (.file content)
  | link (target : Bytes) : SameEntry (.link target) (.link target)

/-- Every node of `t` is in `t'` too, as the same entry. -/
def Extends (t t' : Node) : Prop :=
  ∀ l n, t.get? l = some n → ∃ n', t'.get? l = some n' ∧ n.SameEntry n'

/-- A node is the same entry as itself. -/
theorem SameEntry.refl (n : Node) : n.SameEntry n := by
  cases n with
  | dir entries => exact .dir entries entries
  | file content => exact .file content
  | link target => exact .link target

/-- Same entries are both directories or neither is. -/
theorem SameEntry.isDir_eq {a b : Node} (h : a.SameEntry b) : b.isDir = a.isDir := by
  cases h with
  | dir es es' => rfl
  | file content => rfl
  | link target => rfl

/-- Being the same entry goes both ways. -/
theorem SameEntry.symm {a b : Node} (h : a.SameEntry b) : b.SameEntry a := by
  cases h with
  | dir entries entries' => exact .dir entries' entries
  | file content => exact .file content
  | link target => exact .link target

/-- Being the same entry goes through a third node. -/
theorem SameEntry.trans {a b c : Node} (h : a.SameEntry b) (h' : b.SameEntry c) : a.SameEntry c := by
  cases h with
  | dir entries entries' =>
    cases h' with
    | dir _ entries'' => exact .dir entries entries''
  | file content => exact h'
  | link target => exact h'

/-- A tree extends itself. -/
theorem Extends.refl (t : Node) : t.Extends t :=
  fun _ n h => ⟨n, h, .refl n⟩

/-- A tree that extends one that extends a third one extends the third one. -/
theorem Extends.trans {t t' t'' : Node} (h : t.Extends t') (h' : t'.Extends t'') : t.Extends t'' := by
  intro l n hn
  obtain ⟨n', hn', hsame⟩ := h l n hn
  obtain ⟨n'', hn'', hsame'⟩ := h' l n' hn'
  exact ⟨n'', hn'', hsame.trans hsame'⟩

/-- One more name leads from the node at a location to its entry. -/
theorem get?_append (t : Node) (l : List Bytes) (name : Bytes) :
    t.get? (l ++ [name]) = (t.get? l).bind (·.child? name) := by
  induction l generalizing t with
  | nil =>
    simp only [List.nil_append, get?, Option.bind_some]
    cases t.child? name with
    | none => rfl
    | some c => rfl
  | cons m l ih =>
    simp only [List.cons_append, get?]
    cases t.child? m with
    | none => rfl
    | some c => exact ih c

/-- Only directories have entries. -/
theorem isDir_of_child? {t c : Node} {name : Bytes} (h : t.child? name = some c) :
    t.isDir = true := by
  cases t with
  | dir entries => rfl
  | file content => cases h
  | link target => cases h

/-- Setting an entry to a node that extends what was there, or where nothing was, extends a
directory. -/
theorem extends_setChild {t child : Node} {name : Bytes} (hdir : t.isDir = true)
    (h : ∀ c, t.child? name = some c → c.Extends child) : t.Extends (t.setChild name child) := by
  intro l n hn
  cases l with
  | nil =>
    cases hn
    refine ⟨t.setChild name child, rfl, ?_⟩
    cases t with
    | dir entries => exact .dir entries _
    | file content => cases hdir
    | link target => cases hdir
  | cons m l =>
    rw [get?] at hn ⊢
    rw [child?_setChild hdir]
    obtain ⟨c, hc, hcn⟩ := Option.bind_eq_some_iff.1 hn
    by_cases hm : m = name
    · subst hm
      obtain ⟨n', hn', hsame⟩ := h c hc l n hcn
      exact ⟨n', by rw [if_pos rfl]; exact hn', hsame⟩
    · exact ⟨n, by rw [if_neg hm, hc]; exact hcn, .refl n⟩

/-- Setting an entry adds no locations but those that the new child has more than the old one. -/
theorem isSome_get?_setChild {t child : Node} {name : Bytes} {l₀ : List Bytes} (hdir : t.isDir = true)
    (h : ∀ l, (child.get? l).isSome → (∃ c, t.child? name = some c ∧ (c.get? l).isSome) ∨ l = l₀)
    (l : List Bytes) (hl : ((t.setChild name child).get? l).isSome) :
    (t.get? l).isSome ∨ l = name :: l₀ := by
  cases l with
  | nil => exact .inl rfl
  | cons m l =>
    rw [get?, child?_setChild hdir] at hl
    by_cases hm : m = name
    · subst hm
      rw [if_pos rfl, Option.bind_some] at hl
      obtain ⟨c, hc, hcl⟩ | rfl := h l hl
      · refine .inl ?_
        rw [get?, hc, Option.bind_some]
        exact hcl
      · exact .inr rfl
    · rw [if_neg hm] at hl
      exact .inl hl

end Node

namespace Position

/-- The position is one of the tree `t`. -/
inductive In (t : Node) : Position → Prop
  | top : In t (.top t)
  | down {p : Position} {name : Bytes} {child : Node} (below : In t p)
      (entry : p.node.child? name = some child) : In t (p.down name child)

/-- The top has the empty location. -/
@[simp] theorem location_top (t : Node) : (top t).location = [] := rfl

/-- The location of an entry has its name at the end. -/
@[simp] theorem location_down (p : Position) (name : Bytes) (child : Node) :
    (p.down name child).location = p.location ++ [name] := by
  simp [location, down]

/-- The way up from an entry leads back. -/
@[simp] theorem up_down (p : Position) (name : Bytes) (child : Node) :
    (p.down name child).up = p := rfl

namespace In

variable {t : Node} {p q : Position}

/-- At the location of a position there is its node. -/
theorem get?_location (h : In t p) : t.get? p.location = some p.node := by
  induction h with
  | top => rfl
  | down _ entry ih =>
    rw [location_down, Node.get?_append, ih]
    exact entry

/-- The parent of a position of a tree is one of its positions. -/
theorem up (h : In t p) : In t p.up := by
  cases h with
  | top => exact .top
  | down below entry => exact below

/-- The location of the parent is without the last name. -/
theorem location_up (h : In t p) : p.up.location = p.location.dropLast := by
  cases h with
  | top => rfl
  | down below entry => rw [up_down, location_down, List.dropLast_concat]

/-- A tree has one position at each location. -/
theorem ext (hp : In t p) (hq : In t q) (h : p.location = q.location) : p = q := by
  induction hp generalizing q with
  | top =>
    cases hq with
    | top => rfl
    | down below entry => simp at h
  | down below entry ih =>
    cases hq with
    | top => simp at h
    | down below' entry' =>
      rw [location_down, location_down] at h
      obtain ⟨hloc, hname⟩ := List.append_inj' h rfl
      cases hname
      cases ih below' hloc
      rw [entry] at entry'
      cases entry'
      rfl

end In

/-- `find?` finds positions of the tree that it starts in. -/
theorem in_of_find? {t : Node} {p q : Position} {l : List Bytes} (hp : In t p)
    (h : p.find? l = some q) : In t q ∧ q.location = p.location ++ l := by
  induction l generalizing p with
  | nil =>
    cases h
    exact ⟨hp, (List.append_nil _).symm⟩
  | cons name l ih =>
    rw [find?] at h
    obtain ⟨c, hc, hq⟩ := Option.bind_eq_some_iff.1 h
    obtain ⟨hin, hloc⟩ := ih (.down hp hc) hq
    exact ⟨hin, by rw [hloc, location_down, List.append_assoc]; rfl⟩

/-- Where a tree has a node, `find?` finds its position. -/
theorem find?_of_get? {t n : Node} {p : Position} {l : List Bytes} (hp : In t p)
    (h : p.node.get? l = some n) :
    ∃ q, p.find? l = some q ∧ In t q ∧ q.location = p.location ++ l ∧ q.node = n := by
  induction l generalizing p with
  | nil =>
    cases h
    exact ⟨p, rfl, hp, (List.append_nil _).symm, rfl⟩
  | cons name l ih =>
    rw [Node.get?] at h
    obtain ⟨c, hc, hn⟩ := Option.bind_eq_some_iff.1 h
    obtain ⟨q, hq, hin, hloc, hnode⟩ := ih (p := p.down name c) (.down hp hc) hn
    refine ⟨q, ?_, hin, ?_, hnode⟩
    · rw [find?, hc]
      exact hq
    · rw [hloc, location_down, List.append_assoc]
      rfl

end Position

/-- The same location in two trees. -/
structure Twins (t t' : Node) (p p' : Position) : Prop where
  left : p.In t
  right : p'.In t'
  location : p.location = p'.location

namespace Twins

variable {t t' : Node} {p p' : Position}

/-- The nodes at one location in a tree and in one that extends it are the same entry. -/
theorem sameEntry (h : Twins t t' p p') (hext : t.Extends t') : p.node.SameEntry p'.node := by
  obtain ⟨n', hn', hsame⟩ := hext _ _ h.left.get?_location
  rw [h.location, h.right.get?_location] at hn'
  cases hn'
  exact hsame

/-- The parents are at one location, too. -/
theorem up (h : Twins t t' p p') : Twins t t' p.up p'.up where
  left := h.left.up
  right := h.right.up
  location := by rw [h.left.location_up, h.right.location_up, h.location]

/-- Entries of one name in twin nodes are at one location. -/
theorem below (h : Twins t t' p p') {name : Bytes} {c c' : Node} (hc : p.node.child? name = some c)
    (hc' : p'.node.child? name = some c') : Twins t t' (p.down name c) (p'.down name c') where
  left := .down h.left hc
  right := .down h.right hc'
  location := by rw [Position.location_down, Position.location_down, h.location]

/-- An entry of a directory is an entry of its twin. -/
theorem down (h : Twins t t' p p') (hext : t.Extends t') {name : Bytes} {c : Node}
    (hc : p.node.child? name = some c) :
    ∃ c', p'.node.child? name = some c' ∧ c.SameEntry c' ∧
      Twins t t' (p.down name c) (p'.down name c') := by
  have hin : (p.down name c).In t := .down h.left hc
  obtain ⟨c', hc', hsame⟩ := hext _ _ hin.get?_location
  rw [Position.location_down, h.location, Node.get?_append, h.right.get?_location] at hc'
  exact ⟨c', hc', hsame, h.below hc hc'⟩

/-- The tops of two trees are at one location. -/
theorem top (t t' : Node) : Twins t t' (.top t) (.top t') :=
  ⟨.top, .top, rfl⟩

end Twins

/-! ## Putting a node into a directory -/

namespace Position

/-- Plugging a node that extends the one at a position extends the tree, and the node is then at
the same location. -/
theorem extends_plug {t : Node} {p : Position} (hp : p.In t) {n : Node} (h : p.node.Extends n) :
    t.Extends (plug n p.above) ∧
      ∃ p', Twins t (plug n p.above) p p' ∧ p'.node = n := by
  induction hp generalizing n with
  | top => exact ⟨h, top n, Twins.top t n, rfl⟩
  | @down q name child below entry ih =>
    have hdir : q.node.isDir = true := Node.isDir_of_child? entry
    have hset : q.node.Extends (q.node.setChild name n) := by
      apply Node.extends_setChild hdir
      intro c hc
      rw [entry] at hc
      cases hc
      exact h
    obtain ⟨hext, q', htwins, hnode⟩ := ih hset
    have hchild : q'.node.child? name = some n := by
      rw [hnode, Node.child?_setChild hdir, if_pos rfl]
    refine ⟨hext, q'.down name n, ⟨.down below entry, .down htwins.right hchild, ?_⟩, rfl⟩
    rw [location_down, location_down, htwins.location]

/-- Plugging a node adds no locations but those that it has more than the node in its place. -/
theorem isSome_get?_plug {t : Node} {p : Position} {l₀ : List Bytes} (hp : p.In t) {n : Node}
    (h : ∀ l, (n.get? l).isSome → (p.node.get? l).isSome ∨ l = l₀) (l : List Bytes)
    (hl : ((plug n p.above).get? l).isSome) : (t.get? l).isSome ∨ l = p.location ++ l₀ := by
  induction hp generalizing n l₀ with
  | top => exact h l hl
  | @down q name child below entry ih =>
    have hset := Node.isSome_get?_setChild (Node.isDir_of_child? entry)
      fun m hm => (h m hm).imp (fun hchild => ⟨child, entry, hchild⟩) id
    obtain hold | hnew := ih hset hl
    · exact .inl hold
    · refine .inr ?_
      rw [hnew, location_down, List.append_assoc]
      rfl

/-- A node put into a directory under a new name is found there, and everything else stays. -/
theorem extends_put {t : Node} {p : Position} (hp : p.In t) (hdir : p.node.isDir = true)
    {name : Bytes} (hnew : p.node.child? name = none) (n : Node) :
    t.Extends (p.down name n).rebuild ∧
      ∃ p', Twins t (p.down name n).rebuild p p' ∧ p'.node.child? name = some n := by
  have hset : p.node.Extends (p.node.setChild name n) := by
    apply Node.extends_setChild hdir
    intro c hc
    rw [hnew] at hc
    cases hc
  obtain ⟨hext, p', htwins, hnode⟩ := extends_plug hp hset
  refine ⟨hext, p', htwins, ?_⟩
  rw [hnode, Node.child?_setChild hdir, if_pos rfl]

end Position

end PortableLayout
