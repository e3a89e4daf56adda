import PortableLayout.Path

/-!
# Components and pieces

What the components of a path are in terms of its pieces. Pieces that hold no separator are read back
from the byte string that they are glued to (`pieces_glue`), and components from their spellings
(`filterMap_ofPiece?_map_bytes`). The component lists that paths have are those of the shape `Listed`:
the root and a leading `.` stand first or nowhere (`listed_components`).
-/

set_option autoImplicit false

namespace PortableLayout

/-- A component that can stand after another one: `..`, or a name that reads as nothing else. -/
def Component.IsInner : Component → Prop
  | .up => True
  | .name n => isSilent n = false ∧ n ≠ [dot, dot] ∧ slash ∉ n
  | _ => False

/-- Whether a component can stand behind others is decided by its bytes. -/
instance : DecidablePred Component.IsInner
  | .root => .isFalse id
  | .here => .isFalse id
  | .up => .isTrue trivial
  | .name n => inferInstanceAs (Decidable (isSilent n = false ∧ n ≠ [dot, dot] ∧ slash ∉ n))

/-- The lists of components that paths have. -/
def Listed : List Component → Prop
  | [] => True
  | c :: cs => (c = .root ∨ c = .here ∨ c.IsInner) ∧ ∀ d ∈ cs, d.IsInner

/-! ## Pieces and components -/

/-- Bytes without a separator are one piece. -/
theorem pieces_of_slash_notMem {p : Bytes} (h : slash ∉ p) : pieces p = [p] := by
  induction p with
  | nil => rfl
  | cons b r ih =>
    have hb : b ≠ slash := fun e => h (by simp [e])
    have hr : slash ∉ r := fun hr => h (by simp [hr])
    rw [pieces, if_neg hb, ih hr]

/-- Lists that are the pieces of a byte string have no separator in them. -/
theorem slash_notMem_of_pieces_eq {bs : Bytes} {ps : List Bytes} (h : pieces bs = ps) :
    ∀ p ∈ ps, slash ∉ p := by
  subst h
  exact fun p hp => slash_notMem_of_mem_pieces hp

/-- The pieces of two byte strings with a separator between them. -/
theorem pieces_append_slash (a b : Bytes) : pieces (a ++ slash :: b) = pieces a ++ pieces b := by
  induction a with
  | nil => simp [pieces]
  | cons x a ih =>
    rw [List.cons_append, pieces]
    by_cases hx : x = slash
    · rw [if_pos hx, ih, pieces, if_pos hx, List.cons_append]
    · rw [if_neg hx, ih, pieces, if_neg hx]
      cases ha : pieces a with
      | nil => exact absurd ha (pieces_ne_nil a)
      | cons p ps => rfl

/-- Runs without separators are the pieces of the byte string that they are glued to. -/
theorem pieces_glue {ps : List Bytes} (hne : ps ≠ []) (h : ∀ p ∈ ps, slash ∉ p) :
    pieces (glue ps) = ps := by
  induction ps with
  | nil => exact absurd rfl hne
  | cons p qs ih =>
    have hp : slash ∉ p := h p (by simp)
    cases qs with
    | nil => exact pieces_of_slash_notMem hp
    | cons q rs =>
      have hqs := ih (by simp) fun q hq => h q (by simp [hq])
      rw [glue, pieces_append_slash, pieces_of_slash_notMem hp, hqs, List.singleton_append]

/-- The bytes of two lists of pieces in a row are those of the one, a separator, and those of the other. -/
theorem glue_append {ps qs : List Bytes} (hps : ps ≠ []) (hqs : qs ≠ []) :
    glue (ps ++ qs) = glue ps ++ slash :: glue qs := by
  induction ps with
  | nil => exact absurd rfl hps
  | cons p ps ih =>
    cases ps with
    | nil =>
      cases qs with
      | nil => exact absurd rfl hqs
      | cons q qs => rfl
    | cons r rs =>
      have hrest := ih (List.cons_ne_nil r rs)
      rw [List.cons_append, List.cons_append, glue, ← List.cons_append, hrest, glue, List.append_assoc,
        List.cons_append]

/-- One more piece in front adds its bytes and, unless it stands alone, a separator. -/
theorem length_glue_cons (p : Bytes) {ps : List Bytes} (h : ps ≠ []) :
    (glue (p :: ps)).length = p.length + 1 + (glue ps).length := by
  cases ps with
  | nil => exact absurd rfl h
  | cons q qs =>
    rw [glue, List.length_append, List.length_cons]
    omega

/-- Leaving pieces out anywhere never makes a byte string longer. -/
theorem length_glue_le_of_sublist {ps qs : List Bytes} (h : ps.Sublist qs) :
    (glue ps).length ≤ (glue qs).length := by
  induction h with
  | slnil => exact Nat.le_refl _
  | @cons ps qs q hsub ih =>
    by_cases hqs : qs = []
    · subst hqs
      rw [List.sublist_nil.1 hsub]
      exact Nat.zero_le _
    · rw [length_glue_cons q hqs]
      omega
  | @cons_cons ps qs p hsub ih =>
    by_cases hps : ps = []
    · subst hps
      by_cases hqs : qs = []
      · subst hqs
        exact Nat.le_refl _
      · rw [length_glue_cons p hqs, glue]
        omega
    · have hqs : qs ≠ [] := by
        intro e
        subst e
        exact hps (List.sublist_nil.1 hsub)
      rw [length_glue_cons p hps, length_glue_cons p hqs]
      omega

/-- A piece stands for a component unless it is silent, and only `..` does not stand for a name. -/
theorem ofPiece?_eq_some_iff {piece : Bytes} {c : Component} :
    Component.ofPiece? piece = some c ↔
      isSilent piece = false ∧ (piece = [dot, dot] ∧ c = .up ∨ piece ≠ [dot, dot] ∧ c = .name piece) := by
  unfold Component.ofPiece?
  cases isSilent piece with
  | true => simp
  | false =>
    by_cases hu : piece = [dot, dot]
    · simp [hu, eq_comm (b := c)]
    · simp [hu, eq_comm (b := c)]

/-- A piece that is not silent stands for some component. -/
theorem exists_ofPiece? {piece : Bytes} (h : isSilent piece = false) : ∃ c, Component.ofPiece? piece = some c := by
  by_cases hu : piece = [dot, dot]
  · exact ⟨.up, ofPiece?_eq_some_iff.2 ⟨h, .inl ⟨hu, rfl⟩⟩⟩
  · exact ⟨.name piece, ofPiece?_eq_some_iff.2 ⟨h, .inr ⟨hu, rfl⟩⟩⟩

/-- The component that a piece stands for has that piece as its spelling. -/
theorem bytes_of_ofPiece? {piece : Bytes} {c : Component}
    (h : Component.ofPiece? piece = some c) : c.bytes = piece := by
  obtain ⟨-, ⟨rfl, rfl⟩ | ⟨-, rfl⟩⟩ := ofPiece?_eq_some_iff.1 h
  · rfl
  · rfl

/-- The component of a piece without separators can stand behind others. -/
theorem isInner_of_ofPiece? {piece : Bytes} {c : Component} (hs : slash ∉ piece)
    (h : Component.ofPiece? piece = some c) : c.IsInner := by
  obtain ⟨hsilent, ⟨rfl, rfl⟩ | ⟨hu, rfl⟩⟩ := ofPiece?_eq_some_iff.1 h
  · exact trivial
  · exact ⟨hsilent, hu, hs⟩

namespace Component.IsInner

variable {c : Component}

/-- The bytes of such a component, taken as a piece, stand for it again. -/
theorem ofPiece?_bytes (h : c.IsInner) : ofPiece? c.bytes = some c := by
  cases c with
  | root => exact absurd h id
  | here => exact absurd h id
  | up => rfl
  | name n => exact ofPiece?_eq_some_iff.2 ⟨h.1, .inr ⟨h.2.1, rfl⟩⟩

/-- The bytes of such a component are not silent. -/
theorem isSilent_bytes (h : c.IsInner) : isSilent c.bytes = false :=
  (ofPiece?_eq_some_iff.1 h.ofPiece?_bytes).1

/-- Such a component has bytes. -/
theorem bytes_ne_nil (h : c.IsInner) : c.bytes ≠ [] :=
  fun e => by simpa [e, isSilent] using h.isSilent_bytes

/-- Such a component is not spelled with a single dot. -/
theorem bytes_ne_dot (h : c.IsInner) : c.bytes ≠ [dot] :=
  fun e => by simpa [e, isSilent] using h.isSilent_bytes

/-- There is no separator in the bytes of such a component. -/
theorem slash_notMem (h : c.IsInner) : slash ∉ c.bytes := by
  cases c with
  | root => exact absurd h id
  | here => exact absurd h id
  | up => decide
  | name n => exact h.2.2

end Component.IsInner

/-- Inner components are read back from their spellings. -/
theorem filterMap_ofPiece?_map_bytes {cs : List Component} (h : ∀ c ∈ cs, c.IsInner) :
    (cs.map Component.bytes).filterMap Component.ofPiece? = cs := by
  induction cs with
  | nil => rfl
  | cons c cs ih =>
    rw [List.map_cons, List.filterMap_cons_some (h c (by simp)).ofPiece?_bytes,
      ih fun d hd => h d (by simp [hd])]

/-- What pieces without separators stand for can stand behind other components. -/
theorem isInner_of_mem_filterMap {ps : List Bytes} (hs : ∀ p ∈ ps, slash ∉ p) {c : Component}
    (h : c ∈ ps.filterMap Component.ofPiece?) : c.IsInner := by
  obtain ⟨p, hp, hc⟩ := List.mem_filterMap.1 h
  exact isInner_of_ofPiece? (hs p hp) hc

/-- The components in runs without separators are those in the byte string that they are glued to. -/
theorem filterMap_pieces_glue {ps : List Bytes} (h : ∀ p ∈ ps, slash ∉ p) :
    (pieces (glue ps)).filterMap Component.ofPiece? = ps.filterMap Component.ofPiece? := by
  cases ps with
  | nil => rfl
  | cons p ps => rw [pieces_glue (List.cons_ne_nil p ps) h]

/-- The spellings of the components in some pieces are those of the pieces that are not silent. -/
theorem map_bytes_filterMap_ofPiece? (ps : List Bytes) :
    (ps.filterMap Component.ofPiece?).map Component.bytes = ps.filter (! isSilent ·) := by
  induction ps with
  | nil => rfl
  | cons p ps ih =>
    cases hs : isSilent p with
    | true =>
      have hp : Component.ofPiece? p = none := by simp [Component.ofPiece?, hs]
      rw [List.filterMap_cons_none hp, ih, List.filter_cons_of_neg (by simp [hs])]
    | false =>
      obtain ⟨c, hc⟩ := exists_ofPiece? hs
      rw [List.filterMap_cons_some hc, List.map_cons, ih, bytes_of_ofPiece? hc,
        List.filter_cons_of_pos (by simp [hs])]

namespace Path

/-! ## Reading components -/

/-- The components of an absolute path are the root and what the pieces behind the first separator stand for. -/
theorem components_of_absolute (r : Bytes) :
    (Path.mk (slash :: r)).components = .root :: (pieces r).filterMap Component.ofPiece? := by
  simp [components]

/-- The components of a relative path are what its pieces stand for, but a dot in front is one of its own. -/
theorem components_of_relative {bs first : Bytes} {rest : List Bytes} (hne : bs ≠ [])
    (habs : bs.head? ≠ some slash) (hp : pieces bs = first :: rest) :
    (Path.mk bs).components =
      if first = [dot] then .here :: rest.filterMap Component.ofPiece?
      else (first :: rest).filterMap Component.ofPiece? := by
  cases bs with
  | nil => exact absurd rfl hne
  | cons b r =>
    have hb : b ≠ slash := fun e => habs (by simp [e])
    simp only [components, if_neg hb, hp]

/-- A path has components of one of three shapes: none, those of an absolute path, or those of a
relative path whose first piece is not empty. -/
theorem components_cases (p : Path) :
    p = empty ∨
    (∃ r, p.bytes = slash :: r ∧
      p.components = .root :: (pieces r).filterMap Component.ofPiece?) ∨
    ∃ first rest, first ≠ [] ∧ p.bytes.head? ≠ some slash ∧ pieces p.bytes = first :: rest ∧
      p.components =
        if first = [dot] then .here :: rest.filterMap Component.ofPiece?
        else (first :: rest).filterMap Component.ofPiece? := by
  obtain ⟨bs⟩ := p
  cases bs with
  | nil => exact .inl rfl
  | cons b r =>
    by_cases hb : b = slash
    · subst hb
      exact .inr (.inl ⟨r, rfl, components_of_absolute r⟩)
    · cases hp : pieces (b :: r) with
      | nil => exact absurd hp (pieces_ne_nil _)
      | cons first rest =>
        have habs : (b :: r).head? ≠ some slash := by simpa using hb
        have hfirst : first ≠ [] := by
          intro e
          rw [pieces, if_neg hb] at hp
          split at hp <;> simp_all
        exact .inr (.inr ⟨first, rest, hfirst, habs, rfl,
          components_of_relative (by simp) habs hp⟩)

/-- Components that can stand behind others can also stand alone in a list. -/
theorem listed_of_isInner {cs : List Component} (h : ∀ c ∈ cs, c.IsInner) : Listed cs := by
  cases cs with
  | nil => exact trivial
  | cons c cs => exact ⟨.inr (.inr (h c (by simp))), fun d hd => h d (by simp [hd])⟩

/-- What the pieces of a byte string stand for can stand behind other components. -/
theorem isInner_of_mem_filterMap_pieces {bs : Bytes} {c : Component}
    (h : c ∈ (pieces bs).filterMap Component.ofPiece?) : c.IsInner :=
  isInner_of_mem_filterMap (fun _ hp => slash_notMem_of_mem_pieces hp) h

/-- The root and a leading `.` stand first among the components of a path or nowhere. -/
theorem listed_components (p : Path) : Listed p.components := by
  obtain rfl | ⟨r, -, hc⟩ | ⟨first, rest, -, -, hp, hc⟩ := components_cases p
  · exact trivial
  · rw [hc]
    exact ⟨.inl rfl, fun d hd => isInner_of_mem_filterMap_pieces hd⟩
  · have hslash := slash_notMem_of_pieces_eq hp
    rw [hc]
    split
    · refine ⟨.inr (.inl rfl), fun d hd => ?_⟩
      exact isInner_of_mem_filterMap (fun q hq => hslash q (by simp [hq])) hd
    · exact listed_of_isInner fun c h => isInner_of_mem_filterMap hslash h

/-- Only the empty path has no components. -/
theorem components_eq_nil_iff {p : Path} : p.components = [] ↔ p = empty := by
  constructor
  · intro h
    obtain rfl | ⟨r, -, hc⟩ | ⟨first, rest, hfirst, -, -, hc⟩ := components_cases p
    · rfl
    · simp [hc] at h
    · rw [hc] at h
      split at h
      · simp at h
      · next hdot =>
        have hsilent : isSilent first = false := by simp [isSilent, hfirst, hdot]
        have hmap := map_bytes_filterMap_ofPiece? (first :: rest)
        rw [h, List.filter_cons_of_pos (by simp [hsilent])] at hmap
        simp at hmap
  · rintro rfl
    rfl

end Path

namespace Listed

variable {c : Component} {cs ds : List Component}

/-- Every component of a path but the first can stand behind others. -/
theorem isInner_getElem_succ (h : Listed cs) (i : Nat) (hi : i + 1 < cs.length) :
    cs[i + 1].IsInner := by
  cases cs with
  | nil => exact absurd hi (Nat.not_lt_zero _)
  | cons c cs => exact h.2 _ (List.getElem_mem _)

/-- The last component of a path with more than one can stand behind others. -/
theorem isInner_last (h : Listed (cs ++ [c])) (hne : cs ≠ []) : c.IsInner := by
  cases cs with
  | nil => exact absurd rfl hne
  | cons d cs => exact h.2 c (by simp)

/-- The first components of a path, up to any place, are those of a path as well. -/
theorem of_append (h : Listed (cs ++ ds)) : Listed cs := by
  cases cs with
  | nil => exact trivial
  | cons c cs => exact ⟨h.1, fun d hd => h.2 d (by simp [hd])⟩

/-- The first `n` components of a path are those of a path. -/
theorem take (h : Listed cs) (n : Nat) : Listed (cs.take n) := by
  rw [← List.take_append_drop n cs] at h
  exact h.of_append

end Listed

end PortableLayout
