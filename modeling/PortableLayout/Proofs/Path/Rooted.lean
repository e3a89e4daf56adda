import PortableLayout.Proofs.Path.Walked

/-!
# Absolute paths, one component at a time

An absolute path in its normal spelling is the root with inner components behind it (`rooted`). The paths
above it are the shorter lists, from which both directions follow: upwards its ancestors
(`ancestors_rooted_concat`), downwards the prefixes that a walk visits (`mem_walked_rooted`,
`walked_rooted_append`).
-/

set_option autoImplicit false

namespace PortableLayout.Path

/-- The path that spells the root and these components. -/
def rooted (cs : List Component) : Path :=
  spell (.root :: cs)

section

variable {p q : Path} {cs ds : List Component} {c : Component}

/-- One more component is one more push. -/
theorem rooted_concat (cs : List Component) (c : Component) :
    rooted (cs ++ [c]) = (rooted cs).push c :=
  spell_append_singleton (.root :: cs) c

/-- Components that can stand behind others are spelled with one separator before each. -/
theorem bytes_rooted (hcs : ∀ c ∈ cs, c.IsInner) :
    (rooted cs).bytes = slash :: glue (cs.map Component.bytes) :=
  bytes_spell_root hcs

/-- A path from the root has bytes. -/
theorem bytes_rooted_ne_nil (hcs : ∀ c ∈ cs, c.IsInner) : (rooted cs).bytes ≠ [] := by
  rw [bytes_rooted hcs]
  exact List.cons_ne_nil _ _

/-- The components of a path from the root are the root and the ones that it was spelled from. -/
theorem components_rooted (hcs : ∀ c ∈ cs, c.IsInner) : (rooted cs).components = .root :: cs :=
  components_spell ⟨.inl rfl, hcs⟩

/-- A path from the root is absolute. -/
theorem isAbsolute_rooted (hcs : ∀ c ∈ cs, c.IsInner) : (rooted cs).isAbsolute = true := by
  rw [isAbsolute, bytes_rooted hcs]
  rfl

/-- An absolute path in its normal spelling is the root with its other components behind it. -/
theorem exists_rooted (habs : p.isAbsolute = true) (hnormal : p.normal = p) :
    ∃ cs, (∀ c ∈ cs, c.IsInner) ∧ p = rooted cs := by
  obtain rfl | ⟨r, -, hc⟩ | ⟨first, rest, -, hrel, -, -⟩ := components_cases p
  · cases habs
  · refine ⟨(pieces r).filterMap Component.ofPiece?, ?_, ?_⟩
    · intro c h
      exact isInner_of_mem_filterMap_pieces h
    · rw [← hnormal, normal, hc]
      rfl
  · exact absurd (by simpa [isAbsolute] using habs) hrel

/-- Behind the empty piece before the root, an absolute path has a piece for each other component. -/
theorem pieces_rooted_concat (hcs : ∀ e ∈ cs ++ [c], e.IsInner) :
    pieces (rooted (cs ++ [c])).bytes = ([] :: cs.map Component.bytes) ++ [c.bytes] := by
  have hslash := slash_notMem_of_mem_map_bytes hcs
  rw [bytes_rooted hcs, pieces, if_pos rfl, pieces_glue (by simp) hslash, List.map_append]
  rfl

/-! ## Upwards -/

/-- The ancestors of a path are the path and the ancestors of its parent. -/
theorem ancestors_of_parent? (h : p.parent? = some q) : p.ancestors = p :: q.ancestors := by
  rw [ancestors]
  split
  · next hnone =>
    rw [h] at hnone
    cases hnone
  · next q' hsome =>
    rw [h] at hsome
    cases hsome
    rfl

/-- A path without a parent is its only ancestor. -/
theorem ancestors_of_no_parent (h : p.parent? = none) : p.ancestors = [p] := by
  rw [ancestors]
  split
  · rfl
  · next q hsome =>
    rw [h] at hsome
    cases hsome

/-- The root is its only ancestor. -/
theorem ancestors_rooted_nil : (rooted []).ancestors = [rooted []] :=
  ancestors_of_no_parent parent?_spell_root

/-- With one more component there is one more ancestor. -/
theorem ancestors_rooted_concat (hcs : ∀ e ∈ cs ++ [c], e.IsInner) :
    (rooted (cs ++ [c])).ancestors = rooted (cs ++ [c]) :: (rooted cs).ancestors := by
  apply ancestors_of_parent?
  have hlisted : Listed (.root :: cs ++ [c]) := ⟨.inl rfl, hcs⟩
  have hroot : c ≠ .root := by
    intro h
    have hinner := hcs c (by simp)
    rw [h] at hinner
    exact hinner
  exact parent?_spell hlisted hroot

/-! ## Downwards -/

/-- A walk to a longer path begins with the walk to a shorter one. -/
theorem walked_rooted_append (hcs : ∀ e ∈ cs ++ ds, e.IsInner) :
    (rooted (cs ++ ds)).walked = (rooted cs).walked ++ (rooted cs).walkedFrom ds := by
  have hcs' : ∀ e ∈ cs, e.IsInner := fun e he => hcs e (by simp [he])
  rw [walked, walked, components_rooted hcs, components_rooted hcs', ← List.cons_append,
    walkedFrom_append]
  rfl

/-- The prefixes of such a path are the paths of its first components. -/
theorem mem_walked_rooted (hcs : ∀ c ∈ cs, c.IsInner) (h : q ∈ (rooted cs).walked) :
    ∃ ds, ds <+: cs ∧ q = rooted ds := by
  obtain ⟨i, hi, rfl⟩ := List.mem_iff_getElem.1 h
  refine ⟨cs.take i, List.take_prefix i cs, ?_⟩
  rw [getElem_walked, components_rooted hcs, List.take_succ_cons]
  rfl

end

/-! ## Bytes of prefixes -/

section

variable {cs ds : List Component}

/-- The first of some components that can stand behind others can do so, too. -/
theorem isInner_of_isPrefix (h : ds <+: cs) (hcs : ∀ c ∈ cs, c.IsInner) : ∀ c ∈ ds, c.IsInner :=
  fun c hc => hcs c (h.subset hc)

/-- A path of fewer components is no longer than one of more. -/
theorem length_rooted_le_of_isPrefix (h : ds <+: cs) (hcs : ∀ c ∈ cs, c.IsInner) :
    (rooted ds).bytes.length ≤ (rooted cs).bytes.length := by
  have hglue := glue_length_le_of_isPrefix (h.map Component.bytes)
  rw [bytes_rooted hcs, bytes_rooted (isInner_of_isPrefix h hcs), List.length_cons, List.length_cons]
  omega

/-- But for the separators, the bytes are those of the components. -/
theorem mem_bytes_rooted_iff {b : UInt8} (hb : b ≠ slash) (hcs : ∀ c ∈ cs, c.IsInner) :
    b ∈ (rooted cs).bytes ↔ ∃ c ∈ cs, b ∈ c.bytes := by
  rw [bytes_rooted hcs, List.mem_cons, mem_glue_iff hb]
  simp [hb]

/-- The bytes of a path of fewer components, separators aside, are among those of the longer one. -/
theorem mem_bytes_rooted_of_isPrefix {b : UInt8} (hb : b ≠ slash) (h : ds <+: cs)
    (hcs : ∀ c ∈ cs, c.IsInner) (hmem : b ∈ (rooted ds).bytes) : b ∈ (rooted cs).bytes := by
  obtain ⟨c, hc, hin⟩ := (mem_bytes_rooted_iff hb (isInner_of_isPrefix h hcs)).1 hmem
  exact (mem_bytes_rooted_iff hb hcs).2 ⟨c, h.subset hc, hin⟩

end

end PortableLayout.Path
