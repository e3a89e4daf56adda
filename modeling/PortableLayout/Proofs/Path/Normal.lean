import PortableLayout.Proofs.Path.Spelling

/-!
# The normal spelling of a path

A path spelled again from its own components: one separator between components and none behind them.
The normal spelling has the components of the path (`components_normal`), is never longer
(`length_normal_le`), and leaves out nothing but separators and dots (`mem_bytes_normal_iff`). A path in which
nothing can be left out is its own normal spelling (`normal_eq_self`), and from a normal spelling nothing can
(`spoken_normal`).
-/

set_option autoImplicit false

namespace PortableLayout.Path

/-- The path spelled without what says nothing. -/
def normal (p : Path) : Path :=
  spell p.components

/-- A path and its normal spelling mean the same. -/
@[simp] theorem components_normal (p : Path) : p.normal.components = p.components :=
  components_spell (listed_components p)

/-- A path that is spelled from its components is in its normal spelling. -/
theorem normal_spell {cs : List Component} (h : Listed cs) : (spell cs).normal = spell cs := by
  rw [normal, components_spell h]

/-- Only the empty path has an empty normal spelling. -/
theorem normal_eq_empty_iff {p : Path} : p.normal = empty ↔ p = empty := by
  rw [← components_eq_nil_iff, components_normal, components_eq_nil_iff]

/-- The normal spelling has the pieces of the path but for the silent ones; of these a path keeps an
empty piece before the root and a leading `.`. -/
theorem bytes_normal_cases (p : Path) :
    p = empty ∨
    (∃ r, p.bytes = slash :: r ∧
      p.normal.bytes = slash :: glue ((pieces r).filter (! isSilent ·))) ∨
    ∃ first rest, first ≠ [] ∧ pieces p.bytes = first :: rest ∧
      p.normal.bytes = glue (first :: rest.filter (! isSilent ·)) := by
  obtain rfl | ⟨r, hb, hc⟩ | ⟨first, rest, hfirst, -, hp, hc⟩ := components_cases p
  · exact .inl rfl
  · refine .inr (.inl ⟨r, hb, ?_⟩)
    rw [normal, hc, bytes_spell_root fun c h => isInner_of_mem_filterMap_pieces h,
      map_bytes_filterMap_ofPiece?]
  · have hslash := slash_notMem_of_pieces_eq hp
    refine .inr (.inr ⟨first, rest, hfirst, hp, ?_⟩)
    by_cases hdot : first = [dot]
    · rw [if_pos hdot] at hc
      rw [normal, hc, bytes_spell_cons (.inl rfl), List.map_cons, map_bytes_filterMap_ofPiece?, hdot]
      · rfl
      · exact fun d hd => isInner_of_mem_filterMap (fun q hq => hslash q (by simp [hq])) hd
    · have hspoken : isSilent first = false := by simp [isSilent, hfirst, hdot]
      rw [if_neg hdot] at hc
      have hinner : ∀ c ∈ p.components, c.IsInner := fun c h =>
        isInner_of_mem_filterMap hslash (hc ▸ h)
      have hbytes := map_bytes_filterMap_ofPiece? (first :: rest)
      rw [← hc, List.filter_cons_of_pos (by simp [hspoken])] at hbytes
      cases hcs : p.components with
      | nil =>
        rw [hcs] at hbytes
        cases hbytes
      | cons c cs =>
        rw [hcs] at hinner hbytes
        rw [normal, hcs, bytes_spell_cons (.inr (hinner c (by simp)))
          (fun d hd => hinner d (by simp [hd])), hbytes]

/-- A path with nothing but components behind its first piece is spelled normally, and so is the root. -/
theorem normal_eq_self {p : Path}
    (h : p.bytes = [slash] ∨ ∀ piece ∈ (pieces p.bytes).tail, isSilent piece = false) : p.normal = p := by
  have hfilter {ps : List Bytes} (hps : ∀ piece ∈ ps, isSilent piece = false) :
      ps.filter (! isSilent ·) = ps :=
    List.filter_eq_self.2 fun piece hpiece => by simp [hps piece hpiece]
  suffices hbytes : p.normal.bytes = p.bytes from congrArg Path.mk hbytes
  obtain rfl | ⟨r, hr, hnormal⟩ | ⟨first, rest, hfirst, hp, hnormal⟩ := bytes_normal_cases p
  · rfl
  · have htail : (pieces p.bytes).tail = pieces r := by rw [hr, pieces, if_pos rfl, List.tail_cons]
    rw [htail] at h
    rw [hnormal, hr]
    obtain hroot | hspoken := h
    · rw [hr] at hroot
      cases hroot
      rfl
    · rw [hfilter hspoken, glue_pieces]
  · rw [hp, List.tail_cons] at h
    obtain hroot | hspoken := h
    · rw [hroot] at hp
      exact absurd (List.cons.inj hp).1.symm hfirst
    · rw [hnormal, hfilter hspoken, ← hp, glue_pieces]

/-- In a normal spelling there are nothing but components behind the first piece, unless it is the root. -/
theorem spoken_normal (p : Path) :
    p.normal.bytes = [slash] ∨ ∀ piece ∈ (pieces p.normal.bytes).tail, isSilent piece = false := by
  have hspoken (ps : List Bytes) : ∀ piece ∈ ps.filter (! isSilent ·), isSilent piece = false := by
    intro piece hpiece
    simpa using (List.mem_filter.1 hpiece).2
  obtain rfl | ⟨r, -, hnormal⟩ | ⟨first, rest, -, hp, hnormal⟩ := bytes_normal_cases p
  · exact .inr nofun
  · have hslash : ∀ piece ∈ (pieces r).filter (! isSilent ·), slash ∉ piece := fun piece hpiece =>
      slash_notMem_of_mem_pieces (List.mem_of_mem_filter hpiece)
    by_cases hnil : (pieces r).filter (! isSilent ·) = []
    · rw [hnil] at hnormal
      exact .inl hnormal
    · rw [hnormal, pieces, if_pos rfl, List.tail_cons, pieces_glue hnil hslash]
      exact .inr (hspoken (pieces r))
  · have hslash : ∀ piece ∈ first :: rest.filter (! isSilent ·), slash ∉ piece := fun piece hpiece =>
      slash_notMem_of_pieces_eq hp piece ((List.filter_sublist.cons_cons first).subset hpiece)
    rw [hnormal, pieces_glue (List.cons_ne_nil _ _) hslash, List.tail_cons]
    exact .inr (hspoken rest)

/-- Spelling a path normally never makes it longer. -/
theorem length_normal_le (p : Path) : p.normal.bytes.length ≤ p.bytes.length := by
  obtain rfl | ⟨r, hb, hn⟩ | ⟨first, rest, -, hp, hn⟩ := bytes_normal_cases p
  · exact Nat.le_refl _
  · have := length_glue_le_of_sublist (List.filter_sublist (p := (! isSilent ·)) (l := pieces r))
    rw [glue_pieces] at this
    rw [hn, hb, List.length_cons, List.length_cons]
    omega
  · have := length_glue_le_of_sublist
      ((List.filter_sublist (p := (! isSilent ·)) (l := rest)).cons_cons first)
    rw [hn, ← glue_pieces p.bytes, hp]
    exact this

/-- The bytes of glued pieces are those of the pieces, separators aside. -/
theorem mem_glue_iff {ps : List Bytes} {b : UInt8} (hb : b ≠ slash) :
    b ∈ glue ps ↔ ∃ q ∈ ps, b ∈ q := by
  induction ps with
  | nil => simp [glue]
  | cons p qs ih =>
    cases qs with
    | nil => simp [glue]
    | cons q rs =>
      rw [glue, List.mem_append, List.mem_cons, ih]
      simp [hb]

/-- A byte that is neither a separator nor a dot is in a path exactly when its normal spelling has it:
leaving silent pieces out loses none. -/
theorem mem_bytes_normal_iff {p : Path} {b : UInt8} (hs : b ≠ slash) (hd : b ≠ dot) :
    b ∈ p.normal.bytes ↔ b ∈ p.bytes := by
  have hfilter : ∀ ps : List Bytes,
      (∃ q ∈ ps.filter (! isSilent ·), b ∈ q) ↔ ∃ q ∈ ps, b ∈ q := by
    intro ps
    refine ⟨fun ⟨q, hq, h⟩ => ⟨q, List.mem_of_mem_filter hq, h⟩, fun ⟨q, hq, h⟩ => ⟨q, ?_, h⟩⟩
    have hnil : q ≠ [] := List.ne_nil_of_mem h
    have hdot : q ≠ [dot] := fun e => hd (by simpa [e] using h)
    exact List.mem_filter.2 ⟨hq, by simp [isSilent, hnil, hdot]⟩
  obtain rfl | ⟨r, hb, hn⟩ | ⟨first, rest, -, hp, hn⟩ := bytes_normal_cases p
  · rfl
  · rw [hn, hb, List.mem_cons, List.mem_cons, mem_glue_iff hs, hfilter, ← mem_glue_iff hs,
      glue_pieces]
  · rw [hn, ← glue_pieces p.bytes, hp, mem_glue_iff hs, mem_glue_iff hs]
    simp only [List.mem_cons, exists_eq_or_imp, hfilter]

end PortableLayout.Path
