import PortableLayout.Proofs.Path.Components

/-!
# The components of a joined path

A path is joined to another one byte by byte, but what it means can be told from the pieces: the pieces of the
joined path are those of the first path and then those of the second (`pieces_join`). So the components of the
second one follow those of the first, except that a leading `.` no longer says anything (`components_join`).
-/

set_option autoImplicit false

namespace PortableLayout

/-- What the first piece of a path that is not empty stands for: the empty piece before a separator for the
root, and a `.` for itself. -/
def Component.opening? (first : Bytes) : Option Component :=
  if first = [] then some .root
  else if first = [dot] then some .here
  else ofPiece? first

namespace Path

variable {p q : Path} {first : Bytes} {rest : List Bytes}

/-- The components of a path are what its first piece stands for in front and what the others stand for behind. -/
theorem components_of_pieces (hne : p.bytes ≠ []) (hp : pieces p.bytes = first :: rest) :
    p.components = (Component.opening? first).toList ++ rest.filterMap Component.ofPiece? := by
  obtain ⟨bs⟩ := p
  cases bs with
  | nil => exact absurd rfl hne
  | cons b r =>
    by_cases hb : b = slash
    · subst hb
      rw [pieces, if_pos rfl] at hp
      obtain ⟨rfl, rfl⟩ := List.cons.inj hp
      rw [components_of_absolute]
      rfl
    · have hfirst : first ≠ [] := by
        rintro rfl
        rw [pieces, if_neg hb] at hp
        split at hp <;> simp at hp
      rw [components_of_relative hne (by simpa using hb) hp, Component.opening?, if_neg hfirst]
      by_cases hdot : first = [dot]
      · rw [if_pos hdot, if_pos hdot]
        rfl
      · rw [if_neg hdot, if_neg hdot, List.filterMap_cons]
        cases Component.ofPiece? first with
        | none => rfl
        | some c => rfl

/-- Below the empty path every path is itself. -/
theorem empty_join (q : Path) : empty.join q = q := by
  unfold join
  split
  · rfl
  · simp [empty]

/-- A relative path that is joined to another one takes over where that one starts. -/
theorem isAbsolute_join (p : Path) (hq : q.isAbsolute = false) : (p.join q).isAbsolute = p.isAbsolute := by
  obtain ⟨bytes⟩ := p
  cases bytes with
  | nil =>
    rw [show Path.mk [] = empty from rfl, empty_join, hq]
    rfl
  | cons b r =>
    unfold join
    rw [if_neg (by simp [hq])]
    split <;> rfl

/-- The pieces of a joined path, but for the empty piece that ends a path with a separator at its end. -/
theorem pieces_join (hne : p.bytes ≠ []) (hq : q.isAbsolute = false) :
    ∃ ps, pieces (p.join q).bytes = ps ++ pieces q.bytes ∧ (pieces p.bytes = ps ∨ pieces p.bytes = ps ++ [[]]) := by
  unfold join
  rw [if_neg (by simp [hq])]
  by_cases hlast : p.bytes.getLast? = some slash
  · rw [if_pos (.inr hlast)]
    obtain ⟨a, ha⟩ := List.getLast?_eq_some_iff.1 hlast
    refine ⟨pieces a, ?_, .inr ?_⟩
    · rw [ha, List.append_assoc, List.singleton_append, pieces_append_slash]
    · rw [ha, pieces_append_slash]
      rfl
  · rw [if_neg (by simp [hne, hlast])]
    exact ⟨pieces p.bytes, pieces_append_slash _ _, .inl rfl⟩

/-- A path that has bytes keeps them when another one is put below it. -/
theorem join_bytes_ne_nil (hne : p.bytes ≠ []) (hq : q.isAbsolute = false) : (p.join q).bytes ≠ [] := by
  unfold join
  rw [if_neg (by simp [hq])]
  split
  · simp [hne]
  · simp

/-- The components of a relative path that is joined to one that is not empty are those of its pieces. -/
theorem components_join (hne : p.bytes ≠ []) (hq : q.isAbsolute = false) :
    (p.join q).components = p.components ++ (pieces q.bytes).filterMap Component.ofPiece? := by
  obtain ⟨ps, hjoin, hp⟩ := pieces_join hne hq
  cases ps with
  | nil =>
    -- A path with one empty piece has no bytes.
    obtain hp | hp := hp
    · exact absurd hp (pieces_ne_nil _)
    · have hbytes := glue_pieces p.bytes
      rw [hp] at hbytes
      exact absurd hbytes.symm hne
  | cons first rest =>
    rw [List.cons_append] at hjoin hp
    rw [components_of_pieces (join_bytes_ne_nil hne hq) hjoin, List.filterMap_append, ← List.append_assoc]
    congr 1
    obtain hp | hp := hp
    · rw [components_of_pieces hne hp]
    · rw [components_of_pieces hne hp, List.filterMap_append]
      simp [Component.ofPiece?, isSilent]

/-- The components of a path come first among those of any path below it. -/
theorem components_isPrefix_join (p : Path) (hq : q.isAbsolute = false) : p.components <+: (p.join q).components := by
  by_cases hp : p.bytes = []
  · obtain rfl : p = empty := congrArg Path.mk hp
    exact List.nil_prefix
  · rw [components_join hp hq]
    exact List.prefix_append _ _

/-- A name is no absolute path. -/
theorem isAbsolute_name {n : Bytes} (hn : (Component.name n).IsInner) : (Path.mk n).isAbsolute = false := by
  have hslash : slash ∉ n := hn.slash_notMem
  cases n with
  | nil => rfl
  | cons b r =>
    have hb : b ≠ slash := fun e => hslash (by simp [e])
    simpa [isAbsolute] using hb

/-- A name that is joined to a path is one more component, however the path is spelled. -/
theorem components_join_name (p : Path) {n : Bytes} (hn : (Component.name n).IsInner) :
    (p.join ⟨n⟩).components = p.components ++ [.name n] := by
  have hne : n ≠ [] := hn.bytes_ne_nil
  have hdot : n ≠ [dot] := hn.bytes_ne_dot
  have hpiece : Component.ofPiece? n = some (.name n) := hn.ofPiece?_bytes
  have hpieces : pieces n = [n] := pieces_of_slash_notMem hn.slash_notMem
  by_cases hp : p.bytes = []
  · obtain rfl : p = empty := congrArg Path.mk hp
    have hopening : Component.opening? n = some (.name n) := by
      rw [Component.opening?, if_neg hne, if_neg hdot, hpiece]
    rw [empty_join, components_of_pieces hne hpieces, hopening]
    rfl
  · rw [components_join hp (isAbsolute_name hn), hpieces, List.filterMap_cons_some hpiece]
    rfl

end Path

end PortableLayout
