import Mathlib.Data.List.Basic
import PortableLayout.Proofs.Path.Components

/-!
# Spelling a path

The components of a path, pushed one after the other onto the empty path, spell a path again. This
file says what the spelling looks like (`bytes_spell_root`, `bytes_spell_cons`) and that it is a
normal form: a list of components that a path can have is read back from its spelling
(`components_spell`), and cutting the last component off a spelling spells the list without it
(`parent?_spell`).
-/

set_option autoImplicit false

namespace PortableLayout.Path

/-- The path that the components spell when they are pushed one by one. -/
def spell (cs : List Component) : Path :=
  cs.foldl push empty

/-- One more component is one more push. -/
theorem spell_append_singleton (cs : List Component) (c : Component) :
    spell (cs ++ [c]) = (spell cs).push c := by
  simp [spell]

/-- A component that can stand behind others is no absolute path. -/
theorem isAbsolute_of_isInner {c : Component} (hc : c.IsInner) :
    (Path.mk c.bytes).isAbsolute = false := by
  have hs := hc.slash_notMem
  cases hb : c.bytes with
  | nil => rfl
  | cons b r =>
    have hb : b ≠ slash := fun e => hs (by simp [hb, e])
    simpa [isAbsolute] using hb

/-- Such a component is pushed with a separator before it. -/
theorem push_of_isInner {p : Path} {c : Component} (hc : c.IsInner) (hne : p.bytes ≠ [])
    (hlast : p.bytes.getLast? ≠ some slash) : p.push c = ⟨p.bytes ++ slash :: c.bytes⟩ := by
  simp [push, join, isAbsolute_of_isInner hc, hne, hlast]

/-- Bytes with a piece at their end do not end with a separator. -/
theorem getLast?_append_slash_cons_ne {q : Bytes} (hne : q ≠ []) (hs : slash ∉ q) (bs : Bytes) :
    (bs ++ slash :: q).getLast? ≠ some slash := by
  intro h
  have hlast : (bs ++ slash :: q).getLast? = q.getLast? := by
    rw [← List.singleton_append, ← List.append_assoc, List.getLast?_append_of_ne_nil _ hne]
  rw [hlast] at h
  exact hs (List.mem_of_getLast? h)

/-- A separator within the first of the pieces that are glued parts it in two. -/
theorem glue_append_slash_cons (p q : Bytes) (ps : List Bytes) :
    glue ((p ++ slash :: q) :: ps) = glue (p :: q :: ps) := by
  cases ps with
  | nil => simp [glue]
  | cons r rs => simp [glue]

/-- The first byte of the first piece is the first byte of what is glued. -/
theorem glue_cons_cons (b : UInt8) (p : Bytes) (ps : List Bytes) :
    glue ((b :: p) :: ps) = b :: glue (p :: ps) := by
  cases ps with
  | nil => simp [glue]
  | cons r rs => simp [glue]

/-- Inner components pushed onto a path that does not end in a separator are glued to it. -/
theorem bytes_foldl_push {p : Path} {cs : List Component} (hne : p.bytes ≠ [])
    (hlast : p.bytes.getLast? ≠ some slash) (hcs : ∀ c ∈ cs, c.IsInner) :
    (cs.foldl push p).bytes = glue (p.bytes :: cs.map Component.bytes) := by
  induction cs generalizing p with
  | nil => rfl
  | cons c cs ih =>
    have hc : c.IsInner := hcs c (by simp)
    have hlast' : (p.bytes ++ slash :: c.bytes).getLast? ≠ some slash :=
      getLast?_append_slash_cons_ne hc.bytes_ne_nil hc.slash_notMem _
    rw [List.foldl_cons, push_of_isInner hc hne hlast,
      ih (p := ⟨p.bytes ++ slash :: c.bytes⟩) (by simp) hlast' fun d hd => hcs d (by simp [hd])]
    exact glue_append_slash_cons _ _ _

/-- The spelling of an absolute path. -/
theorem bytes_spell_root {cs : List Component} (hcs : ∀ c ∈ cs, c.IsInner) :
    (spell (.root :: cs)).bytes = slash :: glue (cs.map Component.bytes) := by
  cases cs with
  | nil => rfl
  | cons c cs =>
    have hc : c.IsInner := hcs c (by simp)
    have hpush : (empty.push .root).push c = ⟨slash :: c.bytes⟩ := by
      change (Path.mk [slash]).push c = ⟨slash :: c.bytes⟩
      simp [push, join, isAbsolute_of_isInner hc]
    have hlast : (slash :: c.bytes).getLast? ≠ some slash :=
      getLast?_append_slash_cons_ne hc.bytes_ne_nil hc.slash_notMem []
    rw [spell, List.foldl_cons, List.foldl_cons, hpush,
      bytes_foldl_push (by simp) hlast fun d hd => hcs d (by simp [hd])]
    exact glue_cons_cons _ _ _

/-- The spelling of a relative path that is not empty. -/
theorem bytes_spell_cons {c : Component} {cs : List Component} (hc : c = .here ∨ c.IsInner)
    (hcs : ∀ d ∈ cs, d.IsInner) :
    (spell (c :: cs)).bytes = glue ((c :: cs).map Component.bytes) := by
  have hslash : slash ∉ c.bytes := by
    obtain rfl | hc := hc
    · decide
    · exact hc.slash_notMem
  have hne : c.bytes ≠ [] := by
    obtain rfl | hc := hc
    · decide
    · exact hc.bytes_ne_nil
  have habs : (Path.mk c.bytes).isAbsolute = false := by
    obtain rfl | hc := hc
    · rfl
    · exact isAbsolute_of_isInner hc
  have hpush : empty.push c = ⟨c.bytes⟩ := by
    simp [push, join, habs, empty]
  rw [spell, List.foldl_cons, hpush]
  exact bytes_foldl_push hne (fun h => hslash (List.mem_of_getLast? h)) hcs

/-- The spelling of a relative path begins with a byte of its first component. -/
theorem head?_bytes_spell_cons {c : Component} {cs : List Component} (hc : c = .here ∨ c.IsInner)
    (hcs : ∀ d ∈ cs, d.IsInner) :
    (spell (c :: cs)).bytes ≠ [] ∧ (spell (c :: cs)).bytes.head? ≠ some slash := by
  obtain ⟨b, r, hb, hbs⟩ : ∃ b r, c.bytes = b :: r ∧ b ≠ slash := by
    obtain rfl | hc := hc
    · exact ⟨dot, [], rfl, by decide⟩
    · cases hb : c.bytes with
      | nil => exact absurd hb hc.bytes_ne_nil
      | cons b r => exact ⟨b, r, rfl, fun e => hc.slash_notMem (by simp [hb, e])⟩
  rw [bytes_spell_cons hc hcs, List.map_cons, hb, glue_cons_cons]
  exact ⟨by simp, by simpa using hbs⟩

/-- The pieces of the spelling of a relative path are the spellings of its components. -/
theorem pieces_spell_cons {c : Component} {cs : List Component} (hc : c = .here ∨ c.IsInner)
    (hcs : ∀ d ∈ cs, d.IsInner) :
    pieces (spell (c :: cs)).bytes = (c :: cs).map Component.bytes := by
  rw [bytes_spell_cons hc hcs]
  refine pieces_glue (by simp) fun p hp => ?_
  obtain ⟨d, hd, rfl⟩ := List.mem_map.1 hp
  obtain rfl | hd := List.mem_cons.1 hd
  · obtain rfl | hc := hc
    · decide
    · exact hc.slash_notMem
  · exact (hcs d hd).slash_notMem

/-- No component that can stand behind others has a separator in it. -/
theorem slash_notMem_of_mem_map_bytes {cs : List Component} (hcs : ∀ c ∈ cs, c.IsInner) :
    ∀ p ∈ cs.map Component.bytes, slash ∉ p := by
  intro p hp
  obtain ⟨c, hc, rfl⟩ := List.mem_map.1 hp
  exact (hcs c hc).slash_notMem

/-- A list of components that a path can have is read back from its spelling. -/
theorem components_spell {cs : List Component} (h : Listed cs) : (spell cs).components = cs := by
  cases cs with
  | nil => rfl
  | cons c cs =>
    obtain ⟨hc, hcs⟩ := h
    obtain rfl | hc := hc
    · have hspell : spell (.root :: cs) = ⟨slash :: glue (cs.map Component.bytes)⟩ :=
        congrArg Path.mk (bytes_spell_root hcs)
      rw [hspell, components_of_absolute,
        filterMap_pieces_glue (slash_notMem_of_mem_map_bytes hcs), filterMap_ofPiece?_map_bytes hcs]
    · obtain ⟨hne, habs⟩ := head?_bytes_spell_cons hc hcs
      rw [show spell (c :: cs) = ⟨(spell (c :: cs)).bytes⟩ from rfl,
        components_of_relative hne habs (pieces_spell_cons hc hcs)]
      obtain rfl | hc := hc
      · rw [if_pos (by rfl), filterMap_ofPiece?_map_bytes hcs]
      · rw [if_neg hc.bytes_ne_dot]
        exact filterMap_ofPiece?_map_bytes (List.forall_mem_cons.2 ⟨hc, hcs⟩)

/-! ## Parents of spellings -/

/-- The parent of an absolute path is cut off behind its first separator. -/
theorem parent?_of_absolute (r : Bytes) :
    (Path.mk (slash :: r)).parent? =
      (cutLast [] (pieces r)).map fun ps => ⟨slash :: glue ps⟩ := by
  simp [parent?]

/-- The parent of a relative path is cut off behind a dot in front, if there is one. -/
theorem parent?_of_relative {bs first : Bytes} {rest : List Bytes} (hne : bs ≠ [])
    (habs : bs.head? ≠ some slash) (hp : pieces bs = first :: rest) :
    (Path.mk bs).parent? =
      if first = [dot] then some (((cutLast [first] rest).map fun ps => ⟨glue ps⟩).getD empty)
      else (cutLast [] (first :: rest)).map fun ps => ⟨glue ps⟩ := by
  cases bs with
  | nil => exact absurd rfl hne
  | cons b r =>
    have hb : b ≠ slash := fun e => habs (by simp [e])
    simp only [parent?, if_neg hb, hp]
    by_cases hdot : first = [dot]
    · rw [if_pos hdot, if_pos hdot]
      cases cutLast [first] rest with
      | none => rfl
      | some ps => rfl
    · rw [if_neg hdot, if_neg hdot]

/-- Where no piece is silent there is nothing to trim. -/
theorem trimBack_eq_self {ps : List Bytes} (h : ∀ p ∈ ps, isSilent p = false) :
    trimBack ps = ps := by
  unfold trimBack
  cases hr : ps.reverse with
  | nil => simpa using hr.symm
  | cons q qs =>
    have hq : isSilent q = false := h q (by rw [← List.mem_reverse, hr]; simp)
    rw [List.dropWhile_cons_of_neg (by simp [hq]), ← hr, List.reverse_reverse]

/-- Of pieces that are components exactly the last one is cut off. -/
theorem cutLast_append_singleton (before : List Bytes) {ps : List Bytes} {q : Bytes}
    (hps : ∀ p ∈ ps, isSilent p = false) (hq : isSilent q = false) :
    cutLast before (ps ++ [q]) = some (before ++ ps) := by
  have hall : ∀ p ∈ ps ++ [q], isSilent p = false := by
    intro p hp
    obtain hp | hp := List.mem_append.1 hp
    · exact hps p hp
    · rw [List.mem_singleton.1 hp]; exact hq
  have hdrop : trimBack (ps ++ [q]).dropLast = ps := by
    rw [List.dropLast_concat, trimBack_eq_self hps]
  unfold cutLast
  rw [trimBack_eq_self hall]
  cases hpq : ps ++ [q] with
  | nil => simp at hpq
  | cons a as =>
    rw [hpq] at hdrop
    simp only [hdrop]

/-- The bytes of a component that can stand behind others are not silent. -/
theorem isSilent_of_mem_map_bytes {cs : List Component} (hcs : ∀ c ∈ cs, c.IsInner) {p : Bytes}
    (hp : p ∈ cs.map Component.bytes) : isSilent p = false := by
  obtain ⟨c, hc, rfl⟩ := List.mem_map.1 hp
  exact (hcs c hc).isSilent_bytes

/-- Cutting the last component off a spelling spells the list without it. -/
theorem parent?_spell {cs : List Component} {c : Component} (h : Listed (cs ++ [c]))
    (hroot : c ≠ .root) : (spell (cs ++ [c])).parent? = some (spell cs) := by
  cases cs with
  | nil =>
    have hc : c = .here ∨ c.IsInner := h.1.resolve_left hroot
    have hnil : ∀ d ∈ ([] : List Component), d.IsInner := by simp
    obtain ⟨hne, habs⟩ := head?_bytes_spell_cons hc hnil
    have hpieces := pieces_spell_cons hc hnil
    rw [List.nil_append, show spell [c] = ⟨(spell [c]).bytes⟩ from rfl,
      parent?_of_relative hne habs hpieces]
    obtain rfl | hc := hc
    · rfl
    · rw [if_neg hc.bytes_ne_dot]
      have hno : ∀ p ∈ ([] : List Bytes), isSilent p = false := by simp
      have hcut : cutLast [] [c.bytes] = some [] :=
        cutLast_append_singleton [] hno hc.isSilent_bytes
      simp [hcut, glue, spell, empty]
  | cons d cs =>
    have hinner : ∀ e ∈ cs ++ [c], e.IsInner := h.2
    have hcs : ∀ e ∈ cs, e.IsInner := fun e he => hinner e (by simp [he])
    have hc : c.IsInner := hinner c (by simp)
    have hsilent : ∀ p ∈ cs.map Component.bytes, isSilent p = false :=
      fun p hp => isSilent_of_mem_map_bytes hcs hp
    -- The first component stays; it decides behind what the pieces begin that are cut.
    obtain rfl | hd := h.1
    · have hbytes := bytes_spell_root hinner
      have hpieces : pieces (glue ((cs ++ [c]).map Component.bytes)) =
          cs.map Component.bytes ++ [c.bytes] := by
        rw [pieces_glue (by simp) (slash_notMem_of_mem_map_bytes hinner), List.map_append, List.map_singleton]
      rw [List.cons_append, show spell (.root :: (cs ++ [c])) = ⟨_⟩ from congrArg Path.mk hbytes,
        parent?_of_absolute, hpieces, cutLast_append_singleton _ hsilent hc.isSilent_bytes]
      exact congrArg some (congrArg Path.mk (bytes_spell_root hcs).symm)
    · obtain ⟨hne, habs⟩ := head?_bytes_spell_cons hd hinner
      have hpieces := pieces_spell_cons hd hinner
      have hspell := bytes_spell_cons hd hcs
      rw [List.cons_append, show spell (d :: (cs ++ [c])) = ⟨(spell (d :: (cs ++ [c]))).bytes⟩ from rfl,
        parent?_of_relative hne habs hpieces, List.map_append, List.map_singleton]
      obtain rfl | hd := hd
      · rw [if_pos (by rfl), cutLast_append_singleton _ hsilent hc.isSilent_bytes]
        exact congrArg some (congrArg Path.mk hspell.symm)
      · have hsilent' : ∀ p ∈ (d :: cs).map Component.bytes, isSilent p = false :=
          fun p hp => isSilent_of_mem_map_bytes (List.forall_mem_cons.2 ⟨hd, hcs⟩) hp
        rw [if_neg hd.bytes_ne_dot, ← List.cons_append, ← List.map_cons,
          cutLast_append_singleton _ hsilent' hc.isSilent_bytes]
        exact congrArg some (congrArg Path.mk hspell.symm)

/-- The root has no parent. -/
theorem parent?_spell_root : (spell [.root]).parent? = none := rfl

end PortableLayout.Path
