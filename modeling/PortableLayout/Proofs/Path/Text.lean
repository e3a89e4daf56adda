import PortableLayout.Proofs.Path.Join
import PortableLayout.Proofs.Text.IllFormed

/-!
# Texts of paths

Paths are joined at separators, and no segment goes over a separator. So the segments of a joined path are those of
its parts with at most a separator between them (`segments_join`), whether the parts are UTF-8 or not, and what is
read from them can be told part by part: the text (`toText_join_eq_ok_iff`) and the text that is shown
(`reported_join`). In the same way a path is UTF-8 exactly if its components are (`hasText_iff_components`), for
what stands between components is separators and dots.
-/

set_option autoImplicit false

namespace PortableLayout

open Text (toText_eq_ok_iff exists_ofNarrow_iff exists_ofNarrow_iff_isUtf8)
open Text.Utf8

/-! ## Segments without an ill-formed part -/

namespace Text.Utf8

variable {bytes a b : Bytes} {s : String}

/-- Bytes are UTF-8 exactly if no part of them is ill-formed. -/
theorem isUtf8_iff_segments : IsUtf8 bytes ↔ .illFormed ∉ segments bytes := by
  rw [← exists_ofNarrow_iff_isUtf8, exists_ofNarrow_iff, exists_decode_iff]

/-- Bytes are read as a text exactly if they fall into its scalar values. -/
theorem decode_eq_some_iff_segments : decode bytes = some s ↔ segments bytes = s.toList.map .scalar := by
  rw [decode, Option.map_eq_some_iff]
  constructor
  · rintro ⟨cs, hcs, rfl⟩
    rw [String.toList_ofList]
    exact mapM_scalar?_eq_some_iff.1 hcs
  · intro h
    exact ⟨s.toList, mapM_scalar?_eq_some_iff.2 h, String.ofList_toList⟩

/-- A separator in front changes nothing about whether bytes are UTF-8. -/
theorem isUtf8_slash_cons_iff : IsUtf8 (slash :: b) ↔ IsUtf8 b := by
  simp [isUtf8_iff_segments, segments_slash_cons]

/-- Bytes with a separator between are UTF-8 exactly if both sides are. -/
theorem isUtf8_append_slash_iff : IsUtf8 (a ++ slash :: b) ↔ IsUtf8 a ∧ IsUtf8 b := by
  simp [isUtf8_iff_segments, segments_append_slash]

/-- Bytes are UTF-8 exactly if each of the runs between their separators is. -/
theorem isUtf8_glue_iff {ps : List Bytes} : IsUtf8 (glue ps) ↔ ∀ q ∈ ps, IsUtf8 q := by
  induction ps with
  | nil =>
    have hnil : IsUtf8 [] := ⟨[], rfl⟩
    simp [glue, hnil]
  | cons p qs ih =>
    cases qs with
    | nil => rw [glue, List.forall_mem_singleton]
    | cons q rs =>
      rw [glue, isUtf8_append_slash_iff, ih]
      exact List.forall_mem_cons.symm

/-- Silent pieces are UTF-8. -/
theorem isUtf8_of_isSilent {piece : Bytes} (h : isSilent piece = true) : IsUtf8 piece := by
  obtain rfl | rfl : piece = [] ∨ piece = [dot] := by simpa [isSilent] using h
  · exact ⟨[], rfl⟩
  · exact ⟨['.'], rfl⟩

/-- Only pieces that are always UTF-8 are no components. -/
theorem forall_isUtf8_pieces_iff {ps : List Bytes} :
    (∀ q ∈ ps, IsUtf8 q) ↔ ∀ c ∈ ps.filterMap Component.ofPiece?, IsUtf8 c.bytes := by
  rw [← List.forall_mem_map (f := Component.bytes) (P := IsUtf8), map_bytes_filterMap_ofPiece?]
  constructor
  · intro h q hq
    exact h q (List.mem_filter.1 hq).1
  · intro h q hq
    cases hsilent : isSilent q with
    | true => exact isUtf8_of_isSilent hsilent
    | false => exact h q (List.mem_filter.2 ⟨hq, by simp [hsilent]⟩)

end Text.Utf8

namespace Path

variable {p q : Path} {s t u : String}

/-! ## Texts by components -/

/-- The path can be written as a text. -/
def HasText (p : Path) : Prop :=
  ∃ s, p.toText = .ok s

/-- A path has a text exactly if its bytes are UTF-8. -/
theorem hasText_iff_isUtf8 : p.HasText ↔ IsUtf8 p.bytes := by
  rw [← exists_ofNarrow_iff_isUtf8]
  simp only [HasText, toText_eq_ok_iff]

/-- A path has a text exactly if its bytes fall into the scalar values of the text. -/
theorem toText_eq_ok_iff_segments : p.toText = .ok s ↔ segments p.bytes = s.toList.map .scalar := by
  rw [toText_eq_ok_iff, Text.ofNarrow_eq_ok_iff, ← decode_eq_some_iff_segments, decode_eq_some_iff, Text.toNarrow]

/-- What path reading leaves out is always UTF-8. -/
theorem hasText_iff_components : p.HasText ↔ ∀ c ∈ p.components, IsUtf8 c.bytes := by
  rw [hasText_iff_isUtf8]
  obtain rfl | ⟨r, hr, hc⟩ | ⟨first, rest, hfirst, -, hp, hc⟩ := components_cases p
  · exact iff_of_true ⟨[], rfl⟩ nofun
  · have hroot : IsUtf8 Component.root.bytes := ⟨['/'], rfl⟩
    rw [hr, isUtf8_slash_cons_iff, hc, List.forall_mem_cons, ← forall_isUtf8_pieces_iff, ← isUtf8_glue_iff, glue_pieces]
    exact (and_iff_right hroot).symm
  · rw [← glue_pieces p.bytes, isUtf8_glue_iff, hp, hc]
    by_cases hdot : first = [dot]
    · rw [if_pos hdot, List.forall_mem_cons, List.forall_mem_cons, ← forall_isUtf8_pieces_iff, hdot]
      rfl
    · rw [if_neg hdot, forall_isUtf8_pieces_iff]

/-! ## Texts of joined paths -/

/-- What stands between a path and a relative one that is joined to it. -/
def gap (p : Path) : String :=
  if p.bytes = [] ∨ p.bytes.getLast? = some slash then "" else "/"

/-- The segments of a joined path are those of its parts, and of a separator if there is one between them. -/
theorem segments_join (p : Path) (hq : q.isAbsolute = false) :
    segments (p.join q).bytes = segments p.bytes ++ (p.gap.toList.map .scalar ++ segments q.bytes) := by
  have hrelative : ¬ q.isAbsolute = true := by simp [hq]
  unfold join gap
  rw [if_neg hrelative]
  by_cases hp : p.bytes = []
  · simp [hp, segments_nil]
  by_cases hlast : p.bytes.getLast? = some slash
  · obtain ⟨a, ha⟩ := List.getLast?_eq_some_iff.1 hlast
    have hsplit : a ++ [slash] ++ q.bytes = a ++ slash :: q.bytes := by
      rw [List.append_assoc, List.singleton_append]
    rw [if_pos (.inr hlast), if_pos (.inr hlast)]
    simp only
    rw [ha, hsplit, segments_append_slash, segments_append_slash, segments_nil]
    simp
  · have hgap : ¬ (p.bytes = [] ∨ p.bytes.getLast? = some slash) := by simp [hp, hlast]
    rw [if_neg hgap, if_neg hgap]
    exact segments_append_slash p.bytes q.bytes

/-- A joined path has a text exactly if both parts have one. -/
theorem hasText_join_iff (p : Path) (hq : q.isAbsolute = false) : (p.join q).HasText ↔ p.HasText ∧ q.HasText := by
  simp only [hasText_iff_isUtf8, isUtf8_iff_segments, segments_join p hq]
  simp

/-- The text of a joined path is that of the parts, with a separator between them where one is needed. -/
theorem toText_join (hq : q.isAbsolute = false) (hs : p.toText = .ok s) (ht : q.toText = .ok t) :
    (p.join q).toText = .ok (s ++ p.gap ++ t) := by
  rw [toText_eq_ok_iff_segments] at hs ht ⊢
  rw [segments_join p hq, hs, ht]
  simp

/-- The text of a joined path is made of the texts of its parts, and there is one only if both have one. -/
theorem toText_join_eq_ok_iff (hq : q.isAbsolute = false) :
    (p.join q).toText = .ok u ↔ ∃ s t, p.toText = .ok s ∧ q.toText = .ok t ∧ u = s ++ p.gap ++ t := by
  constructor
  · intro h
    obtain ⟨⟨s, hs⟩, ⟨t, ht⟩⟩ := (hasText_join_iff p hq).1 ⟨u, h⟩
    refine ⟨s, t, hs, ht, ?_⟩
    rw [toText_join hq hs ht] at h
    exact (Except.ok.inj h).symm
  · rintro ⟨s, t, hs, ht, rfl⟩
    exact toText_join hq hs ht

/-! ## What is shown -/

/-- A path that has a text is displayed as that text. -/
theorem display_of_toText (h : p.toText = .ok s) : p.display = s := by
  rw [display, decodeLossy, toText_eq_ok_iff_segments.1 h, List.map_map]
  exact (congrArg String.ofList (List.map_id s.toList)).trans String.ofList_toList

/-- A text is shown as it is, so that a lossy reading would do for every path. -/
theorem reported_eq_display (p : Path) : p.reported = p.display := by
  unfold reported
  cases h : p.toText with
  | ok s => exact (display_of_toText h).symm
  | error e => rfl

/-- What is shown of a joined path is what is shown of its parts. -/
theorem reported_join (p : Path) (hq : q.isAbsolute = false) :
    (p.join q).reported = p.reported ++ p.gap ++ q.reported := by
  have hgap : ∀ cs : List Char, (cs.map Segment.scalar).map Segment.shown = cs := fun cs => by
    rw [List.map_map]
    exact List.map_id cs
  apply String.toList_inj.1
  simp only [reported_eq_display, display, String.toList_append, toList_decodeLossy, segments_join p hq,
    List.map_append, hgap, List.append_assoc]

end Path

end PortableLayout
