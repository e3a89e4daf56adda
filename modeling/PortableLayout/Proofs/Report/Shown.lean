import PortableLayout.Proofs.Path.Text

/-!
# Shown paths

A report shows the text of a path, and of a path without one what a lossy reading makes of its bytes. Both come from
the same segments. So the bytes can be had back from what is shown exactly if the path has a text
(`toNarrow_reported_iff`), and a path without one is told by its replacement characters, one for each maximal
ill-formed part (`replacement_mem_reported`, `shows_reported_iff`).
-/

set_option autoImplicit false

namespace PortableLayout.Path

open Text (toText_eq_ok_iff ofNarrow_eq_ok_iff toNarrow)
open Text.Utf8

variable {p : Path}

/-- A path is written back from what is shown of it exactly if it has a text. -/
theorem toNarrow_reported_iff : toNarrow p.reported = p.bytes ↔ p.HasText := by
  rw [← ofNarrow_eq_ok_iff, ← toText_eq_ok_iff]
  constructor
  · intro h
    exact ⟨p.reported, h⟩
  · rintro ⟨s, hs⟩
    rw [reported_eq_display, display_of_toText hs, hs]

/-- What a path is reported as is the one text that shows its bytes. -/
theorem shows_reported_iff {shown : List Char} : Shows p.bytes shown ↔ shown = p.reported.toList := by
  rw [reported_eq_display, display, shows_iff]

/-- A path without a text has an ill-formed part, and the part is shown. -/
theorem replacement_mem_reported (h : ¬ p.HasText) : '\uFFFD' ∈ p.reported.toList := by
  rw [hasText_iff_isUtf8, isUtf8_iff_segments, Decidable.not_not] at h
  rw [reported_eq_display, display, toList_decodeLossy]
  exact List.mem_map_of_mem h

/-- What is shown of a path is always a text, and it is the path itself exactly if the path has a text. If not, each
maximal ill-formed part is shown as a replacement character, of which there is at least one. None goes over a
separator. -/
theorem paths_with_texts_are_reported_faithfully (p : Path) :
    (toNarrow p.reported = p.bytes ↔ p.HasText) ∧
    (¬ p.HasText → '\uFFFD' ∈ p.reported.toList) ∧
    IsUtf8 (toNarrow p.reported) ∧
    (∀ shown, Shows p.bytes shown ↔ shown = p.reported.toList) ∧
    ∀ q : Path, q.isAbsolute = false → (p.join q).reported = p.reported ++ p.gap ++ q.reported :=
  ⟨toNarrow_reported_iff, replacement_mem_reported, isUtf8_iff.2 ⟨p.reported, rfl⟩, fun _ => shows_reported_iff,
    fun _ => reported_join p⟩

/-- Of a sequence that breaks off before a separator and goes on behind it, each half is replaced on its own. -/
theorem torn_sequence_is_replaced_on_both_sides :
    let p : Path := ⟨[0x61, 0xE2, 0x82]⟩
    let q : Path := ⟨[0xAC, 0x62]⟩
    ¬ p.HasText ∧ '\uFFFD' ∈ p.reported.toList ∧ q.isAbsolute = false ∧ (p.join q).reported = "a\uFFFD/\uFFFDb" := by
  intro p q
  have hp : p.reported = "a\uFFFD" := by decide +kernel
  have hq : q.reported = "\uFFFDb" := by decide +kernel
  obtain ⟨hfaithful, hreplaced, -, -, hjoin⟩ := paths_with_texts_are_reported_faithfully p
  have hnot : ¬ p.HasText := by
    rw [← hfaithful, hp]
    decide
  have hrelative : q.isAbsolute = false := by decide
  refine ⟨hnot, hreplaced hnot, hrelative, ?_⟩
  rw [hjoin q hrelative, hp, hq]
  decide

end PortableLayout.Path
