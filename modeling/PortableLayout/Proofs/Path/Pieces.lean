import Mathlib.Data.List.Induction
import PortableLayout.Proofs.Path.Rooted

/-!
# What a lookup of a prefix is given

A lookup goes over pieces, a walk over components. The prefixes of a walk are in their normal spelling, so
that they have a piece for each component and, for the root, the empty piece before the first separator
(`pieces_spell_concat`). A prefix is spelled by the first bytes of any longer one (`bytes_spell_isPrefix`).
-/

set_option autoImplicit false

namespace PortableLayout

/-- The piece of a path that stands for a component. -/
def Component.piece : Component → Bytes
  | .root => []
  | c => c.bytes

/-- The piece for a component that can stand behind others is its bytes. -/
theorem Component.IsInner.piece_eq {c : Component} (h : c.IsInner) : c.piece = c.bytes := by
  cases c with
  | root => exact absurd h id
  | here => rfl
  | up => rfl
  | name n => rfl

/-- A name among the components of a path can stand behind other components. -/
theorem Listed.isInner_name {cs : List Component} {n : Bytes} (h : Listed cs) (hn : .name n ∈ cs) :
    Component.IsInner (.name n) := by
  cases cs with
  | nil => cases hn
  | cons d cs =>
    obtain rfl | hn := List.mem_cons.1 hn
    · obtain hroot | hhere | hinner := h.1
      · cases hroot
      · cases hhere
      · exact hinner
    · exact h.2 _ hn

namespace Path

variable {cs ds : List Component} {c : Component}

/-- The pieces for components that can stand behind others are their bytes. -/
theorem map_piece_of_isInner (hcs : ∀ c ∈ cs, c.IsInner) : cs.map Component.piece = cs.map Component.bytes :=
  List.map_congr_left fun c hc => (hcs c hc).piece_eq

/-- A prefix has one piece for each of its components. -/
theorem pieces_spell_concat (h : Listed (cs ++ [c])) (hc : c.IsInner) :
    pieces (spell (cs ++ [c])).bytes = cs.map Component.piece ++ [c.bytes] := by
  cases cs with
  | nil => exact pieces_spell_cons (.inr hc) (by simp)
  | cons d cs =>
    have hinner : ∀ e ∈ cs ++ [c], e.IsInner := h.2
    have hcs : cs.map Component.piece = cs.map Component.bytes := by
      apply map_piece_of_isInner
      intro e he
      exact hinner e (List.mem_append_left [c] he)
    rw [List.map_cons, hcs]
    obtain rfl | hd := h.1
    · exact pieces_rooted_concat hinner
    · have hpiece : d.piece = d.bytes := by
        obtain rfl | hd := hd
        · rfl
        · exact hd.piece_eq
      rw [List.cons_append, pieces_spell_cons hd hinner, List.map_cons, List.map_append, hpiece]
      rfl

/-- Pushing a component that is not absolute keeps the bytes of the path in front. -/
theorem bytes_isPrefix_push (p : Path) (hc : (Path.mk c.bytes).isAbsolute = false) :
    p.bytes <+: (p.push c).bytes := by
  have hrel : ¬ (Path.mk c.bytes).isAbsolute = true := by rw [hc]; nofun
  rw [push, join, if_neg hrel]
  split
  · exact List.prefix_append _ _
  · exact List.prefix_append _ _

/-- A longer list of components is spelled with more bytes behind. -/
theorem bytes_spell_isPrefix (h : Listed (cs ++ ds)) : (spell cs).bytes <+: (spell (cs ++ ds)).bytes := by
  induction ds using List.reverseRecOn with
  | nil => simp
  | append_singleton ds c ih =>
    rw [← List.append_assoc] at h ⊢
    have hshorter := ih h.of_append
    by_cases hnil : cs ++ ds = []
    · rw [(List.append_eq_nil_iff.1 hnil).1]
      exact List.nil_prefix
    · rw [spell_append_singleton]
      exact hshorter.trans (bytes_isPrefix_push _ (isAbsolute_of_isInner (h.isInner_last hnil)))

end Path

end PortableLayout
