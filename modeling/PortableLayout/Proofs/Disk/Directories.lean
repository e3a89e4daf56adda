import Mathlib.Tactic.MkIffOfInductiveProp
import PortableLayout.Proofs.Disk.Unlinked

/-!
# Trees of directories

Where there is nothing but directories, an absolute path without `..` says where it leads: its names are the
location (`Disk.locate_eq_ok_iff_find?`). Whether it leads anywhere then depends on its names alone
(`Disk.exists_locate_iff`), and so does its normal spelling (`Path.normal_eq_normal_iff`).
-/

set_option autoImplicit false

namespace PortableLayout

open PortableLayout.Path (spell)

namespace Path

variable {p p' : Path} {cs : List Component}

/-- A path from the root that never goes up, within the limits of the system. -/
@[mk_iff]
structure IsOrdinary (p : Path) : Prop where
  absolute : p.isAbsolute = true
  noUp : .up ∉ p.components
  within : p.WithinLimits

/-- Whether a path is ordinary can be computed. -/
instance (p : Path) : Decidable p.IsOrdinary :=
  decidable_of_iff _ (isOrdinary_iff p).symm

/-- What an ordinary path has to say: the names of entries, from the top on. -/
def names (p : Path) : List Bytes :=
  spoken (pieces p.bytes)

/-- The normal spelling of an absolute path is a separator and its names with separators between. -/
theorem normal_of_isAbsolute (h : p.isAbsolute = true) : p.normal = ⟨slash :: glue p.names⟩ := by
  obtain rfl | ⟨r, hb, hc⟩ | ⟨first, rest, -, hhead, -, -⟩ := components_cases p
  · cases h
  · have hpieces : pieces p.bytes = [] :: pieces r := by rw [hb, pieces, if_pos rfl]
    have hnames : p.names = spoken (pieces r) := by rw [names, hpieces, spoken_cons_of_silent rfl]
    rw [hnames, spoken, ← map_bytes_filterMap_ofPiece?, normal, hc]
    exact congrArg mk (bytes_spell_root fun c hc => isInner_of_mem_filterMap_pieces hc)
  · rw [isAbsolute, beq_iff_eq] at h
    exact absurd h hhead

/-- Absolute paths have one normal spelling exactly if they have the same names. -/
theorem normal_eq_normal_iff (h : p.isAbsolute = true) (h' : p'.isAbsolute = true) :
    p.normal = p'.normal ↔ p.names = p'.names := by
  constructor
  · intro heq
    rw [names, names, ← spoken_pieces_normal p, heq, spoken_pieces_normal]
  · intro heq
    rw [normal_of_isAbsolute h, normal_of_isAbsolute h', heq]

/-- The names are such as a lookup takes for names of entries. -/
theorem IsOrdinary.of_mem_names (hp : p.IsOrdinary) {n : Bytes} (hn : n ∈ p.names) :
    isSilent n = false ∧ n ≠ [dot, dot] ∧ n.length ≤ maxNameBytes := by
  rw [names, spoken_pieces, List.mem_map] at hn
  obtain ⟨c, hc, rfl⟩ := hn
  obtain ⟨hmem, hkind⟩ := List.mem_filter.1 hc
  cases c with
  | root => simp at hkind
  | here => simp at hkind
  | up => exact absurd hmem hp.noUp
  | name n =>
    have hinner := (listed_components p).isInner_name hmem
    exact ⟨hinner.1, hinner.2.1, hp.within.shortNames n hmem⟩

/-- The prefixes that a walk visits are ordinary paths too. -/
theorem IsOrdinary.spell (hp : p.IsOrdinary) (hcs : cs <+: p.components) (hne : cs ≠ []) :
    (spell cs).IsOrdinary := by
  have hcomponents : (Path.spell cs).components = cs := components_spell (Disk.listed_of_isPrefix hcs)
  obtain ⟨hnul, -, hshort⟩ := Disk.checkPath_eq_ok_iff.1 (Disk.checkPath_spell hp.within hcs hne)
  refine ⟨?_, ?_, hnul, hshort, ?_⟩
  · rw [← hp.absolute, Disk.isAbsolute_spell hcs hne]
  · rw [hcomponents]
    exact fun h => hp.noUp (hcs.subset h)
  · intro n hn
    rw [hcomponents] at hn
    exact hp.within.shortNames n (hcs.subset hn)

end Path

namespace Node

/-- A tree of nothing but directories. -/
def OnlyDirs (t : Node) : Prop :=
  t.Everywhere fun n => n.isDir = true

/-- A tree of directories has no links. -/
theorem OnlyDirs.unlinked {t : Node} (h : t.OnlyDirs) : t.Unlinked := by
  intro l n hn target hlink
  have hdir := h l n hn
  rw [hlink] at hdir
  cases hdir

/-- All places of such a tree are directories. -/
theorem OnlyDirs.isDir_of_in {t : Node} {q : Position} (h : t.OnlyDirs) (hq : q.In t) : q.node.isDir = true :=
  h _ _ hq.get?_location

end Node

namespace Disk

variable {d d' : Disk} {p : Path} {q : Position} {l : List Bytes} {new : List (List Bytes)} {t : Node}
  {ns : List Bytes}

/-- Added directories leave a tree of directories one. -/
theorem Adds.onlyDirs (h : d.Adds new d') (hdirs : d.top.OnlyDirs) : d'.top.OnlyDirs := by
  refine h.everywhere ?_ (fun n hdir => hdir) hdirs
  intro a b hab ha
  rw [hab.isDir_eq, ha]

/-- Among directories, names lead down entry by entry. -/
theorem stride_of_names (hdirs : t.OnlyDirs) (hq : q.In t)
    (hns : ∀ n ∈ ns, isSilent n = false ∧ n ≠ [dot, dot] ∧ n.length ≤ maxNameBytes) :
    stride q ns = match q.find? ns with
      | some r => .arrived r
      | none => .failed .noEntry := by
  induction ns generalizing q with
  | nil => rfl
  | cons n ns ih =>
    obtain ⟨hspoken, hup, hshort⟩ := hns n List.mem_cons_self
    have hlater : ∀ m ∈ ns, isSilent m = false ∧ m ≠ [dot, dot] ∧ m.length ≤ maxNameBytes :=
      fun m hm => hns m (List.mem_cons_of_mem n hm)
    cases hchild : q.node.child? n with
    | none =>
      rw [stride_of_missing (hdirs.isDir_of_in hq) hspoken hup hshort hchild, Position.find?, hchild]
      rfl
    | some child =>
      have hin : (q.down n child).In t := .down hq hchild
      obtain hstep | ⟨target, rfl, -⟩ := Position.step_or_meets hspoken hup hshort hchild
      · rw [stride_of_step hstep, ih hin hlater, Position.find?, hchild]
        rfl
      · cases hdirs.isDir_of_in hin

/-- An ordinary path leads down its names, however it is spelled. -/
theorem locate_eq_ok_iff_find? (hdirs : d.top.OnlyDirs) (hp : p.IsOrdinary) :
    d.locate p = .ok q ↔ (Position.top d.top).find? p.names = some q := by
  have hstride := stride_of_names hdirs .top fun n hn => hp.of_mem_names hn
  have hstart : d.start p = .ok (.top d.top) := if_pos hp.absolute
  constructor
  · intro h
    obtain ⟨-, s, hs, hf⟩ := locate_eq_ok_iff.1 h
    cases hstart.symm.trans hs
    cases reaches_of_follow hf with
    | arrived stop =>
      rw [Path.names, stride_spoken_of_arrived stop] at hstride
      split at hstride
      · next r hfind =>
        cases hstride
        exact hfind
      · cases hstride
    | linked stop named later =>
      -- There is no link to be met.
      rw [Path.names, stride_spoken_of_met stop] at hstride
      split at hstride
      · cases hstride
      · cases hstride
  · intro h
    rw [h] at hstride
    have hdir := hdirs.isDir_of_in (Position.in_of_find? .top h).1
    have hne : p.bytes ≠ [] := by
      intro hnil
      have habs := hp.absolute
      rw [Path.isAbsolute, hnil] at habs
      cases habs
    refine locate_eq_ok_iff.2 ⟨checkPath_eq_ok_iff.2 ⟨hp.within.noNul, hne, hp.within.short⟩, _, hstart, ?_⟩
    exact follow_of_arrived (stride_of_spoken_arrived hstride hdir)

/-- An ordinary path leads somewhere in such a tree exactly if there is a node under its names. -/
theorem exists_locate_iff (hdirs : d.top.OnlyDirs) (hp : p.IsOrdinary) :
    (∃ q, d.locate p = .ok q) ↔ d.top.get? p.names ≠ none := by
  constructor
  · rintro ⟨q, hq⟩
    obtain ⟨hin, hlocation⟩ := Position.in_of_find? .top ((locate_eq_ok_iff_find? hdirs hp).1 hq)
    have hnode := hin.get?_location
    rw [hlocation, Position.location_top, List.nil_append] at hnode
    rw [hnode]
    exact Option.some_ne_none _
  · intro h
    obtain ⟨n, hn⟩ := Option.ne_none_iff_exists'.1 h
    obtain ⟨q, hq, -⟩ := Position.find?_of_get? (p := .top d.top) .top hn
    exact ⟨q, (locate_eq_ok_iff_find? hdirs hp).2 hq⟩

/-- The place that it leads to is told by its names. -/
theorem eq_names_of_leadsTo (hdirs : d.top.OnlyDirs) (hp : p.IsOrdinary) (h : d.LeadsTo p l) :
    l = p.names := by
  obtain ⟨q, hq, rfl⟩ := h
  obtain ⟨-, hlocation⟩ := Position.in_of_find? .top ((locate_eq_ok_iff_find? hdirs hp).1 hq)
  rw [hlocation, Position.location_top, List.nil_append]

end Disk

end PortableLayout
