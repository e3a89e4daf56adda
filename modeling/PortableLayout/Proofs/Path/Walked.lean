import Mathlib.Data.List.Nodup
import PortableLayout.Proofs.Path.Normal

/-!
# The prefixes of a walk

`Path.walked` lists the paths that a directory walk visits. Each of them spells one more component of
the path than the one before (`getElem_walked`), so no two are the same byte string
(`nodup_walked`), each is the parent of the next (`isChain_walked`), and the last one is
the path in its normal spelling (`getLast?_walked`). Walks along two paths visit the same prefixes exactly when
the paths have the same components (`walked_eq_walked_iff`).
-/

set_option autoImplicit false

namespace PortableLayout.Path

/-- From a starting path there are as many prefixes as components. -/
theorem length_walkedFrom (p : Path) (cs : List Component) :
    (p.walkedFrom cs).length = cs.length := by
  induction cs generalizing p with
  | nil => rfl
  | cons c cs ih => rw [walkedFrom, List.length_cons, List.length_cons, ih]

/-- A path has as many prefixes as components. -/
@[simp] theorem length_walked (p : Path) : p.walked.length = p.components.length :=
  length_walkedFrom _ _

/-- Behind more components the walk goes on from where they led. -/
theorem walkedFrom_append (p : Path) (cs ds : List Component) :
    p.walkedFrom (cs ++ ds) = p.walkedFrom cs ++ (cs.foldl push p).walkedFrom ds := by
  induction cs generalizing p with
  | nil => rfl
  | cons c cs ih => rw [List.cons_append, walkedFrom, walkedFrom, ih, List.foldl_cons, List.cons_append]

/-- A walk along more components begins with the walk along the first of them. -/
theorem walked_isPrefix {p q : Path} (h : p.components <+: q.components) : p.walked <+: q.walked := by
  obtain ⟨cs, hcs⟩ := h
  rw [walked, walked, ← hcs, walkedFrom_append]
  exact List.prefix_append _ _

/-- The prefixes are the starting path with more and more components. -/
theorem getElem_walkedFrom (cs ds : List Component) (i : Nat)
    (h : i < ((spell cs).walkedFrom ds).length) :
    ((spell cs).walkedFrom ds)[i] = spell (cs ++ ds.take (i + 1)) := by
  induction ds generalizing cs i with
  | nil => simp [walkedFrom] at h
  | cons d ds ih =>
    cases i with
    | zero => simp [walkedFrom, spell_append_singleton]
    | succ i =>
      have hpush : (spell cs).push d = spell (cs ++ [d]) := (spell_append_singleton cs d).symm
      simp only [walkedFrom, List.getElem_cons_succ, hpush] at h ⊢
      rw [ih (cs ++ [d]) i (by simpa using h), List.append_assoc]
      rfl

/-- The prefix after `i + 1` pushes spells the first `i + 1` components. -/
theorem getElem_walked (p : Path) (i : Nat) (h : i < p.walked.length) :
    p.walked[i] = spell (p.components.take (i + 1)) :=
  getElem_walkedFrom [] p.components i h

/-- The components of a prefix are the first components of the path. -/
theorem components_getElem_walked (p : Path) (i : Nat) (h : i < p.walked.length) :
    p.walked[i].components = p.components.take (i + 1) := by
  rw [getElem_walked, components_spell ((listed_components p).take (i + 1))]

/-- No prefix is visited twice. -/
theorem nodup_walked (p : Path) : p.walked.Nodup := by
  refine List.nodup_iff_injective_get.2 fun i j hij => ?_
  have hlen : (p.walked[i].components).length = (p.walked[j].components).length :=
    congrArg (fun q : Path => q.components.length) hij
  rw [Fin.getElem_fin, Fin.getElem_fin, components_getElem_walked, components_getElem_walked,
    List.length_take, List.length_take] at hlen
  have hi : i.val < p.components.length := by simpa using i.isLt
  have hj : j.val < p.components.length := by simpa using j.isLt
  exact Fin.ext (by omega)

/-- Only the empty path has no prefixes. -/
theorem walked_eq_nil_iff {p : Path} : p.walked = [] ↔ p = empty := by
  rw [← List.length_eq_zero_iff, length_walked, List.length_eq_zero_iff, components_eq_nil_iff]

/-- A walk ends at the normal spelling of the path. -/
theorem getLast?_walked {p : Path} (h : p ≠ empty) : p.walked.getLast? = some p.normal := by
  have hne : p.walked ≠ [] := fun e => h (walked_eq_nil_iff.1 e)
  have hlast := List.getLast_eq_getElem hne
  have hpos : 0 < p.walked.length := List.length_pos_of_ne_nil hne
  rw [getElem_walked, Nat.sub_add_cancel hpos, length_walked, List.take_length] at hlast
  rw [List.getLast?_eq_some_getLast hne, hlast, normal]

/-- A walk along the normal spelling of a path is the walk along the path. -/
theorem walked_normal (p : Path) : p.normal.walked = p.walked := by
  rw [walked, walked, components_normal]

/-- The prefixes of a walk tell what the path means. -/
theorem walked_eq_walked_iff {p q : Path} : p.walked = q.walked ↔ p.components = q.components := by
  refine ⟨fun h => ?_, fun h => by rw [walked, walked, h]⟩
  by_cases hp : p = empty
  · have hq : q = empty := by rw [← walked_eq_nil_iff, ← h, walked_eq_nil_iff, hp]
    rw [hp, hq]
  · have hq : q ≠ empty := by rwa [Ne, ← walked_eq_nil_iff, ← h, walked_eq_nil_iff]
    have hlast : some p.normal = some q.normal := by rw [← getLast?_walked hp, ← getLast?_walked hq, h]
    rw [← components_normal p, Option.some.inj hlast, components_normal]

/-- The prefix visited just before another one is its parent. -/
theorem isChain_walked (p : Path) : p.walked.IsChain fun q r => r.parent? = some q := by
  rw [List.isChain_iff_getElem]
  intro i h
  have hi : i + 1 < p.components.length := by simpa using h
  have htake : p.components.take (i + 2) = p.components.take (i + 1) ++ [p.components[i + 1]] :=
    List.take_succ_eq_append_getElem hi
  have hlisted := (listed_components p).take (i + 2)
  have hinner := (listed_components p).isInner_getElem_succ i hi
  have hroot : p.components[i + 1] ≠ .root := by
    intro hroot
    rw [hroot] at hinner
    exact hinner
  rw [htake] at hlisted
  rw [getElem_walked, htake, parent?_spell hlisted hroot, getElem_walked]

/-- The prefix visited just before another one is its parent; the first prefix has the empty parent
or none. -/
theorem parent?_getElem_walked (p : Path) (i : Nat) (h : i < p.walked.length) {d : Path}
    (hd : p.walked[i].parent? = some d) :
    i = 0 ∧ d = empty ∨ ∃ j, ∃ hj : j < p.walked.length, i = j + 1 ∧ d = p.walked[j] := by
  cases i with
  | zero =>
    have hi : 0 < p.components.length := by simpa using h
    have htake : p.components.take 1 = [] ++ [p.components[0]] := List.take_succ_eq_append_getElem hi
    have hlisted := (listed_components p).take 1
    rw [htake] at hlisted
    rw [getElem_walked, htake] at hd
    refine .inl ⟨rfl, ?_⟩
    by_cases hroot : p.components[0] = .root
    · rw [hroot, List.nil_append, parent?_spell_root] at hd
      cases hd
    · rw [parent?_spell hlisted hroot] at hd
      exact (Option.some.inj hd).symm
  | succ j =>
    rw [List.isChain_iff_getElem.1 p.isChain_walked j h] at hd
    exact .inr ⟨j, Nat.lt_of_succ_lt h, rfl, (Option.some.inj hd).symm⟩

/-- Among the prefixes of a path the parent of each stands directly before it, unless it is empty. -/
theorem parent?_of_walked_eq_append {p q d : Path} {before after : List Path}
    (h : p.walked = before ++ q :: after) (hd : q.parent? = some d) :
    d = empty ∨ d ∈ before := by
  have hlen : before.length < p.walked.length := by simp [h]
  have hq : p.walked[before.length] = q := by simp [h]
  obtain ⟨-, rfl⟩ | ⟨j, hj, hsucc, rfl⟩ :=
    parent?_getElem_walked p before.length hlen (by rw [hq]; exact hd)
  · exact .inl rfl
  · refine .inr ?_
    have hjb : j < before.length := by omega
    have : p.walked[j] = before[j] := by simp [h, List.getElem_append_left hjb]
    rw [this]
    exact List.getElem_mem hjb

end PortableLayout.Path
