import PortableLayout.Proofs.Path.Executable
import PortableLayout.Proofs.Path.Pieces
import PortableLayout.Proofs.Walk.Trace

/-!
# The prefixes of a walk are the ancestors of its path

A walk probes its prefixes one after the other, all of them if it does not fail (`probed_walked`). The prefix after so
many pushes spells so many components of the path. It is spelled without anything that could be left out
(`isConcise_spell`), it is never longer than the path (`length_spell_take_le`), and it lies in the prefix before it
(`isChain_parentDir_walked`).
-/

set_option autoImplicit false

namespace PortableLayout

/-! ## What is probed -/

/-- The path that an exchange asks about. -/
def Exchange.probed? : Exchange → Option Path
  | .probed p _ => some p
  | .created _ _ => none

/-- In its turn a prefix is probed once. -/
theorem Turn.filterMap_probed?_exchanges (t : Turn) : t.exchanges.filterMap Exchange.probed? = [t.path] := by
  cases hreply : t.reply? with
  | none =>
    rw [Turn.exchanges_of_none hreply]
    rfl
  | some r =>
    rw [Turn.exchanges_of_some hreply]
    rfl

/-- What is probed in some turns are their prefixes, in their order. -/
theorem filterMap_probed?_flatMap (turns : List Turn) :
    (turns.flatMap Turn.exchanges).filterMap Exchange.probed? = turns.map Turn.path := by
  induction turns with
  | nil => rfl
  | cons t turns ih =>
    rw [List.flatMap_cons, List.filterMap_append, ih, t.filterMap_probed?_exchanges, List.map_cons,
      List.singleton_append]

section

variable {σ : Type} (fs : FileSystem (StateM σ)) (p : Path) (s : σ)

/-- Whatever file system answers, a walk probes the first of its prefixes, in their order, and all of them if it does
not fail. -/
theorem probed_walked :
    let walk := ((ensure p).record fs s).1
    walk.exchanges.filterMap Exchange.probed? <+: p.walked ∧
      ∀ n, walk.result = .ok n → walk.exchanges.filterMap Exchange.probed? = p.walked := by
  intro walk
  obtain ⟨turns, hexchanges, hcourse⟩ := exists_course fs 0 p.walked s
  have hwalk : walk.exchanges.filterMap Exchange.probed? = turns.map Turn.path := by
    rw [← filterMap_probed?_flatMap, ← hexchanges]
    rfl
  rw [hwalk]
  refine ⟨hcourse.lawful.order, ?_⟩
  intro n hok
  obtain ⟨hall, -, -⟩ | ⟨-, -, failure, -, -, -, hfailed⟩ := hcourse.lawful.ending
  · exact hall
  · have hwrong : walk.result = .error failure := hfailed
    rw [hok] at hwrong
    cases hwrong

end

/-! ## How the prefixes are spelled -/

namespace Path

/-- A path with no separator too many, and with no `.` but a leading one. -/
structure IsConcise (p : Path) : Prop where
  not_repeated : ¬ [slash, slash] <:+: p.bytes
  not_trailing : [slash] <:+ p.bytes → p.bytes = [slash]
  no_inner_dot : ¬ [slash, dot, slash] <:+: p.bytes
  no_last_dot : ¬ [slash, dot] <:+ p.bytes

/-- A piece behind a separator is among the later pieces of the whole. -/
theorem mem_tail_pieces_append_slash (a : Bytes) {b piece : Bytes} (h : piece ∈ pieces b) :
    piece ∈ (pieces (a ++ slash :: b)).tail := by
  rw [pieces_append_slash]
  cases ha : pieces a with
  | nil => exact absurd ha (pieces_ne_nil a)
  | cons first rest => exact List.mem_append_right rest h

/-- The root is concise. -/
theorem isConcise_root : IsConcise ⟨[slash]⟩ where
  not_repeated h := absurd h.length_le (by decide)
  not_trailing _ := rfl
  no_inner_dot h := absurd h.length_le (by decide)
  no_last_dot h := absurd h.length_le (by decide)

/-- Where nothing but components stand behind the first piece, there is nothing to leave out. -/
theorem isConcise_of_spoken {p : Path} (h : ∀ piece ∈ (pieces p.bytes).tail, isSilent piece = false) :
    p.IsConcise := by
  have hloud {a b piece : Bytes} (hbytes : a ++ slash :: b = p.bytes) (hpiece : piece ∈ pieces b) :
      isSilent piece ≠ true := by
    rw [← hbytes] at h
    simp [h piece (mem_tail_pieces_append_slash a hpiece)]
  refine ⟨?_, ?_, ?_, ?_⟩
  · rintro ⟨a, b, hbytes⟩
    rw [List.append_assoc] at hbytes
    have hnil : [] ∈ pieces (slash :: b) := by
      rw [pieces, if_pos rfl]
      exact List.mem_cons_self
    exact hloud hbytes hnil rfl
  · rintro ⟨a, hbytes⟩
    exact absurd rfl (hloud hbytes (List.mem_singleton_self []))
  · rintro ⟨a, b, hbytes⟩
    rw [List.append_assoc] at hbytes
    have hdot : [dot] ∈ pieces (dot :: slash :: b) := by
      rw [← List.singleton_append, pieces_append_slash [dot]]
      exact List.mem_append_left _ (List.mem_singleton_self [dot])
    exact hloud hbytes hdot rfl
  · rintro ⟨a, hbytes⟩
    exact hloud hbytes (List.mem_singleton_self [dot]) rfl

/-- Every path is concise in its normal spelling. -/
theorem isConcise_normal (p : Path) : p.normal.IsConcise := by
  obtain hroot | hspoken := spoken_normal p
  · rw [show p.normal = ⟨[slash]⟩ from congrArg Path.mk hroot]
    exact isConcise_root
  · exact isConcise_of_spoken hspoken

/-- A path that is spelled from its components is concise. -/
theorem isConcise_spell {cs : List Component} (h : Listed cs) : (spell cs).IsConcise := by
  rw [← normal_spell h]
  exact isConcise_normal (spell cs)

/-- No prefix has more bytes than the path. -/
theorem length_spell_take_le (p : Path) (i : Nat) : (spell (p.components.take i)).bytes.length ≤ p.bytes.length := by
  have hlisted : Listed (p.components.take i ++ p.components.drop i) := by
    rw [List.take_append_drop]
    exact listed_components p
  have hprefix := bytes_spell_isPrefix hlisted
  rw [List.take_append_drop] at hprefix
  exact hprefix.length_le.trans (length_normal_le p)

/-- No prefix is empty. -/
theorem bytes_getElem_walked_ne_nil (p : Path) (i : Nat) (h : i < p.walked.length) : p.walked[i].bytes ≠ [] := by
  intro hnil
  have hlength : p.walked[i].components.length = i + 1 := by
    rw [p.components_getElem_walked i h, List.length_take, ← p.length_walked]
    omega
  -- The empty path has no component, but a prefix has one at least.
  rw [show p.walked[i] = .empty from congrArg Path.mk hnil] at hlength
  cases hlength

/-- Each prefix but the first lies in the one before it. -/
theorem isChain_parentDir_walked (p : Path) : p.walked.IsChain fun q r => parentDir r = some q := by
  refine List.isChain_iff_getElem.2 fun i h => parentDir_eq_some_iff.2 ⟨?_, ?_⟩
  · exact List.isChain_iff_getElem.1 p.isChain_walked i h
  · exact p.bytes_getElem_walked_ne_nil i (Nat.lt_of_succ_lt h)

end Path

/-- **The prefixes of a walk are the ancestors of its path.** Whatever file system answers, a walk probes them in their
order, all of them if it does not fail. There are as many as the path has components. The prefix after so many pushes
has so many components of the path and nothing that could be left out, and it has no more bytes than the path. No two
are the same byte string, and the directory that a prefix lies in is, byte for byte, the prefix before it. -/
theorem walked_prefixes_are_ancestors (p : Path) :
    (∀ {σ : Type} (fs : FileSystem (StateM σ)) (s : σ),
      let walk := ((ensure p).record fs s).1
      walk.exchanges.filterMap Exchange.probed? <+: p.walked ∧
        ∀ n, walk.result = .ok n → walk.exchanges.filterMap Exchange.probed? = p.walked) ∧
    p.walked.length = p.components.length ∧
    (∀ i (h : i < p.walked.length),
      p.walked[i] = (p.components.take (i + 1)).foldl Path.push Path.empty ∧
      p.walked[i].components = p.components.take (i + 1) ∧
      p.walked[i].IsConcise ∧
      p.walked[i].bytes.length ≤ p.bytes.length) ∧
    (p.walked.map Path.bytes).Nodup ∧
    p.walked.IsChain fun q r => parentDir r = some q := by
  refine ⟨fun fs s => probed_walked fs p s, p.length_walked, ?_, ?_, p.isChain_parentDir_walked⟩
  · intro i h
    have hlisted : Listed (p.components.take (i + 1)) := (Path.listed_components p).take (i + 1)
    refine ⟨p.getElem_walked i h, p.components_getElem_walked i h, ?_, ?_⟩
    · rw [p.getElem_walked i h]
      exact Path.isConcise_spell hlisted
    · rw [p.getElem_walked i h]
      exact Path.length_spell_take_le p (i + 1)
  · exact p.nodup_walked.map fun q r hqr => congrArg Path.mk hqr

/-- The ancestors of a path with much in it that says nothing, and with a name that is left again. -/
theorem ancestors_of_verbose_path :
    let p := Path.ofString "./srv//./data/../"
    p.walked.length = 4 ∧
      p.walked[1]? = some (.ofString "./srv") ∧ p.walked[2]? = some (.ofString "./srv/data") ∧
      p.walked[3]? = some (.ofString "./srv/data/..") ∧
      (Path.ofString "./srv/data/..").IsConcise ∧
      parentDir (.ofString "./srv/data/..") = some (.ofString "./srv/data") := by
  intro p
  have hlength : p.walked.length = 4 := by decide
  have hthird : p.walked[2]? = some (.ofString "./srv/data") := by decide
  have hfourth : p.walked[3]? = some (.ofString "./srv/data/..") := by decide
  obtain ⟨_, hthird'⟩ := List.getElem?_eq_some_iff.1 hthird
  obtain ⟨hbound, hfourth'⟩ := List.getElem?_eq_some_iff.1 hfourth
  obtain ⟨-, -, hspelled, -, hparent⟩ := walked_prefixes_are_ancestors p
  obtain ⟨-, -, hconcise, -⟩ := hspelled 3 hbound
  have hbefore := List.isChain_iff_getElem.1 hparent 2 hbound
  rw [hfourth'] at hconcise
  rw [hfourth', hthird'] at hbefore
  exact ⟨hlength, by decide, hthird, hfourth, hconcise, hbefore⟩

end PortableLayout
