import Mathlib.Data.List.TakeWhile
import PortableLayout.Proofs.Path.Join
import PortableLayout.Proofs.Path.Spelling

/-!
# Parents and names of paths in any spelling

The parent of a path is cut out of its bytes: the last component goes, and with it whatever silent pieces stand
around it. Cutting pieces off the end in this way takes one component off (`cutLast_of_filterMap`), so that the
parent has the components of the path without the last one, however the path is spelled (`exists_parent?`). Its bytes
are the first bytes of the path (`parent?_isPrefix`). The name of a path is its last component, if that is a name
(`fileName?_eq_some_iff`), and its extension is what follows the last dot of that name (`extension?_eq_some_iff`).
-/

set_option autoImplicit false

namespace PortableLayout.Path

/-! ## Cutting -/

section

variable {ps : List Bytes} {cs : List Component} {c : Component}

/-- What is trimmed off is silent. -/
theorem exists_trimBack_append (ps : List Bytes) :
    ∃ silent, ps = trimBack ps ++ silent ∧ ∀ piece ∈ silent, isSilent piece = true := by
  refine ⟨(ps.reverse.takeWhile isSilent).reverse, ?_, ?_⟩
  · rw [trimBack, ← List.reverse_append, List.takeWhile_append_dropWhile, List.reverse_reverse]
  · intro piece hpiece
    exact List.mem_takeWhile_imp (List.mem_reverse.1 hpiece)

/-- Trimming takes no component away. -/
theorem filterMap_trimBack (ps : List Bytes) :
    (trimBack ps).filterMap Component.ofPiece? = ps.filterMap Component.ofPiece? := by
  obtain ⟨silent, hps, hsilent⟩ := exists_trimBack_append ps
  have hnone : silent.filterMap Component.ofPiece? = [] := by
    rw [List.filterMap_eq_nil_iff]
    intro piece hpiece
    simp [Component.ofPiece?, hsilent piece hpiece]
  conv_rhs => rw [hps, List.filterMap_append, hnone, List.append_nil]

/-- All is trimmed away exactly if no piece stands for a component. -/
theorem trimBack_eq_nil_iff : trimBack ps = [] ↔ ps.filterMap Component.ofPiece? = [] := by
  rw [← filterMap_trimBack]
  constructor
  · intro h
    rw [h]
    rfl
  · intro h
    by_contra hne
    obtain ⟨front, last, htrim, hlast⟩ := trimBack_eq_append ps hne
    have hbytes := map_bytes_filterMap_ofPiece? (trimBack ps)
    rw [h, htrim, List.filter_append, List.filter_cons_of_pos (by simp [hlast])] at hbytes
    simp at hbytes

/-- Where no piece stands for a component there is none to cut off. -/
theorem cutLast_of_no_component (before : List Bytes) (h : ps.filterMap Component.ofPiece? = []) :
    cutLast before ps = none := by
  rw [cutLast, trimBack_eq_nil_iff.2 h]

/-- Where something is left after trimming, its last piece is cut off and the rest trimmed again. -/
theorem cutLast_of_trimBack_ne_nil (before : List Bytes) (h : trimBack ps ≠ []) :
    cutLast before ps = some (before ++ trimBack (trimBack ps).dropLast) := by
  unfold cutLast
  cases htrim : trimBack ps with
  | nil => exact absurd htrim h
  | cons p qs => rfl

/-- What is left after a cut is the beginning of what there was. -/
theorem cutLast_isPrefix {before ps qs : List Bytes} (h : cutLast before ps = some qs) : qs <+: before ++ ps := by
  by_cases hne : trimBack ps = []
  · rw [cutLast, hne] at h
    cases h
  · rw [cutLast_of_trimBack_ne_nil before hne] at h
    cases h
    have hfront : trimBack (trimBack ps).dropLast <+: ps :=
      (trimBack_isPrefix _).trans ((List.dropLast_prefix _).trans (trimBack_isPrefix ps))
    exact (List.prefix_append_right_inj before).2 hfront

/-- Of pieces with components those up to the last but one are left. -/
theorem cutLast_of_filterMap (before : List Bytes) (h : ps.filterMap Component.ofPiece? = cs ++ [c]) :
    ∃ front, cutLast before ps = some (before ++ front) ∧ front <+: ps ∧
      front.filterMap Component.ofPiece? = cs := by
  have hne : trimBack ps ≠ [] := by
    intro hnil
    rw [trimBack_eq_nil_iff.1 hnil] at h
    simp at h
  obtain ⟨front, last, htrim, hlast⟩ := trimBack_eq_append ps hne
  have hcut := cutLast_of_trimBack_ne_nil before hne
  have hbegins := trimBack_isPrefix ps
  have hcomponents := filterMap_trimBack ps
  rw [htrim, List.dropLast_concat] at hcut
  rw [htrim] at hbegins
  rw [htrim, h, List.filterMap_append] at hcomponents
  refine ⟨trimBack front, hcut, ?_, ?_⟩
  · exact (trimBack_isPrefix front).trans ((List.prefix_append front [last]).trans hbegins)
  · obtain ⟨d, hd⟩ := exists_ofPiece? hlast
    rw [List.filterMap_cons_some hd] at hcomponents
    rw [filterMap_trimBack]
    exact (List.append_inj' hcomponents rfl).1

end

/-! ## Parents -/

variable {p : Path} {cs : List Component} {c : Component}

/-- A byte string whose first piece has bytes has bytes itself. -/
theorem ne_nil_of_pieces {bs first : Bytes} {rest : List Bytes} (hp : pieces bs = first :: rest) (hfirst : first ≠ []) :
    bs ≠ [] := by
  intro hnil
  rw [hnil, pieces] at hp
  exact hfirst (List.cons.inj hp).1.symm

/-- Glued pieces that begin like those of a relative path have the components that the pieces stand for. -/
theorem components_glue_cons {first : Bytes} {rest : List Bytes} (hfirst : first ≠ [])
    (hslash : ∀ piece ∈ first :: rest, slash ∉ piece) :
    (Path.mk (glue (first :: rest))).components =
      (Component.opening? first).toList ++ rest.filterMap Component.ofPiece? := by
  have hpieces : pieces (glue (first :: rest)) = first :: rest := pieces_glue (List.cons_ne_nil first rest) hslash
  exact components_of_pieces (ne_nil_of_pieces hpieces hfirst) hpieces

/-- A first piece that is neither empty nor a dot stands for the same in front as behind. -/
theorem opening?_of_spoken {first : Bytes} (hfirst : first ≠ []) (hdot : first ≠ [dot]) :
    Component.opening? first = Component.ofPiece? first := by
  rw [Component.opening?, if_neg hfirst, if_neg hdot]

section

variable {bs first : Bytes} {rest : List Bytes}

/-- The parent of an absolute path has the components of the path but the last. -/
theorem exists_parent?_of_absolute (h : (pieces bs).filterMap Component.ofPiece? = cs ++ [c]) :
    ∃ q, (Path.mk (slash :: bs)).parent? = some q ∧ q.components = .root :: cs := by
  obtain ⟨front, hcut, hbegins, hfront⟩ := cutLast_of_filterMap [] h
  have hslash : ∀ piece ∈ front, slash ∉ piece := fun piece hpiece =>
    slash_notMem_of_mem_pieces (hbegins.subset hpiece)
  refine ⟨⟨slash :: glue front⟩, ?_, ?_⟩
  · rw [parent?_of_absolute, hcut]
    rfl
  · rw [components_of_absolute, filterMap_pieces_glue hslash, hfront]

/-- When nothing but a leading `.` is left, that is cut off too. -/
theorem exists_parent?_of_here (hne : bs ≠ []) (habs : bs.head? ≠ some slash) (hp : pieces bs = [dot] :: rest)
    (h : .here :: rest.filterMap Component.ofPiece? = cs ++ [c]) :
    ∃ q, (Path.mk bs).parent? = some q ∧ q.components = cs := by
  have hparent := parent?_of_relative hne habs hp
  rw [if_pos rfl] at hparent
  cases cs with
  | nil =>
    have hnone : rest.filterMap Component.ofPiece? = [] := (List.cons.inj h).2
    rw [cutLast_of_no_component [[dot]] hnone] at hparent
    exact ⟨empty, hparent, rfl⟩
  | cons d ds =>
    obtain ⟨rfl, hds⟩ := List.cons.inj h
    obtain ⟨front, hcut, hbegins, hfront⟩ := cutLast_of_filterMap [[dot]] hds
    rw [hcut] at hparent
    refine ⟨_, hparent, ?_⟩
    have hslash : ∀ piece ∈ [dot] :: front, slash ∉ piece := fun piece hpiece =>
      slash_notMem_of_pieces_eq hp piece (((List.prefix_cons_inj [dot]).2 hbegins).subset hpiece)
    show (Path.mk (glue ([dot] :: front))).components = _
    rw [components_glue_cons (List.cons_ne_nil dot []) hslash, hfront]
    rfl

/-- The parent of a path that begins with a name or with `..` has the components of the path but the last. -/
theorem exists_parent?_of_spoken (hne : bs ≠ []) (habs : bs.head? ≠ some slash) (hp : pieces bs = first :: rest)
    (hfirst : first ≠ []) (hdot : first ≠ [dot])
    (h : (first :: rest).filterMap Component.ofPiece? = cs ++ [c]) :
    ∃ q, (Path.mk bs).parent? = some q ∧ q.components = cs := by
  obtain ⟨front, hcut, hbegins, hfront⟩ := cutLast_of_filterMap [] h
  have hparent := parent?_of_relative hne habs hp
  rw [if_neg hdot, hcut] at hparent
  refine ⟨_, hparent, ?_⟩
  show (Path.mk (glue front)).components = cs
  cases front with
  | nil => exact hfront
  | cons g front =>
    have hslash : ∀ piece ∈ g :: front, slash ∉ piece := fun piece hpiece =>
      slash_notMem_of_pieces_eq hp piece (hbegins.subset hpiece)
    obtain ⟨rfl, -⟩ := List.cons_prefix_cons.1 hbegins
    rw [components_glue_cons hfirst hslash, opening?_of_spoken hfirst hdot, ← hfront, List.filterMap_cons]
    cases Component.ofPiece? g <;> rfl

end

/-- However a path is spelled, its parent has its components but for the last one; only the root and the empty
path have none. -/
theorem exists_parent? (h : p.components = cs ++ [c]) (hroot : c ≠ .root) :
    ∃ q, p.parent? = some q ∧ q.components = cs := by
  obtain rfl | ⟨r, hr, hc⟩ | ⟨first, rest, hfirst, habs, hp, hc⟩ := components_cases p
  · cases cs <;> cases h
  · rw [hc] at h
    cases cs with
    | nil => exact absurd (List.cons.inj h).1.symm hroot
    | cons d ds =>
      obtain ⟨rfl, hds⟩ := List.cons.inj h
      rw [show p = ⟨slash :: r⟩ from congrArg Path.mk hr]
      exact exists_parent?_of_absolute hds
  · have hne : p.bytes ≠ [] := ne_nil_of_pieces hp hfirst
    rw [hc] at h
    by_cases hdot : first = [dot]
    · subst hdot
      rw [if_pos rfl] at h
      exact exists_parent?_of_here hne habs hp h
    · rw [if_neg hdot] at h
      exact exists_parent?_of_spoken hne habs hp hfirst hdot h

/-- A parent has the components of its path but the last. -/
theorem components_of_parent? {q : Path} (hq : p.parent? = some q) (h : p.components = cs ++ [c]) (hroot : c ≠ .root) :
    q.components = cs := by
  obtain ⟨q', hq', hcs⟩ := exists_parent? h hroot
  rw [Option.some.inj (hq.symm.trans hq'), hcs]

/-- The root has no parent. -/
theorem parent?_of_root (h : p.components = [.root]) : p.parent? = none := by
  obtain rfl | ⟨r, hr, hc⟩ | ⟨first, rest, -, -, hp, hc⟩ := components_cases p
  · rfl
  · rw [hc] at h
    have hnone : (pieces r).filterMap Component.ofPiece? = [] := (List.cons.inj h).2
    rw [show p = ⟨slash :: r⟩ from congrArg Path.mk hr, parent?_of_absolute, cutLast_of_no_component [] hnone]
    rfl
  · rw [hc] at h
    split at h
    · cases h
    · have hroot : Component.root ∈ (first :: rest).filterMap Component.ofPiece? := by simp [h]
      exact absurd (isInner_of_mem_filterMap (slash_notMem_of_pieces_eq hp) hroot) id

/-- A path that has a parent has one component more. -/
theorem exists_components_of_parent? {q : Path} (hq : p.parent? = some q) :
    ∃ c, p.components = q.components ++ [c] := by
  obtain hnil | ⟨cs, c, hcs⟩ := List.eq_nil_or_concat p.components
  · rw [components_eq_nil_iff.1 hnil] at hq
    cases hq
  · rw [List.concat_eq_append] at hcs
    have hroot : c ≠ .root := by
      -- The root stands first or nowhere, and alone it has no parent.
      rintro rfl
      by_cases hnil : cs = []
      · rw [hnil] at hcs
        rw [parent?_of_root hcs] at hq
        cases hq
      · exact (hcs ▸ listed_components p).isInner_last hnil
    exact ⟨c, by rw [components_of_parent? hq hcs hroot, hcs]⟩

/-- The bytes of the first pieces are the beginning of the bytes of all. -/
theorem glue_isPrefix {ps qs : List Bytes} (h : ps <+: qs) : glue ps <+: glue qs := by
  obtain ⟨rs, rfl⟩ := h
  by_cases hps : ps = []
  · subst hps
    exact List.nil_prefix
  · by_cases hrs : rs = []
    · simp [hrs]
    · rw [glue_append hps hrs]
      exact List.prefix_append _ _

/-- The bytes of a parent are the first bytes of the path. -/
theorem parent?_isPrefix {q : Path} (hq : p.parent? = some q) : q.bytes <+: p.bytes := by
  obtain rfl | ⟨r, hr, -⟩ | ⟨first, rest, hfirst, habs, hp, -⟩ := components_cases p
  · cases hq
  · rw [show p = ⟨slash :: r⟩ from congrArg Path.mk hr, parent?_of_absolute] at hq
    obtain ⟨ps, hps, rfl⟩ := Option.map_eq_some_iff.1 hq
    have hfront : glue ps <+: r := by
      rw [← glue_pieces r]
      exact glue_isPrefix (cutLast_isPrefix hps)
    rw [hr]
    exact (List.prefix_cons_inj slash).2 hfront
  · have hne : p.bytes ≠ [] := ne_nil_of_pieces hp hfirst
    rw [show p = ⟨p.bytes⟩ from rfl, parent?_of_relative hne habs hp] at hq
    rw [← glue_pieces p.bytes, hp]
    split at hq
    · next hdot =>
      cases hcut : cutLast [first] rest with
      | none =>
        rw [hcut] at hq
        cases hq
        exact List.nil_prefix
      | some ps =>
        rw [hcut] at hq
        cases hq
        exact glue_isPrefix (cutLast_isPrefix hcut)
    · obtain ⟨ps, hps, rfl⟩ := Option.map_eq_some_iff.1 hq
      exact glue_isPrefix (cutLast_isPrefix hps)

/-! ## Names and extensions -/

/-- A path has a file name exactly if its last component is a name, which it is then. -/
theorem fileName?_eq_some_iff {n : Bytes} : p.fileName? = some n ↔ ∃ cs, p.components = cs ++ [.name n] := by
  rw [← List.getLast?_eq_some_iff]
  unfold fileName?
  cases p.components.getLast? with
  | none => simp
  | some c => cases c <;> simp

/-- The extension is what stands behind the last dot, if there is something before that dot. -/
theorem extensionOf?_append (stem : Bytes) {ext : Bytes} (hext : dot ∉ ext) :
    extensionOf? (stem ++ dot :: ext) = if stem = [] then none else some ext := by
  have hplain : ∀ b ∈ ext.reverse, decide (b ≠ dot) = true := by
    intro b hb
    have hne : b ≠ dot := fun e => hext (e ▸ List.mem_reverse.1 hb)
    simpa using hne
  have hafter : (stem ++ dot :: ext).reverse.takeWhile (· ≠ dot) = ext.reverse := by
    rw [List.reverse_append, List.reverse_cons, List.append_assoc, List.takeWhile_append_of_pos hplain,
      List.singleton_append, List.takeWhile_cons_of_neg (by simp), List.append_nil]
  have hlength : stem.length = (stem ++ dot :: ext).length - ext.length - 1 := by
    rw [List.length_append, List.length_cons]
    omega
  have hstem : (stem ++ dot :: ext).take ((stem ++ dot :: ext).length - ext.length - 1) = stem :=
    List.take_left' hlength
  have hdot : dot ∈ stem ++ dot :: ext := by simp
  simp only [extensionOf?, hafter, List.reverse_reverse, hstem, hdot, true_and, ne_eq, ite_not]

/-- The extension of a name is what follows its last dot, if anything stands before that. -/
theorem extensionOf?_eq_some_iff {n ext : Bytes} :
    extensionOf? n = some ext ↔ dot ∉ ext ∧ ∃ stem, stem ≠ [] ∧ n = stem ++ dot :: ext := by
  constructor
  · intro h
    by_cases hdot : dot ∈ n
    · obtain ⟨after, before, hsplit, hafter⟩ := List.eq_append_cons_of_mem (List.mem_reverse.2 hdot)
      have hn : n = before.reverse ++ dot :: after.reverse := by
        rw [← List.reverse_reverse n, hsplit, List.reverse_append, List.reverse_cons, List.append_assoc,
          List.singleton_append]
      have hext : dot ∉ after.reverse := by rwa [List.mem_reverse]
      rw [hn, extensionOf?_append _ hext] at h
      split at h
      · cases h
      · next hstem =>
        cases h
        exact ⟨hext, before.reverse, hstem, hn⟩
    · simp [extensionOf?, hdot] at h
  · rintro ⟨hext, stem, hstem, rfl⟩
    rw [extensionOf?_append stem hext, if_neg hstem]

/-- A path has an extension exactly if its last component is a name with something before its last dot. -/
theorem extension?_eq_some_iff {ext : Bytes} :
    p.extension? = some ext ↔
      dot ∉ ext ∧ ∃ cs stem, stem ≠ [] ∧ p.components = cs ++ [.name (stem ++ dot :: ext)] := by
  rw [extension?, Option.bind_eq_some_iff]
  constructor
  · rintro ⟨n, hname, hext⟩
    obtain ⟨hplain, stem, hstem, rfl⟩ := extensionOf?_eq_some_iff.1 hext
    obtain ⟨cs, hcs⟩ := fileName?_eq_some_iff.1 hname
    exact ⟨hplain, cs, stem, hstem, hcs⟩
  · rintro ⟨hplain, cs, stem, hstem, hcs⟩
    exact ⟨_, fileName?_eq_some_iff.2 ⟨cs, hcs⟩, extensionOf?_eq_some_iff.2 ⟨hplain, stem, hstem, rfl⟩⟩

end PortableLayout.Path
