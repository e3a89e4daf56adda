import Mathlib.Logic.Relation
import PortableLayout.Proofs.Path.Join
import PortableLayout.Proofs.Path.Walked
import PortableLayout.Proofs.Walk.Steps

/-!
# Walks along other spellings

Some bytes of a path say nothing: a separator next to another one or at the end, and a `.` behind a separator.
To leave one of them out changes no component (`ShortensTo.components_eq`), and as long as a spelling is not the
normal one there is one to leave out (`exists_shortensTo`, `normal_eq_self`). Hence two paths have the same
components exactly when they can be respelled into each other (`spelledAlike_iff`). A walk along either makes the
same calls then, and only then.
-/

set_option autoImplicit false

namespace PortableLayout

namespace Path

/-- The second path is the first one with something left out that says nothing. -/
inductive ShortensTo : Path → Path → Prop
  | repeatedSlash (a b : Bytes) : ShortensTo ⟨a ++ slash :: slash :: b⟩ ⟨a ++ slash :: b⟩
  /-- The separator of the root has to stay. -/
  | trailingSlash {a : Bytes} (h : a ≠ []) : ShortensTo ⟨a ++ [slash]⟩ ⟨a⟩
  | innerDot (a b : Bytes) : ShortensTo ⟨a ++ slash :: dot :: slash :: b⟩ ⟨a ++ slash :: b⟩
  | trailingDot (a : Bytes) : ShortensTo ⟨a ++ [slash, dot]⟩ ⟨a ++ [slash]⟩

/-- The paths differ only in repeated and trailing separators and in a `.` behind a separator. -/
def SpelledAlike : Path → Path → Prop :=
  Relation.EqvGen ShortensTo

variable {p q : Path}

/-- Behind a piece that both paths begin with only those pieces matter that are components. -/
theorem components_eq_of_pieces {a : Bytes} {ps qs : List Bytes} (hp : p.bytes ≠ []) (hq : q.bytes ≠ [])
    (hps : pieces p.bytes = pieces a ++ ps) (hqs : pieces q.bytes = pieces a ++ qs)
    (h : ps.filterMap Component.ofPiece? = qs.filterMap Component.ofPiece?) : p.components = q.components := by
  cases ha : pieces a with
  | nil => exact absurd ha (pieces_ne_nil a)
  | cons first rest =>
    rw [ha, List.cons_append] at hps hqs
    rw [components_of_pieces hp hps, components_of_pieces hq hqs, List.filterMap_append, List.filterMap_append, h]

/-- A separator in front has an empty piece before it. -/
theorem pieces_slash_cons (b : Bytes) : pieces (slash :: b) = [] :: pieces b := by
  rw [pieces, if_pos rfl]

/-- A dot and a separator in front are one piece before the others. -/
theorem pieces_dot_slash_cons (b : Bytes) : pieces (dot :: slash :: b) = [dot] :: pieces b :=
  pieces_append_slash [dot] b

/-- What is left out is no component. -/
theorem ShortensTo.components_eq (h : ShortensTo p q) : p.components = q.components := by
  have hempty : Component.ofPiece? [] = none := rfl
  have hdot : Component.ofPiece? [dot] = none := rfl
  have hne {a b : Bytes} : a ++ slash :: b ≠ [] := by simp
  cases h with
  | repeatedSlash a b =>
    have hp : pieces (a ++ slash :: slash :: b) = pieces a ++ [] :: pieces b := by
      rw [pieces_append_slash, pieces_slash_cons]
    refine components_eq_of_pieces hne hne hp (pieces_append_slash a b) ?_
    rw [List.filterMap_cons_none hempty]
  | @trailingSlash a ha =>
    exact components_eq_of_pieces hne ha (pieces_append_slash a []) (List.append_nil _).symm rfl
  | innerDot a b =>
    have hp : pieces (a ++ slash :: dot :: slash :: b) = pieces a ++ [dot] :: pieces b := by
      rw [pieces_append_slash, pieces_dot_slash_cons]
    refine components_eq_of_pieces hne hne hp (pieces_append_slash a b) ?_
    rw [List.filterMap_cons_none hdot]
  | trailingDot a =>
    exact components_eq_of_pieces hne hne (pieces_append_slash a [dot]) (pieces_append_slash a []) rfl

/-- A path gets shorter when something is left out. -/
theorem ShortensTo.length_lt (h : ShortensTo p q) : q.bytes.length < p.bytes.length := by
  cases h <;> simp

/-- A silent piece behind the first one can be left out, but for the piece behind the root. -/
theorem exists_shortensTo {ps qs : List Bytes} {piece : Bytes} (hp : pieces p.bytes = ps ++ piece :: qs)
    (hps : ps ≠ []) (hsilent : isSilent piece = true) (hroot : p.bytes ≠ [slash]) : ∃ q, ShortensTo p q := by
  obtain ⟨bytes⟩ := p
  have hbytes : bytes = glue ps ++ slash :: glue (piece :: qs) := by
    rw [← glue_append hps (List.cons_ne_nil piece qs), ← hp, glue_pieces]
  have hpiece : piece = [] ∨ piece = [dot] := by simpa [isSilent] using hsilent
  subst hbytes
  cases qs with
  | nil =>
    obtain rfl | rfl := hpiece
    · have hne : glue ps ≠ [] := fun e => hroot (by rw [e]; rfl)
      exact ⟨_, .trailingSlash hne⟩
    · exact ⟨_, .trailingDot (glue ps)⟩
  | cons r rs =>
    obtain rfl | rfl := hpiece
    · exact ⟨_, .repeatedSlash (glue ps) (glue (r :: rs))⟩
    · exact ⟨_, .innerDot (glue ps) (glue (r :: rs))⟩

/-- A path shortens step by step to its normal spelling. -/
theorem spelledAlike_normal (p : Path) : p.SpelledAlike p.normal := by
  induction hn : p.bytes.length using Nat.strongRecOn generalizing p with
  | ind n ih =>
    by_cases hdone : p.bytes = [slash] ∨ ∀ piece ∈ (pieces p.bytes).tail, isSilent piece = false
    · rw [normal_eq_self hdone]
      exact .refl p
    · obtain ⟨hroot, hspoken⟩ := not_or.1 hdone
      push Not at hspoken
      obtain ⟨piece, hmem, hsilent⟩ := hspoken
      obtain ⟨before, after, htail⟩ := List.append_of_mem hmem
      have hhead := List.cons_head_tail (pieces_ne_nil p.bytes)
      rw [htail, ← List.cons_append] at hhead
      obtain ⟨q, hq⟩ := exists_shortensTo hhead.symm (by simp) (by simpa using hsilent) hroot
      have hnormal : q.normal = p.normal := by rw [normal, normal, hq.components_eq]
      have hrest : q.SpelledAlike q.normal := ih q.bytes.length (hn ▸ hq.length_lt) q rfl
      rw [hnormal] at hrest
      exact .trans _ _ _ (.rel _ _ hq) hrest

/-- Paths have the same components exactly when they differ only in what says nothing. -/
theorem spelledAlike_iff : p.SpelledAlike q ↔ p.components = q.components := by
  constructor
  · intro h
    induction h with
    | rel p q hshort => exact hshort.components_eq
    | refl p => rfl
    | symm p q _ ih => exact ih.symm
    | trans p q r _ _ ih ih' => exact ih.trans ih'
  · intro h
    have hnormal : p.normal = q.normal := by rw [normal, normal, h]
    have hp := p.spelledAlike_normal
    rw [hnormal] at hp
    exact .trans _ _ _ hp (.symm _ _ q.spelledAlike_normal)

end Path

/-! ## Calls -/

/-- The file system in which everything is there. -/
def everywherePresent : FileSystem Id where
  probe _ := .ok true
  createDir _ := .ok ()

/-- Where all is present, a walk probes each of its prefixes and makes none. -/
theorem record_everywherePresent (n : Nat) (ps : List Path) :
    (ensureFrom n ps).record everywherePresent =
      (⟨.ok n, ps.map fun p => .probed p (.ok true)⟩ : Recorded (Except PathError Nat)) := by
  induction ps with
  | nil => rfl
  | cons p ps ih =>
    have hcons : (ensureFrom n (p :: ps)).record everywherePresent =
        (((ensureFrom n ps).record everywherePresent : Recorded (Except PathError Nat)).after
          [.probed p (.ok true)]) := rfl
    rw [hcons, ih]
    rfl

/-- Spelling does not matter to a walk: two paths have the same components exactly when they differ only in
repeated and trailing separators and in a `.` behind a separator. Then, and only then, walks along them make the
same calls byte for byte, in the same order and with the same result, on every file system. And the last prefix
of a walk, taken for a path of its own, is walked along the same prefixes. -/
theorem walks_agree_iff_spelled_alike (p q : Path) :
    (p.SpelledAlike q ↔ p.components = q.components) ∧
    (p.components = q.components ↔ ∀ (m : Type → Type) [Monad m] (fs : FileSystem m),
      (ensure p).record fs = (ensure q).record fs ∧ (ensure p).run fs = (ensure q).run fs) ∧
    (p = .empty ∨ ∃ last, p.walked.getLast? = some last ∧ last.walked = p.walked) := by
  refine ⟨Path.spelledAlike_iff, ⟨?_, ?_⟩, ?_⟩
  · intro h m _ fs
    have hsame : ensure p = ensure q := congrArg (ensureFrom 0) (Path.walked_eq_walked_iff.2 h)
    rw [hsame]
    exact ⟨rfl, rfl⟩
  · intro h
    obtain ⟨hrecord, -⟩ := h Id everywherePresent
    have hcalls : p.walked.map (Exchange.probed · (.ok true)) = q.walked.map (Exchange.probed · (.ok true)) := by
      rw [ensure, ensure, record_everywherePresent, record_everywherePresent] at hrecord
      exact congrArg Recorded.exchanges hrecord
    have hinjective : Function.Injective (Exchange.probed · (.ok true)) := fun a b hab => by
      cases hab
      rfl
    exact Path.walked_eq_walked_iff.1 (hinjective.list_map hcalls)
  · by_cases hp : p = .empty
    · exact .inl hp
    · exact .inr ⟨p.normal, Path.getLast?_walked hp, p.walked_normal⟩

end PortableLayout
