import PortableLayout.Text.Utf8

/-!
# Paths

A path is the byte string that the system is given; nothing is normalised in it. Its *pieces* are
the byte runs between separators, and its *components* are what the pieces mean: repeated and
trailing separators say nothing, nor does a `.` that does not stand first in a relative path, while
the root, a leading `.` and every `..` are components of their own. `..` is never resolved here.

`join` puts a path below another, `parent?` cuts the last component off and keeps the bytes before
it, and `walked` lists the paths that are met when the components are pushed one by one: the
ancestors that a directory walk visits, shallowest first.
-/

set_option autoImplicit false

namespace PortableLayout

/-- A byte string, as found between separators or as a whole path. -/
abbrev Bytes := List UInt8

/-- The separator `/`. -/
def slash : UInt8 := 0x2F

/-- The byte `.`. -/
def dot : UInt8 := 0x2E

/-- A path: its bytes, exactly as given. -/
structure Path where
  bytes : Bytes
  deriving DecidableEq, Repr, Inhabited

/-- What one piece of a path means. -/
inductive Component where
  /-- The leading separator of an absolute path. -/
  | root
  /-- A leading `.` of a relative path. -/
  | here
  /-- The piece `..`. -/
  | up
  /-- Any other piece. -/
  | name (n : Bytes)
  deriving DecidableEq, Repr

/-- The spelling of a component. -/
def Component.bytes : Component → Bytes
  | .root => [slash]
  | .here => [dot]
  | .up => [dot, dot]
  | .name n => n

/-- The runs of bytes between separators; there is one more of them than separators. -/
def pieces : Bytes → List Bytes
  | [] => [[]]
  | b :: r =>
    if b = slash then [] :: pieces r
    else
      match pieces r with
      | [] => [[b]]
      | p :: ps => (b :: p) :: ps

/-- The byte string with these pieces. -/
def glue : List Bytes → Bytes
  | [] => []
  | [p] => p
  | p :: q :: ps => p ++ slash :: glue (q :: ps)

/-- A piece that is no component: nothing between two separators, or an inner `.`. -/
def isSilent (piece : Bytes) : Bool :=
  piece == [] || piece == [dot]

/-- The component that a piece stands for, if it is none of the silent ones. -/
def Component.ofPiece? (piece : Bytes) : Option Component :=
  if isSilent piece then none
  else if piece = [dot, dot] then some .up
  else some (.name piece)

/-- The pieces up to the last one that is a component. -/
def trimBack (ps : List Bytes) : List Bytes :=
  (ps.reverse.dropWhile isSilent).reverse

namespace Path

/-- The path that a text spells. -/
def ofString (s : String) : Path :=
  ⟨Text.Utf8.encode s⟩

/-- A path as shown in messages: ill-formed parts become replacement characters. -/
def display (p : Path) : String :=
  Text.Utf8.decodeLossy p.bytes

/-- The path of no bytes. -/
def empty : Path := ⟨[]⟩

/-- A path that begins at the root. -/
def isAbsolute (p : Path) : Bool :=
  p.bytes.head? == some slash

/-- What a path means, piece by piece. -/
def components (p : Path) : List Component :=
  match p.bytes with
  | [] => []
  | b :: r =>
    if b = slash then .root :: (pieces r).filterMap Component.ofPiece?
    else
      match pieces (b :: r) with
      | [] => []
      | first :: rest =>
        if first = [dot] then .here :: rest.filterMap Component.ofPiece?
        else (first :: rest).filterMap Component.ofPiece?

/--
The path `p` with `q` below it. An absolute `q` replaces `p`; otherwise one separator goes between
them unless `p` is empty or ends in one.
-/
def join (p q : Path) : Path :=
  if q.isAbsolute then q
  else if p.bytes = [] ∨ p.bytes.getLast? = some slash then ⟨p.bytes ++ q.bytes⟩
  else ⟨p.bytes ++ slash :: q.bytes⟩

/-- The path `p` with one more component. -/
def push (p : Path) (c : Component) : Path :=
  p.join ⟨c.bytes⟩

/-- The paths met when the components `cs` are pushed onto `p` one by one. -/
def walkedFrom (p : Path) : List Component → List Path
  | [] => []
  | c :: cs => p.push c :: walkedFrom (p.push c) cs

/-- The paths that a directory walk to `p` visits, shallowest first. -/
def walked (p : Path) : List Path :=
  empty.walkedFrom p.components

/-- All but the last component of pieces that follow `before`, which stays; none without one. -/
def cutLast (before : List Bytes) (ps : List Bytes) : Option (List Bytes) :=
  match trimBack ps with
  | [] => none
  | q :: qs => some (before ++ trimBack (q :: qs).dropLast)

/--
The bytes before the last component, without the separators and silent pieces at their end. The root
and the empty path have no parent; the parent of a path of one component is empty.
-/
def parent? (p : Path) : Option Path :=
  match p.bytes with
  | [] => none
  | b :: r =>
    if b = slash then (cutLast [] (pieces r)).map fun ps => ⟨slash :: glue ps⟩
    else
      match pieces (b :: r) with
      | [] => none
      | first :: rest =>
        if first = [dot] then
          match cutLast [first] rest with
          | some ps => some ⟨glue ps⟩
          | none => some empty
        else (cutLast [] (first :: rest)).map fun ps => ⟨glue ps⟩

/-- The name that a path ends in, if its last component is a name. -/
def fileName? (p : Path) : Option Bytes :=
  match p.components.getLast? with
  | some (.name n) => some n
  | _ => none

/-- What follows the last dot of a name that has something before that dot. -/
def extensionOf? (name : Bytes) : Option Bytes :=
  let after := (name.reverse.takeWhile (· ≠ dot)).reverse
  let stem := name.take (name.length - after.length - 1)
  if dot ∈ name ∧ stem ≠ [] then some after else none

/-- The extension of the name that a path ends in. -/
def extension? (p : Path) : Option Bytes :=
  p.fileName?.bind extensionOf?

end Path

/-! ## Pieces and their bytes -/

/-- Every byte string has at least one piece. -/
theorem pieces_ne_nil (bs : Bytes) : pieces bs ≠ [] := by
  cases bs with
  | nil => simp [pieces]
  | cons b r =>
    unfold pieces
    split
    · simp
    · split <;> simp

/-- Gluing the pieces of a byte string gives it back. -/
theorem glue_pieces (bs : Bytes) : glue (pieces bs) = bs := by
  induction bs with
  | nil => rfl
  | cons b r ih =>
    unfold pieces
    cases hr : pieces r with
    | nil => exact absurd hr (pieces_ne_nil r)
    | cons q qs =>
      rw [hr] at ih
      split
      · next h => simp only [glue, List.nil_append, ih, h]
      · cases qs with
        | nil => simp only [glue] at ih ⊢; rw [ih]
        | cons s ss => simp only [glue, List.cons_append] at ih ⊢; rw [ih]

/-- A piece holds no separator. -/
theorem slash_notMem_of_mem_pieces {bs p : Bytes} (h : p ∈ pieces bs) : slash ∉ p := by
  induction bs generalizing p with
  | nil => simp_all [pieces]
  | cons b r ih =>
    unfold pieces at h
    split at h
    · rcases List.mem_cons.1 h with rfl | h
      · simp
      · exact ih h
    · next hb =>
      cases hr : pieces r with
      | nil => exact absurd hr (pieces_ne_nil r)
      | cons q qs =>
        rw [hr] at h ih
        rcases List.mem_cons.1 h with rfl | h
        · simp only [List.mem_cons, not_or]
          exact ⟨fun e => hb e.symm, ih (by simp)⟩
        · exact ih (by simp [h])

/-- One more piece makes a byte string longer by its own length at least. -/
theorem glue_append_singleton_length (ps : List Bytes) (p : Bytes) :
    (glue ps).length + p.length ≤ (glue (ps ++ [p])).length := by
  induction ps with
  | nil => simp [glue]
  | cons q qs ih =>
    cases qs with
    | nil => simp [glue]
    | cons s ss =>
      simp only [List.cons_append, glue, List.length_append, List.length_cons] at ih ⊢
      omega

/-- More pieces at the end never make a byte string shorter. -/
theorem glue_length_le_append (ps rs : List Bytes) :
    (glue ps).length ≤ (glue (ps ++ rs)).length := by
  induction rs generalizing ps with
  | nil => simp
  | cons r rs ih =>
    have h₁ := glue_append_singleton_length ps r
    have h₂ := ih (ps ++ [r])
    simp only [List.append_assoc, List.cons_append, List.nil_append] at h₂
    omega

/-- Leaving pieces off the end never makes a byte string longer. -/
theorem glue_length_le_of_isPrefix {ps qs : List Bytes} (h : ps <+: qs) :
    (glue ps).length ≤ (glue qs).length := by
  obtain ⟨rs, rfl⟩ := h
  exact glue_length_le_append ps rs

/-- Trimming only leaves pieces off the end. -/
theorem trimBack_isPrefix (ps : List Bytes) : trimBack ps <+: ps := by
  rw [← List.reverse_suffix, trimBack, List.reverse_reverse]
  exact List.dropWhile_suffix _

/-- What is left after trimming ends in a component. -/
theorem trimBack_eq_append (ps : List Bytes) (h : trimBack ps ≠ []) :
    ∃ qs q, trimBack ps = qs ++ [q] ∧ isSilent q = false := by
  unfold trimBack at h ⊢
  cases hd : ps.reverse.dropWhile isSilent with
  | nil => simp [hd] at h
  | cons q qs =>
    refine ⟨qs.reverse, q, by simp, ?_⟩
    have := List.head?_dropWhile_not isSilent ps.reverse
    simpa [hd] using this

/-- Cutting the last component off makes the bytes fewer. -/
theorem Path.cutLast_length {before ps qs : List Bytes} (h : cutLast before ps = some qs) :
    (glue qs).length < (glue (before ++ ps)).length := by
  unfold cutLast at h
  split at h
  · simp at h
  · next q rs htrim =>
    obtain ⟨ss, s, hs, hsilent⟩ := trimBack_eq_append ps (by simp [htrim])
    have hlast : (q :: rs).dropLast = ss := by rw [← htrim, hs]; simp
    rw [hlast] at h
    cases h
    have h₁ : before ++ trimBack ss <+: before ++ ss :=
      (List.prefix_append_right_inj before).2 (trimBack_isPrefix ss)
    have h₂ : before ++ ss ++ [s] <+: before ++ ps := by
      rw [List.append_assoc, ← hs]
      exact (List.prefix_append_right_inj before).2 (trimBack_isPrefix ps)
    have h₃ := glue_length_le_of_isPrefix h₁
    have h₄ := glue_length_le_of_isPrefix h₂
    have h₅ := glue_append_singleton_length (before ++ ss) s
    have h₆ : 0 < s.length := by
      cases s with
      | nil => simp [isSilent] at hsilent
      | cons => simp
    omega

/-- A parent is shorter than its path. -/
theorem Path.parent?_length_lt {p q : Path} (h : p.parent? = some q) :
    q.bytes.length < p.bytes.length := by
  obtain ⟨bytes⟩ := p
  cases bytes with
  | nil => simp [parent?] at h
  | cons b r =>
    simp only [parent?] at h
    split at h
    · obtain ⟨ps, hps, rfl⟩ := Option.map_eq_some_iff.1 h
      have := cutLast_length hps
      simp only [List.nil_append, glue_pieces] at this
      simpa using this
    · have hglue := glue_pieces (b :: r)
      split at h
      · simp at h
      · next first rest hp =>
        rw [hp] at hglue
        split at h
        · split at h
          · next ps hps =>
            cases h
            have := cutLast_length hps
            simpa [hglue] using this
          · cases h
            simp [empty]
        · obtain ⟨ps, hps, rfl⟩ := Option.map_eq_some_iff.1 h
          have := cutLast_length hps
          simpa [hglue] using this

/-- A path and its parents, deepest first, as far as they go. -/
def Path.ancestors (p : Path) : List Path :=
  match h : p.parent? with
  | none => [p]
  | some q =>
    have := Path.parent?_length_lt h
    p :: q.ancestors
termination_by p.bytes.length

end PortableLayout
