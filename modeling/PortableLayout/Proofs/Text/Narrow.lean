import PortableLayout.Proofs.Text.Forms
import PortableLayout.Report

/-!
# Texts in bytes

Bytes are read exactly if they are the UTF-8 writing of a text, and that text is the one that is read
(`Utf8.decode_eq_some_iff`). Between two texts nothing is read but further texts: no number in a form that is too
long for it or that is no scalar value's (`Utf8.exists_decode_layout_iff`), and no part of a scalar value
(`Utf8.exists_decode_take_iff`). So a path has a text exactly if its bytes are UTF-8, and the text spells the path
byte for byte (`narrow_bytes_spell_texts`).
-/

set_option autoImplicit false

namespace PortableLayout.Text

namespace Utf8

variable {b : UInt8} {r rest : List UInt8} {c : Char} {n : Nat} {form : Form}

/-! ## Segments -/

/-- A scalar value in front is put onto what is done. -/
theorem segmentsOnto_of_scalar (done : List Segment) (h : front b r = .scalar c rest) :
    segmentsOnto done (b :: r) = segmentsOnto (.scalar c :: done) rest := by
  rw [segmentsOnto]
  split
  · next h' =>
    rw [h'] at h
    cases h
    rfl
  · next h' =>
    rw [h'] at h
    cases h

/-- An ill-formed part in front is put onto what is done. -/
theorem segmentsOnto_of_illFormed (done : List Segment) (h : front b r = .illFormed rest) :
    segmentsOnto done (b :: r) = segmentsOnto (.illFormed :: done) rest := by
  rw [segmentsOnto]
  split
  · next h' =>
    rw [h'] at h
    cases h
  · next h' =>
    rw [h'] at h
    cases h
    rfl

/-- What is read before stays below what is read from here on. -/
theorem segmentsOnto_eq_append (done : List Segment) (bytes : List UInt8) :
    segmentsOnto done bytes = segmentsOnto [] bytes ++ done := by
  induction hlength : bytes.length using Nat.strongRecOn generalizing done bytes with
  | ind k ih =>
    cases bytes with
    | nil => simp [segmentsOnto]
    | cons b r =>
      have hshorter := front_rest_length b r
      cases hfront : front b r with
      | scalar c rest =>
        have hk : rest.length < k := by
          rw [hfront, Front.rest] at hshorter
          simp only [List.length_cons] at hlength
          omega
        rw [segmentsOnto_of_scalar done hfront, segmentsOnto_of_scalar [] hfront, ih _ hk _ _ rfl,
          ih _ hk [_] _ rfl, List.append_assoc]
        rfl
      | illFormed rest =>
        have hk : rest.length < k := by
          rw [hfront, Front.rest] at hshorter
          simp only [List.length_cons] at hlength
          omega
        rw [segmentsOnto_of_illFormed done hfront, segmentsOnto_of_illFormed [] hfront, ih _ hk _ _ rfl,
          ih _ hk [_] _ rfl, List.append_assoc]
        rfl

/-- No bytes have no segments. -/
theorem segments_nil : segments [] = [] := by
  simp [segments, segmentsOnto]

/-- A scalar value in front is the first segment. -/
theorem segments_of_scalar (h : front b r = .scalar c rest) :
    segments (b :: r) = .scalar c :: segments rest := by
  rw [segments, segmentsOnto_of_scalar [] h, segmentsOnto_eq_append, List.reverse_append]
  rfl

/-- An ill-formed part in front is the first segment. -/
theorem segments_of_illFormed (h : front b r = .illFormed rest) :
    segments (b :: r) = .illFormed :: segments rest := by
  rw [segments, segmentsOnto_of_illFormed [] h, segmentsOnto_eq_append, List.reverse_append]
  rfl

/-- The bytes of a scalar value are one segment, whatever follows them. -/
theorem segments_encodeChar_append (c : Char) (r : List UInt8) :
    segments (encodeChar c ++ r) = .scalar c :: segments r := by
  obtain ⟨form, hwrites, hlayout⟩ := exists_form c
  obtain ⟨lead, tails, hbytes, hfront⟩ := front_of_writes hwrites
  rw [hlayout, hbytes, List.cons_append, segments_of_scalar (hfront r), Char.ofNat_toNat]

/-- Encoded characters in front are read as these characters, whatever follows. -/
theorem segments_flatMap_append (cs : List Char) (r : List UInt8) :
    segments (cs.flatMap encodeChar ++ r) = cs.map .scalar ++ segments r := by
  induction cs with
  | nil => rfl
  | cons c cs ih =>
    rw [List.flatMap_cons, List.append_assoc, segments_encodeChar_append, ih]
    rfl

/-- Bytes in which nothing is ill-formed are those of the scalar values that are met. -/
theorem eq_flatMap_of_segments {cs : List Char} {bytes : List UInt8} (h : segments bytes = cs.map .scalar) :
    bytes = cs.flatMap encodeChar := by
  induction cs generalizing bytes with
  | nil =>
    cases bytes with
    | nil => rfl
    | cons b r =>
      cases hfront : front b r with
      | scalar c rest => simp [segments_of_scalar hfront] at h
      | illFormed rest => simp [segments_of_illFormed hfront] at h
  | cons c cs ih =>
    cases bytes with
    | nil => simp [segments_nil] at h
    | cons b r =>
      cases hfront : front b r with
      | scalar d rest =>
        rw [segments_of_scalar hfront, List.map_cons, List.cons.injEq] at h
        obtain ⟨hd, hrest⟩ := h
        cases hd
        rw [List.flatMap_cons, ← ih hrest]
        exact eq_append_of_front hfront
      | illFormed rest => simp [segments_of_illFormed hfront] at h

/-! ## The strict reading -/

/-- The bytes are the UTF-8 writing of some scalar values. -/
def IsUtf8 (bytes : List UInt8) : Prop :=
  ∃ cs : List Char, bytes = cs.flatMap String.utf8EncodeChar

/-- Segments that are all scalar values are these values. -/
theorem mapM_scalar?_eq_some_iff {segs : List Segment} {cs : List Char} :
    segs.mapM Segment.scalar? = some cs ↔ segs = cs.map .scalar := by
  induction segs generalizing cs with
  | nil =>
    cases cs with
    | nil => simp
    | cons c cs => simp
  | cons seg segs ih =>
    cases seg with
    | illFormed =>
      cases cs with
      | nil => simp [Segment.scalar?]
      | cons c cs => simp [Segment.scalar?]
    | scalar d =>
      rw [List.mapM_cons]
      simp only [Segment.scalar?, Option.bind_eq_bind, Option.bind_some, Option.bind_eq_some_iff, ih]
      constructor
      · rintro ⟨ds, rfl, hcs⟩
        cases hcs
        rfl
      · intro h
        cases cs with
        | nil => cases h
        | cons c cs =>
          cases h
          exact ⟨cs, rfl, rfl⟩

/-- Segments are scalar values exactly if no part is ill-formed. -/
theorem exists_eq_map_scalar_iff {segs : List Segment} :
    (∃ cs : List Char, segs = cs.map .scalar) ↔ .illFormed ∉ segs := by
  constructor
  · rintro ⟨cs, rfl⟩
    simp
  · intro h
    induction segs with
    | nil => exact ⟨[], rfl⟩
    | cons seg segs ih =>
      rw [List.mem_cons, not_or] at h
      obtain ⟨cs, rfl⟩ := ih h.2
      cases seg with
      | scalar c => exact ⟨c :: cs, rfl⟩
      | illFormed => exact absurd rfl h.1

/-- Bytes have a text exactly if no part of them is ill-formed. -/
theorem exists_decode_iff {bytes : List UInt8} : (∃ s, decode bytes = some s) ↔ .illFormed ∉ segments bytes := by
  rw [← exists_eq_map_scalar_iff]
  simp only [decode, Option.map_eq_some_iff, mapM_scalar?_eq_some_iff]
  constructor
  · rintro ⟨s, cs, hcs, -⟩
    exact ⟨cs, hcs⟩
  · rintro ⟨cs, hcs⟩
    exact ⟨_, cs, hcs, rfl⟩

/-- The reading gives the text that is written with these bytes, and fails if there is none. -/
theorem decode_eq_some_iff {bytes : List UInt8} {s : String} : decode bytes = some s ↔ encode s = bytes := by
  rw [decode, Option.map_eq_some_iff]
  constructor
  · rintro ⟨cs, hcs, rfl⟩
    rw [encode, String.toList_ofList, ← eq_flatMap_of_segments (mapM_scalar?_eq_some_iff.1 hcs)]
  · rintro rfl
    refine ⟨s.toList, mapM_scalar?_eq_some_iff.2 ?_, String.ofList_toList⟩
    have h := segments_flatMap_append s.toList []
    rwa [List.append_nil, segments_nil, List.append_nil] at h

/-- A text is written as the standard encoding of its characters. -/
theorem encode_eq_flatMap (s : String) : encode s = s.toList.flatMap String.utf8EncodeChar := by
  rw [encode, funext encodeChar_eq_utf8EncodeChar]

/-- Bytes are UTF-8 exactly if they are those of some text. -/
theorem isUtf8_iff {bytes : List UInt8} : IsUtf8 bytes ↔ ∃ s, encode s = bytes := by
  constructor
  · rintro ⟨cs, rfl⟩
    exact ⟨String.ofList cs, by rw [encode_eq_flatMap, String.toList_ofList]⟩
  · rintro ⟨s, rfl⟩
    exact ⟨s.toList, encode_eq_flatMap s⟩

/-- No text begins with a tail. -/
theorem isTail_of_head?_encode {s : String} (h : (encode s).head? = some b) : isTail b = false := by
  rw [encode] at h
  cases hs : s.toList with
  | nil =>
    rw [hs] at h
    cases h
  | cons c cs =>
    obtain ⟨form, ⟨-, hlimit, -⟩, hlayout⟩ := exists_form c
    rw [hs, List.flatMap_cons, hlayout] at h
    rw [← Bool.not_eq_true, isTail_iff]
    -- The first byte lies below 80 or from C0 on, whatever the form.
    cases form with
    | one =>
      simp only [Form.limit] at hlimit
      have hb : (UInt8.ofNat c.toNat).toNat = c.toNat := toNat_ofNat_of_lt (by omega)
      cases h
      omega
    | two =>
      simp only [Form.limit] at hlimit
      have hb : (UInt8.ofNat (0xC0 + c.toNat / 64)).toNat = 0xC0 + c.toNat / 64 := toNat_ofNat_of_lt (by omega)
      cases h
      omega
    | three =>
      simp only [Form.limit] at hlimit
      have hb : (UInt8.ofNat (0xE0 + c.toNat / 4096)).toNat = 0xE0 + c.toNat / 4096 :=
        toNat_ofNat_of_lt (by omega)
      cases h
      omega
    | four =>
      simp only [Form.limit] at hlimit
      have hb : (UInt8.ofNat (0xF0 + c.toNat / 262144)).toNat = 0xF0 + c.toNat / 262144 :=
        toNat_ofNat_of_lt (by omega)
      cases h
      omega

/-- Bytes between two texts are read if they are the writing of a text. -/
theorem exists_decode_of_between {s t u : String} :
    ∃ v, decode (encode s ++ encode u ++ encode t) = some v :=
  ⟨s ++ u ++ t, decode_eq_some_iff.2 (by rw [encode_append, encode_append])⟩

/-- Bytes behind a text that begin with an ill-formed part are not read. -/
theorem not_exists_decode_of_front {s : String} {lead : UInt8} {tails : List UInt8}
    (h : front lead tails = .illFormed rest) : ¬ ∃ v, decode (encode s ++ lead :: tails) = some v := by
  rw [exists_decode_iff, encode, segments_flatMap_append, segments_of_illFormed h]
  simp

/-- A number laid out between two texts is read exactly if it is a scalar value's and in its shortest form. -/
theorem exists_decode_layout_iff (s t : String) (hlimit : n < form.limit) :
    (∃ v, decode (encode s ++ form.layout n ++ encode t) = some v) ↔ form.least ≤ n ∧ n.isValidChar := by
  constructor
  · intro hread
    by_cases hwrites : form.Writes n
    · exact ⟨hwrites.1, hwrites.2.2⟩
    · obtain ⟨lead, tails, hlayout, hfront⟩ := front_of_not_writes hlimit hwrites
      obtain ⟨rest, hrest⟩ := hfront (encode t)
      rw [hlayout, List.append_assoc, List.cons_append] at hread
      exact absurd hread (not_exists_decode_of_front hrest)
  · rintro ⟨hleast, hvalid⟩
    have hone : encode (String.ofList [Char.ofNat n]) = form.layout n := by
      rw [encode, String.toList_ofList, List.flatMap_singleton, encodeChar_of_writes ⟨hleast, hlimit, hvalid⟩]
    rw [← hone]
    exact exists_decode_of_between

/-- The first bytes of a scalar value between two texts are read exactly if they are none or all. -/
theorem exists_decode_take_iff (s t : String) (c : Char) (k : Nat) :
    (∃ v, decode (encode s ++ (encodeChar c).take k ++ encode t) = some v) ↔
      k = 0 ∨ (encodeChar c).length ≤ k := by
  constructor
  · intro hread
    by_cases hk : 0 < k ∧ k < (encodeChar c).length
    · obtain ⟨form, hwrites, hlayout⟩ := exists_form c
      rw [hlayout] at hk hread
      obtain ⟨lead, tails, htake, rest, hrest⟩ :=
        front_of_broken hwrites hk.1 hk.2 fun b hb => isTail_of_head?_encode (s := t) hb
      rw [htake, List.append_assoc, List.cons_append] at hread
      exact absurd hread (not_exists_decode_of_front hrest)
    · omega
  · rintro (rfl | hk)
    · rw [List.take_zero]
      exact exists_decode_of_between (u := "")
    · have hone : encode (String.ofList [c]) = encodeChar c := by
        rw [encode, String.toList_ofList, List.flatMap_singleton]
      rw [List.take_of_length_le hk, ← hone]
      exact exists_decode_of_between

end Utf8

/-! ## Texts on narrow platforms -/

/-- Bytes are read as a text exactly if they are the bytes of the text. -/
theorem ofNarrow_eq_ok_iff {bytes : List UInt8} {s : String} : ofNarrow bytes = .ok s ↔ toNarrow s = bytes := by
  rw [toNarrow, ← Utf8.decode_eq_some_iff, ofNarrow]
  cases Utf8.decode bytes with
  | none => simp
  | some t => simp

/-- Bytes are accepted exactly if they can be decoded. -/
theorem exists_ofNarrow_iff {bytes : List UInt8} :
    (∃ s, ofNarrow bytes = .ok s) ↔ ∃ s, Utf8.decode bytes = some s := by
  simp only [ofNarrow_eq_ok_iff, Utf8.decode_eq_some_iff, toNarrow]

/-- Bytes are accepted exactly if they are UTF-8. -/
theorem exists_ofNarrow_iff_isUtf8 {bytes : List UInt8} :
    (∃ s, ofNarrow bytes = .ok s) ↔ Utf8.IsUtf8 bytes := by
  rw [exists_ofNarrow_iff, Utf8.isUtf8_iff]
  simp only [Utf8.decode_eq_some_iff]

/-- A path has a text exactly if its bytes do. -/
theorem toText_eq_ok_iff {p : Path} {s : String} : p.toText = .ok s ↔ ofNarrow p.bytes = .ok s := by
  rw [Path.toText]
  cases ofNarrow p.bytes with
  | error e => simp
  | ok t => simp

/-- A path has none exactly if its bytes have none, and the error then carries the path. -/
theorem toText_eq_error_iff {p : Path} {e : PathError} :
    p.toText = .error e ↔ e = .notUnicode p ∧ ¬ ∃ s, ofNarrow p.bytes = .ok s := by
  rw [Path.toText]
  cases ofNarrow p.bytes with
  | error e' => simp [eq_comm]
  | ok t => simp

/-- A path is made from a text exactly if its bytes are those of the text. -/
theorem ofString_eq_iff {p : Path} {s : String} : Path.ofString s = p ↔ toNarrow s = p.bytes := by
  cases p
  simp [Path.ofString, toNarrow]

/-- **Bytes that are UTF-8 and texts stand for each other one to one.** Bytes are read exactly if they are the
UTF-8 writing of some scalar values. The text that is read is the one that is written with these bytes, and
every text is read back from its bytes. Laid out between two texts, a number is read exactly if it is that of a
scalar value and in the shortest form that has room for it, and the first bytes of a scalar value exactly if
they are none or all of them. So a path has a text exactly if its bytes are UTF-8; the text then spells the
path byte for byte, and any other path is refused as it is. -/
theorem narrow_bytes_spell_texts :
    (∀ bytes, (∃ s, ofNarrow bytes = .ok s) ↔ Utf8.IsUtf8 bytes) ∧
    (∀ bytes s, ofNarrow bytes = .ok s ↔ toNarrow s = bytes) ∧
    (∀ s, ofNarrow (toNarrow s) = .ok s) ∧
    (∀ (s t : String) (form : Utf8.Form) (n : Fin form.limit),
      (∃ u, ofNarrow (toNarrow s ++ form.layout n ++ toNarrow t) = .ok u) ↔
        form.least ≤ n ∧ n.val.isValidChar) ∧
    (∀ (s t : String) (c : Char) (k : Nat),
      (∃ u, ofNarrow (toNarrow s ++ (String.utf8EncodeChar c).take k ++ toNarrow t) = .ok u) ↔
        k = 0 ∨ (String.utf8EncodeChar c).length ≤ k) ∧
    (∀ p : Path, (∃ s, p.toText = .ok s) ↔ Utf8.IsUtf8 p.bytes) ∧
    (∀ (p : Path) (s : String), p.toText = .ok s ↔ Path.ofString s = p) ∧
    ∀ (p : Path) (e : PathError), p.toText = .error e ↔ e = .notUnicode p ∧ ¬ Utf8.IsUtf8 p.bytes := by
  refine ⟨?_, ?_, ?_, ?_, ?_, ?_, ?_, ?_⟩
  · exact fun _ => exists_ofNarrow_iff_isUtf8
  · exact fun _ _ => ofNarrow_eq_ok_iff
  · exact fun _ => ofNarrow_eq_ok_iff.2 rfl
  · intro s t form n
    rw [exists_ofNarrow_iff]
    exact Utf8.exists_decode_layout_iff s t n.isLt
  · intro s t c k
    rw [exists_ofNarrow_iff, ← Utf8.encodeChar_eq_utf8EncodeChar]
    exact Utf8.exists_decode_take_iff s t c k
  · intro p
    simp only [toText_eq_ok_iff]
    exact exists_ofNarrow_iff_isUtf8
  · intro p s
    rw [toText_eq_ok_iff, ofNarrow_eq_ok_iff, ofString_eq_iff]
  · intro p e
    rw [toText_eq_error_iff, exists_ofNarrow_iff_isUtf8]

end PortableLayout.Text
