import PortableLayout.Proofs.Text.Narrow

/-!
# Ill-formed parts

Where no scalar value stands, the reading takes the bytes that could still have become one, and leaves the first
byte that could not (`illFormed_of_front`, `front_of_illFormed`). No byte but a tail is ever waited for. So the
segments of a byte sequence are those of its two halves wherever the second half begins with another byte, be the
first half broken off or not (`segments_append`): above all at a separator (`segments_append_slash`).

A lossy reading shows each ill-formed part as one replacement character. These parts are the maximal ones: the
longest beginning of the bytes that some scalar value has too, and at least one byte (`isMaximalPart_iff`,
`shows_iff`).
-/

set_option autoImplicit false

namespace PortableLayout.Text.Utf8

variable {b b₁ x : UInt8} {r s rest rest' part part' bytes : List UInt8} {shown : List Char} {c : Char}

/-! ## What an ill-formed part is -/

/-- Bytes that are no scalar value as they stand, of which each was waited for behind those before it. -/
inductive Stub : List UInt8 → Prop
  | one {b : UInt8} (lead : 0x80 ≤ b.toNat) : Stub [b]
  | two {b b₁ : UInt8} (lead : 0xE0 ≤ b.toNat ∧ b.toNat ≤ 0xF4) (second : follows b b₁ = true) : Stub [b, b₁]
  | three {b b₁ b₂ : UInt8} (lead : 0xF0 ≤ b.toNat ∧ b.toNat ≤ 0xF4) (second : follows b b₁ = true)
      (third : isTail b₂ = true) : Stub [b, b₁, b₂]

/-- Behind these bytes `next` is waited for. -/
def GoesOn : List UInt8 → UInt8 → Prop
  | [b], next => (0xC2 ≤ b.toNat ∧ b.toNat ≤ 0xF4) ∧ follows b next = true
  | _, next => isTail next = true

/-- An ill-formed part ends where the bytes do, or before a byte that is not waited for. -/
structure IllFormed (part rest : List UInt8) : Prop where
  stub : Stub part
  stops : ∀ x, rest.head? = some x → ¬ GoesOn part x

/-- A second byte that may follow is a tail byte. -/
theorem isTail_of_follows (h : follows b x = true) : isTail x = true := by
  rw [follows_iff] at h
  exact isTail_iff.2 h.1

/-- Below the leads of three bytes any tail follows. -/
theorem follows_of_isTail (hb : b.toNat < 0xE0) (h : isTail x = true) : follows b x = true := by
  rw [isTail_iff] at h
  rw [follows_iff]
  omega

/-- Only tail bytes are waited for. -/
theorem isTail_of_goesOn (h : GoesOn part x) : isTail x = true := by
  match part, h with
  | [], h => exact h
  | [_], h => exact isTail_of_follows h.2
  | _ :: _ :: _, h => exact h

/-- A stub has bytes. -/
theorem Stub.ne_nil (h : Stub part) : part ≠ [] := by
  cases h with
  | one => exact List.cons_ne_nil _ _
  | two => exact List.cons_ne_nil _ _
  | three => exact List.cons_ne_nil _ _

/-- A stub at the end is an ill-formed part. -/
theorem Stub.at_end (h : Stub part) : IllFormed part [] :=
  ⟨h, nofun⟩

/-- A stub before a byte that is not waited for is an ill-formed part. -/
theorem Stub.before (h : Stub part) (hx : ¬ GoesOn part x) : IllFormed part (x :: r) := by
  refine ⟨h, ?_⟩
  rintro y ⟨⟩
  exact hx

/-! ## What the reading takes -/

/-- What a lead byte of three leaves when it fails is what stands behind an ill-formed part. -/
theorem exists_illFormed_of_three (hb : 0xE0 ≤ b.toNat ∧ b.toNat ≤ 0xEF) (h : front b (b₁ :: r) = .illFormed rest) :
    ∃ part, b :: b₁ :: r = part ++ rest ∧ IllFormed part rest := by
  rw [front_three hb] at h
  split at h
  · next h₁ =>
    have hstub : Stub [b, b₁] := .two (by omega) h₁
    cases r with
    | nil =>
      cases h
      exact ⟨[b, b₁], rfl, hstub.at_end⟩
    | cons b₂ r =>
      dsimp only at h
      split at h
      · cases h
      · next h₂ =>
        cases h
        exact ⟨[b, b₁], rfl, hstub.before h₂⟩
  · next h₁ =>
    cases h
    have hstub : Stub [b] := .one (by omega)
    exact ⟨[b], rfl, hstub.before fun hon => h₁ hon.2⟩

/-- What a lead byte of four leaves when it fails is what stands behind an ill-formed part. -/
theorem exists_illFormed_of_four (hb : 0xF0 ≤ b.toNat ∧ b.toNat ≤ 0xF4) (h : front b (b₁ :: r) = .illFormed rest) :
    ∃ part, b :: b₁ :: r = part ++ rest ∧ IllFormed part rest := by
  rw [front_four hb] at h
  split at h
  · next h₁ =>
    have hstub : Stub [b, b₁] := .two (by omega) h₁
    cases r with
    | nil =>
      cases h
      exact ⟨[b, b₁], rfl, hstub.at_end⟩
    | cons b₂ r =>
      dsimp only at h
      split at h
      · next h₂ =>
        have hstub : Stub [b, b₁, b₂] := .three hb h₁ h₂
        cases r with
        | nil =>
          cases h
          exact ⟨[b, b₁, b₂], rfl, hstub.at_end⟩
        | cons b₃ r =>
          dsimp only at h
          split at h
          · cases h
          · next h₃ =>
            cases h
            exact ⟨[b, b₁, b₂], rfl, hstub.before h₃⟩
      · next h₂ =>
        cases h
        exact ⟨[b, b₁], rfl, hstub.before h₂⟩
  · next h₁ =>
    cases h
    have hstub : Stub [b] := .one (by omega)
    exact ⟨[b], rfl, hstub.before fun hon => h₁ hon.2⟩

/-- Where the reading meets no scalar value, it takes an ill-formed part. -/
theorem illFormed_of_front (h : front b r = .illFormed rest) : ∃ part, b :: r = part ++ rest ∧ IllFormed part rest := by
  by_cases hascii : b.toNat < 0x80
  · rw [front_one hascii] at h
    cases h
  have hstub : Stub [b] := .one (by omega)
  cases r with
  | nil =>
    rw [front_nil (by omega)] at h
    cases h
    exact ⟨[b], rfl, hstub.at_end⟩
  | cons b₁ r =>
    obtain hb | hb | hb | hb | hb := lead_cases b
    · exact absurd hb hascii
    · rw [front_two hb] at h
      split at h
      · cases h
      · next h₁ =>
        cases h
        exact ⟨[b], rfl, hstub.before fun hon => h₁ (isTail_of_goesOn hon)⟩
    · exact exists_illFormed_of_three hb h
    · exact exists_illFormed_of_four hb h
    · rw [front_of_no_lead hb] at h
      cases h
      refine ⟨[b], rfl, hstub.before ?_⟩
      rintro ⟨hlead, -⟩
      omega

/-- An ill-formed part is what the reading takes. -/
theorem front_of_illFormed (h : IllFormed part rest) (hpart : b :: r = part ++ rest) : front b r = .illFormed rest := by
  obtain ⟨hstub, hstops⟩ := h
  cases hstub with
  | one lead =>
    obtain ⟨rfl, rfl⟩ := List.cons.inj hpart
    cases r with
    | nil => exact front_nil lead
    | cons x r =>
      have hx : ¬ GoesOn [b] x := hstops x rfl
      -- Whatever the lead byte waits for, it is not this one.
      obtain hb | hb | hb | hb | hb := lead_cases b
      · omega
      · rw [front_two hb, if_neg]
        intro htail
        exact hx ⟨by omega, follows_of_isTail (by omega) htail⟩
      · rw [front_three hb, if_neg]
        intro hfollows
        exact hx ⟨by omega, hfollows⟩
      · rw [front_four hb, if_neg]
        intro hfollows
        exact hx ⟨by omega, hfollows⟩
      · exact front_of_no_lead hb
  | @two b b₁ lead second =>
    obtain ⟨rfl, rfl⟩ := List.cons.inj hpart
    show front b (b₁ :: rest) = .illFormed rest
    obtain hb | hb : (0xE0 ≤ b.toNat ∧ b.toNat ≤ 0xEF) ∨ (0xF0 ≤ b.toNat ∧ b.toNat ≤ 0xF4) := by omega
    · rw [front_three hb, if_pos second]
      cases rest with
      | nil => rfl
      | cons x rest => exact if_neg (hstops x rfl)
    · rw [front_four hb, if_pos second]
      cases rest with
      | nil => rfl
      | cons x rest => exact if_neg (hstops x rfl)
  | @three b b₁ b₂ lead second third =>
    obtain ⟨rfl, rfl⟩ := List.cons.inj hpart
    show front b (b₁ :: b₂ :: rest) = .illFormed rest
    rw [front_four lead, if_pos second]
    dsimp only
    rw [if_pos third]
    cases rest with
    | nil => rfl
    | cons x rest => exact if_neg (hstops x rfl)

/-- An ill-formed part is one segment. -/
theorem segments_of_illFormedPart (h : IllFormed part rest) :
    segments (part ++ rest) = .illFormed :: segments rest := by
  cases part with
  | nil => exact absurd rfl h.stub.ne_nil
  | cons b r =>
    rw [List.cons_append]
    exact segments_of_illFormed (front_of_illFormed h rfl)

/-- Bytes are read scalar value by scalar value and ill-formed part by ill-formed part. -/
theorem segments_induction {motive : List UInt8 → Prop} (nil : motive [])
    (scalar : ∀ c rest, motive rest → motive (encodeChar c ++ rest))
    (illFormed : ∀ part rest, IllFormed part rest → motive rest → motive (part ++ rest)) (bytes : List UInt8) :
    motive bytes := by
  induction hlength : bytes.length using Nat.strongRecOn generalizing bytes with
  | ind k ih =>
    cases bytes with
    | nil => exact nil
    | cons b r =>
      have hshorter := front_rest_length b r
      rw [List.length_cons] at hlength
      cases hfront : front b r with
      | scalar c rest =>
        rw [hfront, Front.rest] at hshorter
        rw [eq_append_of_front hfront]
        exact scalar c rest (ih _ (by omega) rest rfl)
      | illFormed rest =>
        rw [hfront, Front.rest] at hshorter
        obtain ⟨part, hpart, hill⟩ := illFormed_of_front hfront
        rw [hpart]
        exact illFormed part rest hill (ih _ (by omega) rest rfl)

/-! ## Reading in two halves -/

/-- What comes behind the rest does not matter to an ill-formed part, unless it begins with a tail. -/
theorem IllFormed.append (h : IllFormed part rest) (hs : ∀ x, s.head? = some x → isTail x = false) :
    IllFormed part (rest ++ s) := by
  refine ⟨h.stub, ?_⟩
  intro x hx hon
  cases rest with
  | nil =>
    have htail := isTail_of_goesOn hon
    rw [hs x hx] at htail
    cases htail
  | cons y rest => exact h.stops x hx hon

/-- Bytes can be read in two halves wherever the second half begins with no tail. -/
theorem segments_append (r : List UInt8) (hs : ∀ x, s.head? = some x → isTail x = false) :
    segments (r ++ s) = segments r ++ segments s := by
  induction r using segments_induction with
  | nil => rw [segments_nil, List.nil_append, List.nil_append]
  | scalar c rest ih =>
    rw [List.append_assoc, segments_encodeChar_append, segments_encodeChar_append, ih, List.cons_append]
  | illFormed part rest hill ih =>
    rw [List.append_assoc, segments_of_illFormedPart (hill.append hs), segments_of_illFormedPart hill, ih,
      List.cons_append]

/-- A separator is a segment of its own. -/
theorem segments_slash_cons (s : List UInt8) : segments (slash :: s) = .scalar '/' :: segments s :=
  segments_encodeChar_append '/' s

/-- No segment goes over a separator. -/
theorem segments_append_slash (r s : List UInt8) :
    segments (r ++ slash :: s) = segments r ++ .scalar '/' :: segments s := by
  have hslash : ∀ x, (slash :: s).head? = some x → isTail x = false := by
    rintro x ⟨⟩
    decide
  rw [segments_append r hslash, segments_slash_cons]

/-! ## Maximal parts -/

/-- At the front of `part ++ rest` stands no scalar value, and `part` is the longest beginning there that some scalar
value has too, or one byte if there is none. -/
structure IsMaximalPart (part rest : List UInt8) : Prop where
  ne_nil : part ≠ []
  no_scalar : ∀ c, ¬ String.utf8EncodeChar c <+: part ++ rest
  begins : part.length = 1 ∨ ∃ c, part <+: String.utf8EncodeChar c
  longest : ∀ longer, longer <+: part ++ rest → part.length < longer.length →
    ∀ c, ¬ longer <+: String.utf8EncodeChar c

/-- No scalar value begins with an ill-formed part and the byte behind it. -/
theorem IllFormed.ne_encodeChar_append (h : IllFormed part rest) (c : Char) (r : List UInt8) :
    part ++ rest ≠ encodeChar c ++ r := by
  intro heq
  have hsegments := segments_of_illFormedPart h
  rw [heq, segments_encodeChar_append] at hsegments
  cases hsegments

/-- With tails behind it, a stub of two or three bytes is a scalar value. -/
theorem Stub.begins (h : Stub part) : part.length = 1 ∨ ∃ c, part <+: encodeChar c := by
  have htail : isTail 0x80 = true := by decide
  cases h with
  | one lead => exact .inl rfl
  | @two b b₁ lead second =>
    obtain hb | hb : (0xE0 ≤ b.toNat ∧ b.toNat ≤ 0xEF) ∨ (0xF0 ≤ b.toNat ∧ b.toNat ≤ 0xF4) := by omega
    · obtain ⟨hwrites, hlayout⟩ := writes_three hb second htail rfl
      exact .inr ⟨_, [0x80], ((encodeChar_of_writes hwrites).trans hlayout).symm⟩
    · obtain ⟨hwrites, hlayout⟩ := writes_four hb second htail htail rfl
      exact .inr ⟨_, [0x80, 0x80], ((encodeChar_of_writes hwrites).trans hlayout).symm⟩
  | three lead second third =>
    obtain ⟨hwrites, hlayout⟩ := writes_four lead second third htail rfl
    exact .inr ⟨_, [0x80], ((encodeChar_of_writes hwrites).trans hlayout).symm⟩

/-- An ill-formed part is maximal. -/
theorem IllFormed.isMaximalPart (h : IllFormed part rest) : IsMaximalPart part rest where
  ne_nil := h.stub.ne_nil
  no_scalar c := by
    rw [← encodeChar_eq_utf8EncodeChar]
    rintro ⟨r, hr⟩
    exact h.ne_encodeChar_append c r hr.symm
  begins := by
    simp only [← encodeChar_eq_utf8EncodeChar]
    exact h.stub.begins
  longest longer hlonger hlength c := by
    rw [← encodeChar_eq_utf8EncodeChar]
    rintro ⟨r, hr⟩
    -- The byte behind the part is one that the scalar value has in its place, so it would have been waited for.
    obtain ⟨more, rfl⟩ := List.prefix_of_prefix_length_le (List.prefix_append part rest) hlonger (by omega)
    cases more with
    | nil => simp at hlength
    | cons x more =>
      rw [List.prefix_append_right_inj] at hlonger
      obtain ⟨later, rfl⟩ := hlonger
      have hill : IllFormed part (x :: more ++ r) := ⟨h.stub, h.stops⟩
      apply hill.ne_encodeChar_append c []
      rw [List.append_nil, ← hr, List.append_assoc]

/-- Of two maximal parts of the same bytes neither is longer. -/
theorem IsMaximalPart.length_le (h : IsMaximalPart part rest) (h' : IsMaximalPart part' rest')
    (heq : part ++ rest = part' ++ rest') : part'.length ≤ part.length := by
  refine Nat.le_of_not_lt fun hlt => ?_
  obtain hone | ⟨c, hc⟩ := h'.begins
  · have hpos := List.length_pos_iff.2 h.ne_nil
    omega
  · exact h.longest part' ⟨rest', heq.symm⟩ hlt c hc

/-- There is one maximal part at the front of any bytes. -/
theorem IsMaximalPart.unique (h : IsMaximalPart part rest) (h' : IsMaximalPart part' rest')
    (heq : part ++ rest = part' ++ rest') : part = part' ∧ rest = rest' :=
  List.append_inj heq (Nat.le_antisymm (h'.length_le h heq.symm) (h.length_le h' heq))

/-- The maximal parts are those that the reading takes. -/
theorem isMaximalPart_iff : IsMaximalPart part rest ↔ IllFormed part rest := by
  refine ⟨fun h => ?_, IllFormed.isMaximalPart⟩
  cases hpart : part with
  | nil => exact absurd hpart h.ne_nil
  | cons b r =>
    cases hfront : front b (r ++ rest) with
    | scalar c later =>
      have hscalar := eq_append_of_front hfront
      rw [← List.cons_append, ← hpart, encodeChar_eq_utf8EncodeChar] at hscalar
      exact absurd ⟨later, hscalar.symm⟩ (h.no_scalar c)
    | illFormed later =>
      obtain ⟨taken, htaken, hill⟩ := illFormed_of_front hfront
      rw [← List.cons_append, ← hpart] at htaken
      obtain ⟨rfl, rfl⟩ := h.unique hill.isMaximalPart htaken
      rwa [← hpart]

/-- The characters show the bytes: each scalar value itself, and each maximal ill-formed part as one U+FFFD. -/
inductive Shows : List UInt8 → List Char → Prop
  | nil : Shows [] []
  | scalar (c : Char) {rest : List UInt8} {shown : List Char} (later : Shows rest shown) :
      Shows (String.utf8EncodeChar c ++ rest) (c :: shown)
  | replaced {part rest : List UInt8} {shown : List Char} (maximal : IsMaximalPart part rest)
      (later : Shows rest shown) : Shows (part ++ rest) ('\uFFFD' :: shown)

/-- The lossy text shows segment by segment. -/
theorem toList_decodeLossy (bytes : List UInt8) : (decodeLossy bytes).toList = (segments bytes).map Segment.shown :=
  String.toList_ofList

/-- The lossy text of some bytes shows them. -/
theorem shows_decodeLossy (bytes : List UInt8) : Shows bytes (decodeLossy bytes).toList := by
  rw [toList_decodeLossy]
  induction bytes using segments_induction with
  | nil =>
    rw [segments_nil]
    exact .nil
  | scalar c rest ih =>
    rw [segments_encodeChar_append, encodeChar_eq_utf8EncodeChar]
    exact .scalar c ih
  | illFormed part rest hill ih =>
    rw [segments_of_illFormedPart hill]
    exact .replaced hill.isMaximalPart ih

/-- There is one way to show bytes, and a lossy reading shows them so. -/
theorem shows_iff : Shows bytes shown ↔ shown = (decodeLossy bytes).toList := by
  constructor
  · intro h
    rw [toList_decodeLossy]
    induction h with
    | nil => rw [segments_nil, List.map_nil]
    | scalar c later ih =>
      rw [← encodeChar_eq_utf8EncodeChar, segments_encodeChar_append, ih]
      rfl
    | replaced maximal later ih =>
      rw [segments_of_illFormedPart (isMaximalPart_iff.1 maximal), ih]
      rfl
  · rintro rfl
    exact shows_decodeLossy bytes

/-! ## Characters below 80 -/

/-- A scalar value below 80 is encoded as one byte. -/
theorem encodeChar_of_lt (hc : c.toNat < 0x80) : encodeChar c = [.ofNat c.toNat] := by
  have hwrites : Form.one.Writes c.toNat := ⟨Nat.zero_le _, hc, isValidChar_toNat c⟩
  have hlayout := encodeChar_of_writes hwrites
  rwa [Char.ofNat_toNat] at hlayout

/-- A scalar value that needs more than one byte has no byte below 80. -/
theorem le_of_mem_encodeChar (hc : 0x80 ≤ c.toNat) (hx : x ∈ encodeChar c) : 0x80 ≤ x.toNat := by
  obtain ⟨form, ⟨-, hlimit, -⟩, hlayout⟩ := exists_form c
  have hbyte {k : Nat} (hk : 0x80 ≤ k) (hk' : k < 256) : 0x80 ≤ (UInt8.ofNat k).toNat := by
    rwa [toNat_ofNat_of_lt hk']
  rw [hlayout] at hx
  cases form with
  | one => exact absurd hlimit (Nat.not_lt.2 hc)
  | two =>
    simp only [Form.limit] at hlimit
    simp only [Form.layout, List.mem_cons, List.not_mem_nil, or_false] at hx
    obtain rfl | rfl := hx <;> exact hbyte (by omega) (by omega)
  | three =>
    simp only [Form.limit] at hlimit
    simp only [Form.layout, List.mem_cons, List.not_mem_nil, or_false] at hx
    obtain rfl | rfl | rfl := hx <;> exact hbyte (by omega) (by omega)
  | four =>
    simp only [Form.limit] at hlimit
    simp only [Form.layout, List.mem_cons, List.not_mem_nil, or_false] at hx
    obtain rfl | rfl | rfl | rfl := hx <;> exact hbyte (by omega) (by omega)

/-- The bytes of a stub are none of ASCII. -/
theorem Stub.le_of_mem (h : Stub part) (hx : x ∈ part) : 0x80 ≤ x.toNat := by
  have htail {y : UInt8} (hy : isTail y = true) : 0x80 ≤ y.toNat := (isTail_iff.1 hy).1
  cases h with
  | one lead =>
    rw [List.mem_singleton] at hx
    rwa [hx]
  | two lead second =>
    simp only [List.mem_cons, List.not_mem_nil, or_false] at hx
    obtain rfl | rfl := hx
    · omega
    · exact htail (isTail_of_follows second)
  | three lead second third =>
    simp only [List.mem_cons, List.not_mem_nil, or_false] at hx
    obtain rfl | rfl | rfl := hx
    · omega
    · exact htail (isTail_of_follows second)
    · exact htail third

/-- The byte of an ASCII character has its number. -/
theorem toNat_ofNat_toNat (hc : c.toNat < 0x80) : (UInt8.ofNat c.toNat).toNat = c.toNat :=
  toNat_ofNat_of_lt (by omega)

/-- The byte of an ASCII character occurs once in that character's encoding, and in no other. -/
theorem count_encodeChar (hc : c.toNat < 0x80) (d : Char) :
    (encodeChar d).count (.ofNat c.toNat) = [d].count c := by
  by_cases hd : d.toNat < 0x80
  · have hinjective : UInt8.ofNat d.toNat = .ofNat c.toNat ↔ d = c := by
      rw [← UInt8.toNat_inj, toNat_ofNat_toNat hd, toNat_ofNat_toNat hc, Char.toNat_inj]
    rw [encodeChar_of_lt hd, List.count_singleton, List.count_singleton]
    simp only [beq_iff_eq, hinjective]
  · have hbyte : UInt8.ofNat c.toNat ∉ encodeChar d := by
      intro hmem
      have hle := le_of_mem_encodeChar (by omega) hmem
      rw [toNat_ofNat_toNat hc] at hle
      omega
    have hne : c ∉ [d] := by
      rw [List.mem_singleton]
      rintro rfl
      exact hd hc
    rw [List.count_eq_zero_of_not_mem hbyte, List.count_eq_zero_of_not_mem hne]

/-- A lossy reading shows a character below 80 as often as its byte stands there. -/
theorem count_decodeLossy (hc : c.toNat < 0x80) (bytes : List UInt8) :
    (decodeLossy bytes).toList.count c = bytes.count (.ofNat c.toNat) := by
  rw [toList_decodeLossy]
  induction bytes using segments_induction with
  | nil => rw [segments_nil, List.map_nil, List.count_nil, List.count_nil]
  | scalar d rest ih =>
    rw [segments_encodeChar_append, List.count_append, count_encodeChar hc, ← ih, List.map_cons,
      ← List.singleton_append, List.count_append]
    rfl
  | illFormed part rest hill ih =>
    have hbyte : UInt8.ofNat c.toNat ∉ part := by
      intro hmem
      have hle := hill.stub.le_of_mem hmem
      rw [toNat_ofNat_toNat hc] at hle
      omega
    have hne : Segment.illFormed.shown ≠ c := by
      rintro rfl
      exact absurd hc (by decide)
    rw [segments_of_illFormedPart hill, List.count_append, List.count_eq_zero_of_not_mem hbyte, Nat.zero_add, ← ih,
      List.map_cons, List.count_cons_of_ne hne]

end PortableLayout.Text.Utf8
