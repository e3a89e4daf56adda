import Mathlib.Data.Set.Function
import PortableLayout.Proofs.Text.Scalar
import PortableLayout.Text.Native

/-!
# Texts in 16-bit units

A unit sequence spells a text exactly when its surrogates come in pairs, a high one and then a low one
(`Utf16.WellPaired`). The reading is undone by the writing and the other way round
(`decodeChars_eq_some_iff`), so the sequences that are well paired and the texts stand for each other one to
one (`wide_units_spell_texts`).
-/

set_option autoImplicit false

namespace PortableLayout.Text

namespace Utf16

/-- Every high surrogate has a low one behind it, and every low surrogate a high one before it. -/
structure WellPaired (units : List UInt16) : Prop where
  followed : ∀ (i : Nat) (high : UInt16), units[i]? = some high → isHigh high = true →
    ∃ low, units[i + 1]? = some low ∧ isLow low = true
  preceded : ∀ (i : Nat) (low : UInt16), units[i]? = some low → isLow low = true →
    ∃ j high, i = j + 1 ∧ units[j]? = some high ∧ isHigh high = true

variable {u v : UInt16} {r : List UInt16} {c : Char}

/-! ## Single units and pairs -/

/-- High surrogates are the units from D800 to DBFF. -/
theorem isHigh_iff : isHigh u = true ↔ 0xD800 ≤ u.toNat ∧ u.toNat ≤ 0xDBFF := by
  simp [isHigh, UInt16.le_iff_toNat_le]

/-- Low surrogates are the units from DC00 to DFFF. -/
theorem isLow_iff : isLow u = true ↔ 0xDC00 ≤ u.toNat ∧ u.toNat ≤ 0xDFFF := by
  simp [isLow, UInt16.le_iff_toNat_le]

/-- A high surrogate is not a low one. -/
theorem not_isLow_of_isHigh (h : isHigh u = true) : isLow u = false := by
  have hu := isHigh_iff.1 h
  have hnot : ¬ isLow u = true := by
    rw [isLow_iff]
    omega
  simpa using hnot

/-- A pair writes a scalar value from 10000 on, with ten bits in each of its units. -/
theorem toNat_pair (hu : isHigh u = true) (hv : isLow v = true) :
    (pair u v).toNat = 0x10000 + (u.toNat - 0xD800) * 1024 + (v.toNat - 0xDC00) := by
  have hu' := isHigh_iff.1 hu
  have hv' := isLow_iff.1 hv
  apply toNat_ofNat_of_isValidChar
  unfold Nat.isValidChar
  omega

/-- A high and a low surrogate are the units of the scalar value that they write. -/
theorem encodeChar_pair (hu : isHigh u = true) (hv : isLow v = true) : encodeChar (pair u v) = [u, v] := by
  have hu' := isHigh_iff.1 hu
  have hv' := isLow_iff.1 hv
  have hn := toNat_pair hu hv
  have hlarge : ¬ (pair u v).toNat < 0x10000 := by omega
  have hhigh : 0xD800 + ((pair u v).toNat - 0x10000) / 1024 = u.toNat := by omega
  have hlow : 0xDC00 + ((pair u v).toNat - 0x10000) % 1024 = v.toNat := by omega
  simp only [encodeChar, if_neg hlarge, hhigh, hlow, UInt16.ofNat_toNat]

/-- A unit that is no surrogate is the one unit of the scalar value with its number. -/
theorem encodeChar_unit (hhigh : isHigh u = false) (hlow : isLow u = false) :
    encodeChar (Char.ofNat u.toNat) = [u] := by
  have hh : ¬ (0xD800 ≤ u.toNat ∧ u.toNat ≤ 0xDBFF) := by rw [← isHigh_iff]; simp [hhigh]
  have hl : ¬ (0xDC00 ≤ u.toNat ∧ u.toNat ≤ 0xDFFF) := by rw [← isLow_iff]; simp [hlow]
  have hu := u.toNat_lt
  have hn : (Char.ofNat u.toNat).toNat = u.toNat := by
    apply toNat_ofNat_of_isValidChar
    unfold Nat.isValidChar
    omega
  have hsmall : u.toNat < 0x10000 := by omega
  simp only [encodeChar, hn, if_pos hsmall, UInt16.ofNat_toNat]

/-- The units of a scalar value: one that is no surrogate, or a pair. -/
theorem encodeChar_cases (c : Char) :
    (∃ u, encodeChar c = [u] ∧ isHigh u = false ∧ isLow u = false ∧ Char.ofNat u.toNat = c) ∨
      ∃ u v, encodeChar c = [u, v] ∧ isHigh u = true ∧ isLow v = true ∧ pair u v = c := by
  have hc := isValidChar_toNat c
  unfold Nat.isValidChar at hc
  by_cases hsmall : c.toNat < 0x10000
  · have hn : (UInt16.ofNat c.toNat).toNat = c.toNat := UInt16.toNat_ofNat_of_lt' hsmall
    refine .inl ⟨_, if_pos hsmall, ?_, ?_, ?_⟩
    · rw [Bool.eq_false_iff, ne_eq, isHigh_iff]
      omega
    · rw [Bool.eq_false_iff, ne_eq, isLow_iff]
      omega
    · rw [hn, Char.ofNat_toNat]
  · have hu : (UInt16.ofNat (0xD800 + (c.toNat - 0x10000) / 1024)).toNat =
        0xD800 + (c.toNat - 0x10000) / 1024 := UInt16.toNat_ofNat_of_lt' (by simp only [UInt16.size]; omega)
    have hv : (UInt16.ofNat (0xDC00 + (c.toNat - 0x10000) % 1024)).toNat =
        0xDC00 + (c.toNat - 0x10000) % 1024 := UInt16.toNat_ofNat_of_lt' (by simp only [UInt16.size]; omega)
    refine .inr ⟨_, _, if_neg hsmall, ?_, ?_, ?_⟩
    · rw [isHigh_iff]
      omega
    · rw [isLow_iff]
      omega
    · have hn : 0x10000 + (0xD800 + (c.toNat - 0x10000) / 1024 - 0xD800) * 1024 +
          (0xDC00 + (c.toNat - 0x10000) % 1024 - 0xDC00) = c.toNat := by omega
      rw [pair, hu, hv, hn, Char.ofNat_toNat]

/-! ## Reading units one after the other -/

/-- A unit that is no surrogate is read as one character. -/
theorem decodeChars_unit (hhigh : isHigh u = false) (hlow : isLow u = false) (r : List UInt16) :
    decodeChars (u :: r) = (decodeChars r).map (Char.ofNat u.toNat :: ·) := by
  cases r with
  | nil => simp [decodeChars, hhigh, hlow]
  | cons v r => simp [decodeChars, hhigh, hlow]

/-- A high surrogate with a low one behind it is read as one character. -/
theorem decodeChars_pair (hu : isHigh u = true) (hv : isLow v = true) (r : List UInt16) :
    decodeChars (u :: v :: r) = (decodeChars r).map (pair u v :: ·) := by
  simp [decodeChars, hu, hv]

/-- The units of a scalar value are read as that value. -/
theorem decodeChars_encodeChar_append (c : Char) (r : List UInt16) :
    decodeChars (encodeChar c ++ r) = (decodeChars r).map (c :: ·) := by
  obtain ⟨u, henc, hhigh, hlow, hc⟩ | ⟨u, v, henc, hu, hv, hc⟩ := encodeChar_cases c
  · rw [henc, List.singleton_append, decodeChars_unit hhigh hlow, hc]
  · rw [henc, List.cons_append, List.singleton_append, decodeChars_pair hu hv, hc]

/-- Encoded characters are read as they were. -/
theorem decodeChars_encode (cs : List Char) : decodeChars (cs.flatMap encodeChar) = some cs := by
  induction cs with
  | nil => rfl
  | cons c cs ih => rw [List.flatMap_cons, decodeChars_encodeChar_append, ih, Option.map_some]

/-- What is read from units is written with these units. -/
theorem encode_of_decodeChars {units : List UInt16} {cs : List Char} (h : decodeChars units = some cs) :
    cs.flatMap encodeChar = units := by
  fun_induction decodeChars units generalizing cs with
  | case1 =>
    cases h
    rfl
  | case2 u hsurrogate => cases h
  | case3 u hplain =>
    cases h
    simp only [Bool.or_eq_true, not_or, Bool.not_eq_true] at hplain
    rw [List.flatMap_singleton, encodeChar_unit hplain.1 hplain.2]
  | case4 u v r hu hv ih =>
    obtain ⟨ds, hds, rfl⟩ := Option.map_eq_some_iff.1 h
    rw [List.flatMap_cons, encodeChar_pair hu hv, ih hds]
    rfl
  | case5 => cases h
  | case6 => cases h
  | case7 u v r hhigh hlow ih =>
    obtain ⟨ds, hds, rfl⟩ := Option.map_eq_some_iff.1 h
    rw [List.flatMap_cons, encodeChar_unit (by simpa using hhigh) (by simpa using hlow), ih hds]
    rfl

/-- The reading gives the scalar values that the units write, and fails if there are none. -/
theorem decodeChars_eq_some_iff {units : List UInt16} {cs : List Char} :
    decodeChars units = some cs ↔ cs.flatMap encodeChar = units := by
  constructor
  · exact encode_of_decodeChars
  · rintro rfl
    exact decodeChars_encode cs

/-- Units are read as a text exactly if they are the units of the text. -/
theorem decode_eq_some_iff {units : List UInt16} {s : String} : decode units = some s ↔ encode s = units := by
  rw [decode, Option.map_eq_some_iff, encode, ← decodeChars_eq_some_iff]
  constructor
  · rintro ⟨cs, hcs, rfl⟩
    rw [String.toList_ofList]
    exact hcs
  · intro h
    exact ⟨s.toList, h, String.ofList_toList⟩

/-! ## Pairs of surrogates -/

/-- No units are well paired. -/
theorem wellPaired_nil : WellPaired [] :=
  ⟨by simp, by simp⟩

/-- A unit that is no surrogate can be left off in front. -/
theorem wellPaired_unit_iff (hhigh : isHigh u = false) (hlow : isLow u = false) :
    WellPaired (u :: r) ↔ WellPaired r := by
  constructor
  · intro h
    refine ⟨fun i high hi hh => ?_, fun i low hi hl => ?_⟩
    · simpa using h.followed (i + 1) high (by simpa using hi) hh
    · obtain ⟨j, high, hj, hget, hh⟩ := h.preceded (i + 1) low (by simpa using hi) hl
      obtain rfl : i = j := by omega
      cases i with
      | zero =>
        simp only [List.getElem?_cons_zero, Option.some.injEq] at hget
        rw [hget, hh] at hhigh
        cases hhigh
      | succ i => exact ⟨i, high, rfl, by simpa using hget, hh⟩
  · intro h
    refine ⟨fun i high hi hh => ?_, fun i low hi hl => ?_⟩
    · cases i with
      | zero =>
        simp only [List.getElem?_cons_zero, Option.some.injEq] at hi
        rw [hi, hh] at hhigh
        cases hhigh
      | succ i => simpa using h.followed i high (by simpa using hi) hh
    · cases i with
      | zero =>
        simp only [List.getElem?_cons_zero, Option.some.injEq] at hi
        rw [hi, hl] at hlow
        cases hlow
      | succ i =>
        obtain ⟨j, high, rfl, hget, hh⟩ := h.preceded i low (by simpa using hi) hl
        exact ⟨j + 1, high, rfl, by simpa using hget, hh⟩

/-- A pair can be left off in front. -/
theorem wellPaired_pair_iff (hu : isHigh u = true) (hv : isLow v = true) :
    WellPaired (u :: v :: r) ↔ WellPaired r := by
  have hu' := not_isLow_of_isHigh hu
  have hv' : isHigh v = false := by
    rw [Bool.eq_false_iff]
    intro hhigh
    rw [not_isLow_of_isHigh hhigh] at hv
    cases hv
  constructor
  · intro h
    refine ⟨fun i high hi hh => ?_, fun i low hi hl => ?_⟩
    · simpa using h.followed (i + 2) high (by simpa using hi) hh
    · obtain ⟨j, high, hj, hget, hh⟩ := h.preceded (i + 2) low (by simpa using hi) hl
      -- A low surrogate right behind the pair would have the low one of the pair for its high one.
      obtain rfl : j = i + 1 := by omega
      cases i with
      | zero =>
        simp only [List.getElem?_cons_succ, List.getElem?_cons_zero, Option.some.injEq] at hget
        rw [hget, hh] at hv'
        cases hv'
      | succ i => exact ⟨i, high, rfl, by simpa using hget, hh⟩
  · intro h
    refine ⟨fun i high hi hh => ?_, fun i low hi hl => ?_⟩
    · match i with
      | 0 => exact ⟨v, rfl, hv⟩
      | 1 =>
        simp only [List.getElem?_cons_succ, List.getElem?_cons_zero, Option.some.injEq] at hi
        rw [hi, hh] at hv'
        cases hv'
      | i + 2 => simpa using h.followed i high (by simpa using hi) hh
    · match i with
      | 0 =>
        simp only [List.getElem?_cons_zero, Option.some.injEq] at hi
        rw [hi, hl] at hu'
        cases hu'
      | 1 => exact ⟨0, u, rfl, rfl, hu⟩
      | i + 2 =>
        obtain ⟨j, high, rfl, hget, hh⟩ := h.preceded i low (by simpa using hi) hl
        exact ⟨j + 2, high, rfl, by simpa using hget, hh⟩

/-- A low surrogate in front has no high one before it. -/
theorem not_wellPaired_of_isLow (hu : isLow u = true) : ¬ WellPaired (u :: r) := by
  intro h
  obtain ⟨j, high, hj, -⟩ := h.preceded 0 u rfl hu
  omega

/-- A high surrogate in front needs a low one behind it. -/
theorem not_wellPaired_of_isHigh (hu : isHigh u = true) (hr : ∀ v, r.head? = some v → isLow v = false) :
    ¬ WellPaired (u :: r) := by
  intro h
  obtain ⟨low, hlow, hl⟩ := h.followed 0 u rfl hu
  rw [hr low (by simpa [List.head?_eq_getElem?] using hlow)] at hl
  cases hl

/-- Units are read exactly if they are well paired. -/
theorem isSome_decodeChars_iff (units : List UInt16) :
    (decodeChars units).isSome = true ↔ WellPaired units := by
  fun_induction decodeChars units with
  | case1 => simp [wellPaired_nil]
  | case2 u hsurrogate =>
    simp only [Option.isSome_none, Bool.false_eq_true, false_iff]
    obtain hu | hu := Bool.or_eq_true_iff.1 hsurrogate
    · exact not_wellPaired_of_isHigh hu (by simp)
    · exact not_wellPaired_of_isLow hu
  | case3 u hplain =>
    simp only [Bool.or_eq_true, not_or, Bool.not_eq_true] at hplain
    simp [wellPaired_unit_iff hplain.1 hplain.2, wellPaired_nil]
  | case4 u v r hu hv ih => rw [Option.isSome_map, ih, wellPaired_pair_iff hu hv]
  | case5 u v r hu hv =>
    simp only [Option.isSome_none, Bool.false_eq_true, false_iff]
    exact not_wellPaired_of_isHigh hu (by simpa using hv)
  | case6 u v r hhigh hu =>
    simp only [Option.isSome_none, Bool.false_eq_true, false_iff]
    exact not_wellPaired_of_isLow hu
  | case7 u v r hhigh hlow ih =>
    rw [Option.isSome_map, ih]
    exact (wellPaired_unit_iff (by simpa using hhigh) (by simpa using hlow)).symm

end Utf16

/-! ## Texts on wide platforms -/

/-- Units are accepted as a text exactly if they are the units of the text. -/
theorem ofWide_eq_ok_iff {units : List UInt16} {s : String} : ofWide units = .ok s ↔ toWide s = units := by
  rw [toWide, ← Utf16.decode_eq_some_iff, ofWide]
  cases Utf16.decode units with
  | none => simp
  | some t => simp

/-- Units are accepted exactly if they are well paired. -/
theorem exists_ofWide_iff {units : List UInt16} :
    (∃ s, ofWide units = .ok s) ↔ Utf16.WellPaired units := by
  rw [← Utf16.isSome_decodeChars_iff, ofWide, Utf16.decode]
  cases Utf16.decodeChars units with
  | none => simp
  | some cs => simp

/-- **Well-paired units and texts stand for each other one to one.** Units are read exactly if every high
surrogate is directly followed by a low one and every low surrogate directly preceded by a high one. The text
that is read is the one that is written with these units, every text is read back from its units, and texts that
are joined are written one after the other. -/
theorem wide_units_spell_texts :
    (∀ units, (∃ s, ofWide units = .ok s) ↔ Utf16.WellPaired units) ∧
    (∀ units s, ofWide units = .ok s ↔ toWide s = units) ∧
    (∀ s, ofWide (toWide s) = .ok s) ∧
    Set.BijOn ofWide {units | Utf16.WellPaired units} (Set.range Except.ok) ∧
    ∀ s t, toWide (s ++ t) = toWide s ++ toWide t := by
  have hback (s : String) : ofWide (toWide s) = .ok s := ofWide_eq_ok_iff.2 rfl
  refine ⟨fun _ => exists_ofWide_iff, fun _ _ => ofWide_eq_ok_iff, hback, ⟨?_, ?_, ?_⟩, Utf16.encode_append⟩
  · intro units hunits
    obtain ⟨s, hs⟩ := exists_ofWide_iff.2 hunits
    exact ⟨s, hs.symm⟩
  · intro units hunits units' hunits' heq
    obtain ⟨s, hs⟩ := exists_ofWide_iff.2 hunits
    rw [← ofWide_eq_ok_iff.1 hs, ← ofWide_eq_ok_iff.1 (heq.symm.trans hs)]
  · rintro - ⟨s, rfl⟩
    exact ⟨toWide s, exists_ofWide_iff.1 ⟨s, hback s⟩, hback s⟩

example : ofWide [0xD83C, 0xDFAE] = .ok "🎮" ∧ ofWide [0xDFAE, 0xD83C] = .error .invalidUnicode ∧
    ofWide [0x0041, 0xD800] = .error .invalidUnicode := by
  decide

end PortableLayout.Text
