import PortableLayout.Proofs.Text.Scalar
import PortableLayout.Text.LowerCase

/-!
# Words in ASCII letters and their lower case

The lower case of a text knows all letters there are, and yet a text outside ASCII hardly ever has a lower case within
it. A run of the table leads from ASCII to ASCII or stays outside, but for the one of the Kelvin sign, which leads to
`k` (`runs_keep_apart`); the capital I with a dot leads to an `i`, but with a combining dot behind it. So a character
outside ASCII leaves a character outside ASCII, or a `k`, wherever it stands (`exists_mem_lowerBehind`). A word in small
ASCII letters, none of them a `k`, is therefore the lower case of the texts that spell it in capital and small ASCII
letters, and of no others (`lower_eq_iff`).
-/

set_option autoImplicit false

namespace PortableLayout.Text

/-- A text of ASCII characters. -/
def IsAscii (s : String) : Prop :=
  ∀ c ∈ s.toList, c.toNat < 128

/-- Two texts that are equal up to the case of ASCII letters. -/
def SameLetters (s t : String) : Prop :=
  s.toList.map Char.toLower = t.toList.map Char.toLower

/-- Whether two texts have the same letters can be computed. -/
instance (s t : String) : Decidable (SameLetters s t) :=
  inferInstanceAs (Decidable (s.toList.map Char.toLower = t.toList.map Char.toLower))

/-- What has an ASCII letter for its small letter is one. -/
theorem lt_of_toLower_lt {c : Char} (h : c.toLower.toNat < 128) : c.toNat < 128 := by
  unfold Char.toLower at h
  split at h
  · next hcapital => exact Nat.lt_of_le_of_lt (UInt32.le_iff_toNat_le.1 hcapital.2) (by decide)
  · exact h

/-- A text with the letters of an ASCII text is one itself. -/
theorem SameLetters.isAscii {s t : String} (h : SameLetters s t) (ht : ∀ c ∈ t.toList, c.toLower.toNat < 128) :
    IsAscii s := by
  intro c hc
  have hletters : s.toList.map Char.toLower = t.toList.map Char.toLower := h
  have hmem : c.toLower ∈ t.toList.map Char.toLower := by
    rw [← hletters]
    exact List.mem_map_of_mem hc
  obtain ⟨e, he, hlower⟩ := List.mem_map.1 hmem
  exact lt_of_toLower_lt (hlower ▸ ht e he)

namespace LowerCase

variable {c : Char} {before after cs : List Char}

/-! ## One character -/

/-- The lower case of an ASCII character is the one that ASCII has. -/
theorem ofChar_of_ascii (h : c.toNat < 128) : ofChar c = [c.toLower] := by
  have hall : ∀ n : Fin 128, ofChar (Char.ofNat n) = [(Char.ofNat n).toLower] := by decide +kernel
  rw [← Char.ofNat_toNat c]
  exact hall ⟨c.toNat, h⟩

/-- A run begins and ends within ASCII, or it is that of the Kelvin sign, or it leads to characters outside ASCII. -/
theorem runs_keep_apart : ∀ r ∈ runs,
    r.last < 128 ∨ r = ⟨0x212A, 0x212A, 1, -8383⟩ ∨
      128 ≤ r.first + r.shift ∧
        (r.last + r.shift < 0xD800 ∨ 0xDFFF < r.first + r.shift ∧ r.last + r.shift < 0x110000) := by
  decide +kernel

/-- A run has the numbers from its first to its last, in steps. -/
theorem Run.has_iff {r : Run} {n : Nat} :
    r.has n = true ↔ (r.first ≤ n ∧ n ≤ r.last) ∧ (n - r.first) % r.step = 0 := by
  simp [Run.has]

/-- A character outside ASCII is not made ASCII by the table, unless it is the Kelvin sign. -/
theorem shifted_of_has {r : Run} (hr : r ∈ runs) (hhas : r.has c.toNat = true) (h : 128 ≤ c.toNat) :
    128 ≤ (Char.ofNat (c.toNat + r.shift).toNat).toNat ∨ Char.ofNat (c.toNat + r.shift).toNat = 'k' := by
  obtain ⟨⟨hfirst, hlast⟩, -⟩ := Run.has_iff.1 hhas
  obtain hascii | rfl | ⟨hout, hvalid⟩ := runs_keep_apart r hr
  · omega
  · have hkelvin : c.toNat = 0x212A := Nat.le_antisymm hlast hfirst
    rw [hkelvin]
    exact .inr (by decide)
  · have hchar : (c.toNat + r.shift).toNat.isValidChar := by
      unfold Nat.isValidChar
      omega
    rw [toNat_ofNat_of_isValidChar hchar]
    exact .inl (by omega)

/-- The lower case of a character beyond ASCII has one beyond ASCII in it, or is the `k` of the Kelvin sign. -/
theorem exists_mem_ofChar (h : 128 ≤ c.toNat) : ∃ e ∈ ofChar c, 128 ≤ e.toNat ∨ e = 'k' := by
  unfold ofChar
  split
  · exact ⟨'\u0307', by simp, .inl (by decide)⟩
  · cases hfind : runs.find? (·.has c.toNat) with
    | none => exact ⟨c, by simp, .inl h⟩
    | some r =>
      have hhas : r.has c.toNat = true := by simpa using List.find?_some hfind
      exact ⟨_, List.mem_singleton_self _, shifted_of_has (List.mem_of_find?_eq_some hfind) hhas h⟩

/-- The Kelvin sign is the exception. -/
example : ofChar '\u212A' = ['k'] := by decide +kernel

/-! ## Whole texts -/

/-- The lower case of characters that stand behind others, of which the nearest is first. -/
def lowerBehind (before : List Char) : List Char → List Char
  | [] => []
  | c :: after => within before c after ++ lowerBehind (c :: before) after

/-- What is gone over is the lower case of what is left, put onto what is done. -/
theorem lowerOnto_eq (done before cs : List Char) :
    lowerOnto done before cs = (lowerBehind before cs).reverse ++ done := by
  induction cs generalizing done before with
  | nil => rfl
  | cons c after ih => rw [lowerOnto, ih, lowerBehind, List.reverse_append, List.append_assoc]

/-- The lower case of a text is that of its characters with nothing before them. -/
theorem toList_lower (s : String) : (lower s).toList = lowerBehind [] s.toList := by
  rw [lower, lowerOnto_eq, List.append_nil, List.reverse_reverse, String.toList_ofList]

/-- Between any others, an ASCII character has the lower case that ASCII has. -/
theorem within_of_ascii (h : c.toNat < 128) : within before c after = [c.toLower] := by
  have hsigma : c ≠ '\u03A3' := by
    rintro rfl
    exact absurd h (by decide)
  rw [within, if_neg hsigma, ofChar_of_ascii h]

/-- Between any others, the lower case of a character beyond ASCII has one beyond ASCII in it, or a `k`. -/
theorem exists_mem_within (before after : List Char) (h : 128 ≤ c.toNat) :
    ∃ e ∈ within before c after, 128 ≤ e.toNat ∨ e = 'k' := by
  unfold within
  split
  · -- Both forms of the small sigma are outside ASCII.
    refine ⟨_, List.mem_singleton_self _, .inl ?_⟩
    split <;> decide
  · exact exists_mem_ofChar h

/-- The lower case of ASCII characters is that of each of them. -/
theorem lowerBehind_of_ascii (h : ∀ c ∈ cs, c.toNat < 128) : lowerBehind before cs = cs.map Char.toLower := by
  induction cs generalizing before with
  | nil => rfl
  | cons c after ih =>
    obtain ⟨hc, hafter⟩ := List.forall_mem_cons.1 h
    rw [lowerBehind, within_of_ascii hc, ih hafter, List.map_cons, List.singleton_append]

/-- The lower case of characters of which one is beyond ASCII has one beyond ASCII in it, or a `k`. -/
theorem exists_mem_lowerBehind (before : List Char) (hc : c ∈ cs) (h : 128 ≤ c.toNat) :
    ∃ e ∈ lowerBehind before cs, 128 ≤ e.toNat ∨ e = 'k' := by
  induction cs generalizing before with
  | nil => cases hc
  | cons d after ih =>
    rw [lowerBehind]
    obtain rfl | hc := List.mem_cons.1 hc
    · obtain ⟨e, he, hout⟩ := exists_mem_within before after h
      exact ⟨e, List.mem_append_left _ he, hout⟩
    · obtain ⟨e, he, hout⟩ := ih (d :: before) hc
      exact ⟨e, List.mem_append_right _ he, hout⟩

/-- A word in small ASCII letters, none of them a `k`. -/
def IsPlainWord (w : String) : Prop :=
  ∀ c ∈ w.toList, c.toNat < 128 ∧ c ≠ 'k' ∧ c.toLower = c

/-- A plain word is in lower case. -/
theorem IsPlainWord.map_toLower {w : String} (hw : IsPlainWord w) : w.toList.map Char.toLower = w.toList :=
  (List.map_congr_left fun c hc => (hw c hc).2.2).trans (List.map_id _)

/-- The lower case of each of its letters is an ASCII character. -/
theorem IsPlainWord.toLower_lt {w : String} (hw : IsPlainWord w) : ∀ c ∈ w.toList, c.toLower.toNat < 128 := by
  intro c hc
  obtain ⟨hascii, -, hsmall⟩ := hw c hc
  rwa [hsmall]

/-- The texts that have such a word for their lower case are those that are equal to it up to the case of ASCII
letters. -/
theorem lower_eq_iff {s w : String} (hw : IsPlainWord w) : lower s = w ↔ SameLetters s w := by
  rw [← String.toList_inj, toList_lower, SameLetters, hw.map_toLower]
  constructor
  · intro h
    have hascii : ∀ c ∈ s.toList, c.toNat < 128 := by
      intro c hc
      refine Nat.lt_of_not_le fun hout => ?_
      obtain ⟨e, he, hfar⟩ := exists_mem_lowerBehind [] hc hout
      obtain ⟨hnear, hk, -⟩ := hw e (h ▸ he)
      exact hfar.elim (Nat.not_le.2 hnear) hk
    rw [← h, lowerBehind_of_ascii hascii]
  · intro h
    have hsame : SameLetters s w := h.trans hw.map_toLower.symm
    rw [lowerBehind_of_ascii (hsame.isAscii hw.toLower_lt), h]

end LowerCase

end PortableLayout.Text
