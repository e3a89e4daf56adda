import PortableLayout.Proofs.Text.Scalar
import PortableLayout.Text.Utf8

/-!
# The forms of a scalar value

A number is laid out in one of four forms, one to four bytes long, and a scalar value is written in the
shortest form that has room for it. The first segment of a byte sequence is a scalar value exactly if such a
form stands there (`front_of_writes`, `eq_append_of_front`). A form that is longer than needed, one that holds a
surrogate or a number above 10FFFF (`front_of_not_writes`) and one that is broken off (`front_of_broken`) are
ill-formed.
-/

set_option autoImplicit false

namespace PortableLayout.Text.Utf8

/-- The lengths in which a number can be laid out. -/
inductive Form where
  | one
  | two
  | three
  | four
  deriving DecidableEq, Repr

namespace Form

/-- A form has room for the numbers below this one. -/
def limit : Form → Nat
  | one => 0x80
  | two => 0x800
  | three => 0x10000
  | four => 0x200000

/-- The least number for which no shorter form has room. -/
def least : Form → Nat
  | one => 0
  | two => 0x80
  | three => 0x800
  | four => 0x10000

/-- A number laid out in a form, whether or not a scalar value is written so. -/
def layout : Form → Nat → List UInt8
  | one, n => [.ofNat n]
  | two, n => [.ofNat (0xC0 + n / 64), .ofNat (0x80 + n % 64)]
  | three, n => [.ofNat (0xE0 + n / 4096), .ofNat (0x80 + n / 64 % 64), .ofNat (0x80 + n % 64)]
  | four, n =>
    [.ofNat (0xF0 + n / 262144), .ofNat (0x80 + n / 4096 % 64), .ofNat (0x80 + n / 64 % 64),
      .ofNat (0x80 + n % 64)]

/-- A number is written in a form if it is that of a scalar value and needs the form. -/
def Writes (form : Form) (n : Nat) : Prop :=
  form.least ≤ n ∧ n < form.limit ∧ n.isValidChar

end Form

variable {b b₁ b₂ b₃ : UInt8} {r rest : List UInt8} {c : Char} {n : Nat} {form : Form}

/-! ## Scalar values and their forms -/

/-- A scalar value is encoded as its number is laid out in the form that it needs. -/
theorem encodeChar_of_writes (h : form.Writes n) : encodeChar (Char.ofNat n) = form.layout n := by
  obtain ⟨hleast, hlimit, hvalid⟩ := h
  unfold encodeChar
  rw [toNat_ofNat_of_isValidChar hvalid]
  cases form with
  | one => exact if_pos hlimit
  | two =>
    have h₁ : ¬ n < 0x80 := Nat.not_lt.2 hleast
    simp only [if_neg h₁]
    exact if_pos hlimit
  | three =>
    have h₂ : ¬ n < 0x800 := Nat.not_lt.2 hleast
    have h₁ : ¬ n < 0x80 := by omega
    simp only [if_neg h₁, if_neg h₂]
    exact if_pos hlimit
  | four =>
    have h₃ : ¬ n < 0x10000 := Nat.not_lt.2 hleast
    have h₂ : ¬ n < 0x800 := by omega
    have h₁ : ¬ n < 0x80 := by omega
    simp only [if_neg h₁, if_neg h₂, if_neg h₃]
    rfl

/-- Every scalar value needs some form. -/
theorem exists_writes (hvalid : n.isValidChar) : ∃ form : Form, form.Writes n := by
  have hbound : n < 0x110000 := by
    unfold Nat.isValidChar at hvalid
    omega
  by_cases h₁ : n < 0x80
  · exact ⟨.one, Nat.zero_le n, h₁, hvalid⟩
  by_cases h₂ : n < 0x800
  · exact ⟨.two, Nat.not_lt.1 h₁, h₂, hvalid⟩
  by_cases h₃ : n < 0x10000
  · exact ⟨.three, Nat.not_lt.1 h₂, h₃, hvalid⟩
  · exact ⟨.four, Nat.not_lt.1 h₃, Nat.lt_trans hbound (by decide), hvalid⟩

/-- A scalar value is written in one of the forms. -/
theorem exists_form (c : Char) : ∃ form : Form, form.Writes c.toNat ∧ encodeChar c = form.layout c.toNat := by
  obtain ⟨form, h⟩ := exists_writes (isValidChar_toNat c)
  have hlayout := encodeChar_of_writes h
  rw [Char.ofNat_toNat] at hlayout
  exact ⟨form, h, hlayout⟩

/-- The bytes of a scalar value are those that the core library gives. -/
theorem encodeChar_eq_utf8EncodeChar (c : Char) : encodeChar c = String.utf8EncodeChar c := by
  obtain ⟨form, ⟨hleast, hlimit, -⟩, hlayout⟩ := exists_form c
  rw [hlayout]
  unfold String.utf8EncodeChar
  simp only [Char.toNat_val]
  cases form with
  | one =>
    have h₁ : c.toNat ≤ 127 := Nat.le_of_lt_succ hlimit
    rw [if_pos h₁]
    rfl
  | two =>
    simp only [Form.least, Form.limit] at hleast hlimit
    have h₁ : ¬ c.toNat ≤ 127 := by omega
    have h₂ : c.toNat ≤ 2047 := by omega
    have hlead : c.toNat / 64 % 32 + 192 = 0xC0 + c.toNat / 64 := by omega
    rw [if_neg h₁, if_pos h₂, hlead, Nat.add_comm _ 128]
    rfl
  | three =>
    simp only [Form.least, Form.limit] at hleast hlimit
    have h₁ : ¬ c.toNat ≤ 127 := by omega
    have h₂ : ¬ c.toNat ≤ 2047 := by omega
    have h₃ : c.toNat ≤ 65535 := by omega
    have hlead : c.toNat / 4096 % 16 + 224 = 0xE0 + c.toNat / 4096 := by omega
    rw [if_neg h₁, if_neg h₂, if_pos h₃, hlead, Nat.add_comm _ 128, Nat.add_comm _ 128]
    rfl
  | four =>
    simp only [Form.least, Form.limit] at hleast hlimit
    have h₁ : ¬ c.toNat ≤ 127 := by omega
    have h₂ : ¬ c.toNat ≤ 2047 := by omega
    have h₃ : ¬ c.toNat ≤ 65535 := by omega
    have hlead : c.toNat / 262144 % 8 + 240 = 0xF0 + c.toNat / 262144 := by omega
    rw [if_neg h₁, if_neg h₂, if_neg h₃, hlead, Nat.add_comm _ 128, Nat.add_comm _ 128, Nat.add_comm _ 128]
    rfl

/-! ## The first segment -/

/-- Tail bytes are those from 80 to BF. -/
theorem isTail_iff : isTail b = true ↔ 0x80 ≤ b.toNat ∧ b.toNat ≤ 0xBF := by
  simp [isTail, UInt8.le_iff_toNat_le]

/-- The second bytes that a lead allows. -/
theorem follows_iff : follows b b₁ = true ↔
    (0x80 ≤ b₁.toNat ∧ b₁.toNat ≤ 0xBF) ∧ (b.toNat = 0xE0 → 0xA0 ≤ b₁.toNat) ∧
      (b.toNat = 0xED → b₁.toNat ≤ 0x9F) ∧ (b.toNat = 0xF0 → 0x90 ≤ b₁.toNat) ∧
      (b.toNat = 0xF4 → b₁.toNat ≤ 0x8F) := by
  simp only [follows, Bool.and_eq_true, isTail_iff, ← UInt8.toNat_inj]
  split
  · next h => simp_all [UInt8.le_iff_toNat_le]
  split
  · next h => simp_all [UInt8.le_iff_toNat_le]
  split
  · next h => simp_all [UInt8.le_iff_toNat_le]
  split
  · next h => simp_all [UInt8.le_iff_toNat_le]
  · simp_all

/-- A byte below 80 is a scalar value by itself. -/
theorem front_one (h : b.toNat < 0x80) : front b r = .scalar (Char.ofNat b.toNat) r := by
  unfold front
  exact if_pos h

/-- A lead byte of two is a scalar value with one tail byte. -/
theorem front_two (h : 0xC2 ≤ b.toNat ∧ b.toNat ≤ 0xDF) :
    front b (b₁ :: r) =
      if isTail b₁ then .scalar (Char.ofNat ((b.toNat - 0xC0) * 64 + (b₁.toNat - 0x80))) r
      else .illFormed (b₁ :: r) := by
  have h₁ : ¬ b.toNat < 0x80 := by omega
  unfold front
  rw [if_neg (show ¬ b < 0x80 from h₁)]
  exact if_pos h

/-- A lead byte of three is a scalar value with a second byte that may follow and one tail byte. -/
theorem front_three (h : 0xE0 ≤ b.toNat ∧ b.toNat ≤ 0xEF) :
    front b (b₁ :: r) =
      if follows b b₁ then
        match r with
        | b₂ :: r₂ =>
          if isTail b₂ then
            .scalar (Char.ofNat
              ((b.toNat - 0xE0) * 4096 + (b₁.toNat - 0x80) * 64 + (b₂.toNat - 0x80))) r₂
          else .illFormed r
        | [] => .illFormed []
      else .illFormed (b₁ :: r) := by
  have h₁ : ¬ b.toNat < 0x80 := by omega
  have h₂ : ¬ (0xC2 ≤ b.toNat ∧ b.toNat ≤ 0xDF) := by omega
  unfold front
  rw [if_neg (show ¬ b < 0x80 from h₁), if_neg (show ¬ (0xC2 ≤ b ∧ b ≤ 0xDF) from h₂)]
  exact if_pos h

/-- A lead byte of four is a scalar value with a second byte that may follow and two tail bytes. -/
theorem front_four (h : 0xF0 ≤ b.toNat ∧ b.toNat ≤ 0xF4) :
    front b (b₁ :: r) =
      if follows b b₁ then
        match r with
        | b₂ :: r₂ =>
          if isTail b₂ then
            match r₂ with
            | b₃ :: r₃ =>
              if isTail b₃ then
                .scalar (Char.ofNat
                  ((b.toNat - 0xF0) * 262144 + (b₁.toNat - 0x80) * 4096 +
                    (b₂.toNat - 0x80) * 64 + (b₃.toNat - 0x80))) r₃
              else .illFormed r₂
            | [] => .illFormed []
          else .illFormed r
        | [] => .illFormed []
      else .illFormed (b₁ :: r) := by
  have h₁ : ¬ b.toNat < 0x80 := by omega
  have h₂ : ¬ (0xC2 ≤ b.toNat ∧ b.toNat ≤ 0xDF) := by omega
  have h₃ : ¬ (0xE0 ≤ b.toNat ∧ b.toNat ≤ 0xEF) := by omega
  unfold front
  rw [if_neg (show ¬ b < 0x80 from h₁), if_neg (show ¬ (0xC2 ≤ b ∧ b ≤ 0xDF) from h₂),
    if_neg (show ¬ (0xE0 ≤ b ∧ b ≤ 0xEF) from h₃)]
  exact if_pos h

/-- A byte that leads no form. -/
theorem front_of_no_lead (h : 0x80 ≤ b.toNat ∧ b.toNat < 0xC2 ∨ 0xF4 < b.toNat) : front b r = .illFormed r := by
  have h₁ : ¬ b.toNat < 0x80 := by omega
  have h₂ : ¬ (0xC2 ≤ b.toNat ∧ b.toNat ≤ 0xDF) := by omega
  have h₃ : ¬ (0xE0 ≤ b.toNat ∧ b.toNat ≤ 0xEF) := by omega
  have h₄ : ¬ (0xF0 ≤ b.toNat ∧ b.toNat ≤ 0xF4) := by omega
  unfold front
  rw [if_neg (show ¬ b < 0x80 from h₁), if_neg (show ¬ (0xC2 ≤ b ∧ b ≤ 0xDF) from h₂),
    if_neg (show ¬ (0xE0 ≤ b ∧ b ≤ 0xEF) from h₃)]
  exact if_neg h₄

/-- Alone at the end, a byte from 80 on is ill-formed. -/
theorem front_nil (h : 0x80 ≤ b.toNat) : front b [] = .illFormed [] := by
  have h₁ : ¬ b.toNat < 0x80 := Nat.not_lt.2 h
  unfold front
  rw [if_neg (show ¬ b < 0x80 from h₁)]
  split
  · rfl
  split
  · rfl
  split
  · rfl
  · rfl

/-- The bytes that a segment can begin with. -/
theorem lead_cases (b : UInt8) :
    b.toNat < 0x80 ∨ (0xC2 ≤ b.toNat ∧ b.toNat ≤ 0xDF) ∨ (0xE0 ≤ b.toNat ∧ b.toNat ≤ 0xEF) ∨
      (0xF0 ≤ b.toNat ∧ b.toNat ≤ 0xF4) ∨ (0x80 ≤ b.toNat ∧ b.toNat < 0xC2 ∨ 0xF4 < b.toNat) := by
  omega

/-- A lead that no tail follows stands alone. -/
theorem front_of_no_tail (h : 0x80 ≤ b.toNat) (hr : ∀ b₁, r.head? = some b₁ → isTail b₁ = false) :
    front b r = .illFormed r := by
  cases r with
  | nil => exact front_nil h
  | cons b₁ r =>
    have htail : isTail b₁ = false := hr b₁ rfl
    have hfollows : follows b b₁ = false := by simp [follows, htail]
    obtain hb | hb | hb | hb | hb := lead_cases b
    · omega
    · rw [front_two hb, htail]
      rfl
    · rw [front_three hb, hfollows]
      rfl
    · rw [front_four hb, hfollows]
      rfl
    · exact front_of_no_lead hb

/-- A lead of three or four bytes and the byte behind it are no scalar value without a third one. -/
theorem front_of_no_third (h : 0xE0 ≤ b.toNat) (hr : ∀ b₂, r.head? = some b₂ → isTail b₂ = false) :
    ∃ rest, front b (b₁ :: r) = .illFormed rest := by
  obtain hb | hb | hb | hb | hb := lead_cases b
  · omega
  · omega
  · rw [front_three hb]
    split
    · cases r with
      | nil => exact ⟨_, rfl⟩
      | cons b₂ r => exact ⟨_, if_neg (by simp [hr b₂ rfl])⟩
    · exact ⟨_, rfl⟩
  · rw [front_four hb]
    split
    · cases r with
      | nil => exact ⟨_, rfl⟩
      | cons b₂ r => exact ⟨_, if_neg (by simp [hr b₂ rfl])⟩
    · exact ⟨_, rfl⟩
  · exact ⟨_, front_of_no_lead hb⟩

/-- A lead of four bytes and the two bytes behind it are no scalar value without a fourth one. -/
theorem front_of_no_fourth (h : 0xF0 ≤ b.toNat) (hr : ∀ b₃, r.head? = some b₃ → isTail b₃ = false) :
    ∃ rest, front b (b₁ :: b₂ :: r) = .illFormed rest := by
  obtain hb | hb | hb | hb | hb := lead_cases b
  · omega
  · omega
  · omega
  · rw [front_four hb]
    split
    · dsimp only
      split
      · cases r with
        | nil => exact ⟨_, rfl⟩
        | cons b₃ r => exact ⟨_, if_neg (by simp [hr b₃ rfl])⟩
      · exact ⟨_, rfl⟩
    · exact ⟨_, rfl⟩
  · exact ⟨_, front_of_no_lead hb⟩

/-! ## Numbers in their forms -/

/-- A number below 256 is that of its byte. -/
theorem toNat_ofNat_of_lt {k : Nat} (h : k < 256) : (UInt8.ofNat k).toNat = k :=
  UInt8.toNat_ofNat_of_lt' h

/-- The number of a tail byte is 80 and its six bits. -/
theorem toNat_tail (k : Nat) : (UInt8.ofNat (0x80 + k % 64)).toNat = 0x80 + k % 64 :=
  toNat_ofNat_of_lt (by omega)

/-- With six bits a tail byte is one. -/
theorem isTail_tail (k : Nat) : isTail (.ofNat (0x80 + k % 64)) = true := by
  rw [isTail_iff, toNat_tail]
  omega

/-- Where a number stands in the form that it needs, the reading meets its scalar value. -/
theorem front_of_writes (h : form.Writes n) :
    ∃ lead tails, form.layout n = lead :: tails ∧
      ∀ r, front lead (tails ++ r) = .scalar (Char.ofNat n) r := by
  obtain ⟨hleast, hlimit, hvalid⟩ := h
  unfold Nat.isValidChar at hvalid
  cases form with
  | one =>
    simp only [Form.limit] at hlimit
    have hb : (UInt8.ofNat n).toNat = n := toNat_ofNat_of_lt (by omega)
    refine ⟨_, [], rfl, fun r => ?_⟩
    rw [List.nil_append, front_one (by omega), hb]
  | two =>
    simp only [Form.least, Form.limit] at hleast hlimit
    have hb : (UInt8.ofNat (0xC0 + n / 64)).toNat = 0xC0 + n / 64 := toNat_ofNat_of_lt (by omega)
    have hn : (0xC0 + n / 64 - 0xC0) * 64 + (0x80 + n % 64 - 0x80) = n := by omega
    refine ⟨_, _, rfl, fun r => ?_⟩
    rw [List.singleton_append, front_two (by omega), if_pos (isTail_tail n), hb, toNat_tail, hn]
  | three =>
    simp only [Form.least, Form.limit] at hleast hlimit
    have hb : (UInt8.ofNat (0xE0 + n / 4096)).toNat = 0xE0 + n / 4096 := toNat_ofNat_of_lt (by omega)
    have hfollows : follows (.ofNat (0xE0 + n / 4096)) (.ofNat (0x80 + n / 64 % 64)) = true := by
      rw [follows_iff, hb, toNat_tail]
      omega
    have hn : (0xE0 + n / 4096 - 0xE0) * 4096 + (0x80 + n / 64 % 64 - 0x80) * 64 + (0x80 + n % 64 - 0x80) = n := by
      omega
    refine ⟨_, _, rfl, fun r => ?_⟩
    rw [List.cons_append, List.singleton_append, front_three (by omega), if_pos hfollows]
    simp only [if_pos (isTail_tail n), hb, toNat_tail, hn]
  | four =>
    simp only [Form.least, Form.limit] at hleast hlimit
    have hb : (UInt8.ofNat (0xF0 + n / 262144)).toNat = 0xF0 + n / 262144 := toNat_ofNat_of_lt (by omega)
    have hfollows : follows (.ofNat (0xF0 + n / 262144)) (.ofNat (0x80 + n / 4096 % 64)) = true := by
      rw [follows_iff, hb, toNat_tail]
      omega
    have hn : (0xF0 + n / 262144 - 0xF0) * 262144 + (0x80 + n / 4096 % 64 - 0x80) * 4096 +
        (0x80 + n / 64 % 64 - 0x80) * 64 + (0x80 + n % 64 - 0x80) = n := by omega
    refine ⟨_, _, rfl, fun r => ?_⟩
    rw [List.cons_append, List.cons_append, List.singleton_append, front_four (by omega), if_pos hfollows]
    simp only [if_pos (isTail_tail n), if_pos (isTail_tail (n / 64)), hb, toNat_tail, hn]

/-- A number that is no scalar value's, or that has room in a shorter form, is ill-formed. -/
theorem front_of_not_writes (hlimit : n < form.limit) (h : ¬ form.Writes n) :
    ∃ lead tails, form.layout n = lead :: tails ∧ ∀ r, ∃ rest, front lead (tails ++ r) = .illFormed rest := by
  have hbad : form.least ≤ n → ¬ n.isValidChar := fun hleast hvalid => h ⟨hleast, hlimit, hvalid⟩
  unfold Nat.isValidChar at hbad
  cases form with
  | one =>
    simp only [Form.least, Form.limit] at hbad hlimit
    omega
  -- A number with room in a shorter form shows in the lead byte, or in the second one that it narrows.
  | two =>
    simp only [Form.least, Form.limit] at hbad hlimit
    have hb : (UInt8.ofNat (0xC0 + n / 64)).toNat = 0xC0 + n / 64 := toNat_ofNat_of_lt (by omega)
    refine ⟨_, _, rfl, fun r => ⟨_, front_of_no_lead ?_⟩⟩
    omega
  | three =>
    simp only [Form.least, Form.limit] at hbad hlimit
    have hb : (UInt8.ofNat (0xE0 + n / 4096)).toNat = 0xE0 + n / 4096 := toNat_ofNat_of_lt (by omega)
    have hfollows : ¬ follows (.ofNat (0xE0 + n / 4096)) (.ofNat (0x80 + n / 64 % 64)) = true := by
      rw [follows_iff, hb, toNat_tail]
      omega
    refine ⟨_, _, rfl, fun r => ?_⟩
    rw [List.cons_append, List.singleton_append, front_three (by omega), if_neg hfollows]
    exact ⟨_, rfl⟩
  | four =>
    simp only [Form.least, Form.limit] at hbad hlimit
    have hb : (UInt8.ofNat (0xF0 + n / 262144)).toNat = 0xF0 + n / 262144 := toNat_ofNat_of_lt (by omega)
    refine ⟨_, _, rfl, fun r => ?_⟩
    by_cases hlead : 0xF0 + n / 262144 ≤ 0xF4
    · have hfollows : ¬ follows (.ofNat (0xF0 + n / 262144)) (.ofNat (0x80 + n / 4096 % 64)) = true := by
        rw [follows_iff, hb, toNat_tail]
        omega
      rw [List.cons_append, List.cons_append, List.singleton_append, front_four (by omega), if_neg hfollows]
      exact ⟨_, rfl⟩
    · exact ⟨_, front_of_no_lead (by omega)⟩

/-- A form that is broken off is ill-formed. -/
theorem front_of_broken {k : Nat} (h : form.Writes n) (hpos : 0 < k) (hk : k < (form.layout n).length)
    (hr : ∀ b₁, r.head? = some b₁ → isTail b₁ = false) :
    ∃ lead tails, (form.layout n).take k = lead :: tails ∧ ∃ rest, front lead (tails ++ r) = .illFormed rest := by
  obtain ⟨hleast, hlimit, hvalid⟩ := h
  unfold Nat.isValidChar at hvalid
  cases form with
  | one =>
    simp only [Form.layout, List.length_singleton] at hk
    omega
  | two =>
    simp only [Form.least, Form.limit] at hleast hlimit
    have hb : (UInt8.ofNat (0xC0 + n / 64)).toNat = 0xC0 + n / 64 := toNat_ofNat_of_lt (by omega)
    obtain rfl : k = 1 := by
      simp only [Form.layout, List.length_cons, List.length_nil] at hk
      omega
    exact ⟨_, [], rfl, _, front_of_no_tail (by omega) hr⟩
  | three =>
    simp only [Form.least, Form.limit] at hleast hlimit
    have hb : (UInt8.ofNat (0xE0 + n / 4096)).toNat = 0xE0 + n / 4096 := toNat_ofNat_of_lt (by omega)
    obtain rfl | rfl : k = 1 ∨ k = 2 := by
      simp only [Form.layout, List.length_cons, List.length_nil] at hk
      omega
    · exact ⟨_, [], rfl, _, front_of_no_tail (by omega) hr⟩
    · exact ⟨_, [_], rfl, front_of_no_third (by omega) hr⟩
  | four =>
    simp only [Form.least, Form.limit] at hleast hlimit
    have hb : (UInt8.ofNat (0xF0 + n / 262144)).toNat = 0xF0 + n / 262144 := toNat_ofNat_of_lt (by omega)
    obtain rfl | rfl | rfl : k = 1 ∨ k = 2 ∨ k = 3 := by
      simp only [Form.layout, List.length_cons, List.length_nil] at hk
      omega
    · exact ⟨_, [], rfl, _, front_of_no_tail (by omega) hr⟩
    · exact ⟨_, [_], rfl, front_of_no_third (by omega) hr⟩
    · exact ⟨_, [_, _], rfl, front_of_no_fourth (by omega) hr⟩

/-! ## Bytes in one of the forms -/

/-- A lead byte of two and a tail byte are laid out from a scalar value that needs two. -/
theorem writes_two (hb : 0xC2 ≤ b.toNat ∧ b.toNat ≤ 0xDF) (h₁ : isTail b₁ = true)
    (hn : n = (b.toNat - 0xC0) * 64 + (b₁.toNat - 0x80)) :
    Form.two.Writes n ∧ Form.two.layout n = [b, b₁] := by
  rw [isTail_iff] at h₁
  have hlead : 0xC0 + n / 64 = b.toNat := by omega
  have hlast : 0x80 + n % 64 = b₁.toNat := by omega
  constructor
  · simp only [Form.Writes, Form.least, Form.limit, Nat.isValidChar]
    omega
  · simp only [Form.layout, hlead, hlast, UInt8.ofNat_toNat]

/-- A lead byte of three, a second byte that may follow and a tail byte are laid out from one that needs three. -/
theorem writes_three (hb : 0xE0 ≤ b.toNat ∧ b.toNat ≤ 0xEF) (h₁ : follows b b₁ = true) (h₂ : isTail b₂ = true)
    (hn : n = (b.toNat - 0xE0) * 4096 + (b₁.toNat - 0x80) * 64 + (b₂.toNat - 0x80)) :
    Form.three.Writes n ∧ Form.three.layout n = [b, b₁, b₂] := by
  rw [follows_iff] at h₁
  rw [isTail_iff] at h₂
  have hlead : 0xE0 + n / 4096 = b.toNat := by omega
  have hsecond : 0x80 + n / 64 % 64 = b₁.toNat := by omega
  have hlast : 0x80 + n % 64 = b₂.toNat := by omega
  constructor
  · simp only [Form.Writes, Form.least, Form.limit, Nat.isValidChar]
    omega
  · simp only [Form.layout, hlead, hsecond, hlast, UInt8.ofNat_toNat]

/-- A lead byte of four, a second byte that may follow and two tail bytes are laid out from one that needs four. -/
theorem writes_four (hb : 0xF0 ≤ b.toNat ∧ b.toNat ≤ 0xF4) (h₁ : follows b b₁ = true) (h₂ : isTail b₂ = true)
    (h₃ : isTail b₃ = true)
    (hn : n = (b.toNat - 0xF0) * 262144 + (b₁.toNat - 0x80) * 4096 + (b₂.toNat - 0x80) * 64 +
      (b₃.toNat - 0x80)) :
    Form.four.Writes n ∧ Form.four.layout n = [b, b₁, b₂, b₃] := by
  rw [follows_iff] at h₁
  rw [isTail_iff] at h₂ h₃
  have hlead : 0xF0 + n / 262144 = b.toNat := by omega
  have hsecond : 0x80 + n / 4096 % 64 = b₁.toNat := by omega
  have hthird : 0x80 + n / 64 % 64 = b₂.toNat := by omega
  have hlast : 0x80 + n % 64 = b₃.toNat := by omega
  constructor
  · simp only [Form.Writes, Form.least, Form.limit, Nat.isValidChar]
    omega
  · simp only [Form.layout, hlead, hsecond, hthird, hlast, UInt8.ofNat_toNat]

/-- Where the reading meets a scalar value, the bytes of that value stand. -/
theorem eq_append_of_front (h : front b r = .scalar c rest) : b :: r = encodeChar c ++ rest := by
  -- Every kind of lead byte by itself: a reading that breaks off has met no scalar value.
  obtain hb | hb | hb | hb | hb := lead_cases b
  · rw [front_one hb] at h
    cases h
    have hwrites : Form.one.Writes b.toNat := ⟨Nat.zero_le _, hb, .inl (by omega)⟩
    simp [encodeChar_of_writes hwrites, Form.layout]
  · cases r with
    | nil =>
      rw [front_nil (by omega)] at h
      cases h
    | cons b₁ r =>
      rw [front_two hb] at h
      split at h
      · next h₁ =>
        obtain ⟨hwrites, hlayout⟩ := writes_two hb h₁ rfl
        obtain ⟨rfl, rfl⟩ := Front.scalar.inj h
        rw [encodeChar_of_writes hwrites, hlayout]
        rfl
      · cases h
  · cases r with
    | nil =>
      rw [front_nil (by omega)] at h
      cases h
    | cons b₁ r =>
      rw [front_three hb] at h
      split at h
      · next h₁ =>
        cases r with
        | nil => cases h
        | cons b₂ r =>
          dsimp only at h
          split at h
          · next h₂ =>
            obtain ⟨hwrites, hlayout⟩ := writes_three hb h₁ h₂ rfl
            obtain ⟨rfl, rfl⟩ := Front.scalar.inj h
            rw [encodeChar_of_writes hwrites, hlayout]
            rfl
          · cases h
      · cases h
  · cases r with
    | nil =>
      rw [front_nil (by omega)] at h
      cases h
    | cons b₁ r =>
      rw [front_four hb] at h
      split at h
      · next h₁ =>
        cases r with
        | nil => cases h
        | cons b₂ r =>
          dsimp only at h
          split at h
          · next h₂ =>
            cases r with
            | nil => cases h
            | cons b₃ r =>
              dsimp only at h
              split at h
              · next h₃ =>
                obtain ⟨hwrites, hlayout⟩ := writes_four hb h₁ h₂ h₃ rfl
                obtain ⟨rfl, rfl⟩ := Front.scalar.inj h
                rw [encodeChar_of_writes hwrites, hlayout]
                rfl
              · cases h
          · cases h
      · cases h
  · rw [front_of_no_lead hb] at h
    cases h

end PortableLayout.Text.Utf8
