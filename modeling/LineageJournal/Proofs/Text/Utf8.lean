import LineageJournal.Text.Utf8

/-! Standard UTF-8 reads back: decoding the bytes of a text gives the text. A character is
read by the branch for the number of bytes it is written in, and the bytes after it are not
looked at. -/

namespace LineageJournal.Utf8

theorem toNat_toUInt8 {n : Nat} (small : n < 256) : n.toUInt8.toNat = n := by
  simp only [Nat.toUInt8_eq, UInt8.toNat_ofNat', Nat.reducePow, Nat.mod_eq_of_lt small]

theorem between_iff (low high byte : UInt8) :
    (low ≤ byte && byte < high) = true ↔
      low.toNat ≤ byte.toNat ∧ byte.toNat < high.toNat := by
  rw [Bool.and_eq_true, decide_eq_true_eq, decide_eq_true_eq, UInt8.le_iff_toNat_le,
    UInt8.lt_iff_toNat_lt]

theorem leadOfOne_iff (lead : UInt8) : lead < 0x80 ↔ lead.toNat < 128 :=
  UInt8.lt_iff_toNat_lt

theorem leadOfTwo_iff (lead : UInt8) :
    (0xC2 ≤ lead && lead < 0xE0) = true ↔ 194 ≤ lead.toNat ∧ lead.toNat < 224 :=
  between_iff 0xC2 0xE0 lead

theorem leadOfThree_iff (lead : UInt8) :
    (0xE0 ≤ lead && lead < 0xF0) = true ↔ 224 ≤ lead.toNat ∧ lead.toNat < 240 :=
  between_iff 0xE0 0xF0 lead

theorem leadOfFour_iff (lead : UInt8) :
    (0xF0 ≤ lead && lead < 0xF5) = true ↔ 240 ≤ lead.toNat ∧ lead.toNat < 245 :=
  between_iff 0xF0 0xF5 lead

theorem isContinuation_iff (byte : UInt8) :
    isContinuation byte = true ↔ 128 ≤ byte.toNat ∧ byte.toNat < 192 :=
  between_iff 0x80 0xC0 byte

theorem secondOfThree_iff (lead second : UInt8) :
    secondOfThree lead second = true ↔
      128 ≤ second.toNat ∧ second.toNat < 192 ∧ (lead.toNat = 224 → 160 ≤ second.toNat) ∧
        (lead.toNat = 237 → second.toNat < 160) := by
  simp only [secondOfThree, ← UInt8.toNat_inj, UInt8.reduceToNat]
  split
  · rw [show _ ↔ 160 ≤ second.toNat ∧ second.toNat < 192 from between_iff 0xA0 0xC0 second]
    omega
  · split
    · rw [show _ ↔ 128 ≤ second.toNat ∧ second.toNat < 160 from between_iff 0x80 0xA0 second]
      omega
    · rw [isContinuation_iff]
      omega

theorem secondOfFour_iff (lead second : UInt8) :
    secondOfFour lead second = true ↔
      128 ≤ second.toNat ∧ second.toNat < 192 ∧ (lead.toNat = 240 → 144 ≤ second.toNat) ∧
        (lead.toNat = 244 → second.toNat < 144) := by
  simp only [secondOfFour, ← UInt8.toNat_inj, UInt8.reduceToNat]
  split
  · rw [show _ ↔ 144 ≤ second.toNat ∧ second.toNat < 192 from between_iff 0x90 0xC0 second]
    omega
  · split
    · rw [show _ ↔ 128 ≤ second.toNat ∧ second.toNat < 144 from between_iff 0x80 0x90 second]
      omega
    · rw [isContinuation_iff]
      omega

variable (index : Nat) (done : List Char) (rest : List UInt8)

theorem decodeFrom_one {lead : UInt8} (low : lead.toNat < 128) :
    decodeFrom index done (lead :: rest) =
      decodeFrom (index + 1) (charOfOne lead :: done) rest := by
  have one : lead < 0x80 := (leadOfOne_iff lead).mpr low
  rw [decodeFrom.eq_def]
  simp only [if_pos one]

theorem decodeFrom_two {lead second : UInt8} (low : 194 ≤ lead.toNat) (high : lead.toNat < 224)
    (next : isContinuation second = true) :
    decodeFrom index done (lead :: second :: rest) =
      decodeFrom (index + 2) (charOfTwo lead second :: done) rest := by
  have notOne : ¬ lead < 0x80 := by
    rw [leadOfOne_iff]
    omega
  have two : (0xC2 ≤ lead && lead < 0xE0) = true := (leadOfTwo_iff lead).mpr ⟨low, high⟩
  rw [decodeFrom.eq_def]
  simp only [if_neg notOne, if_pos two, next, if_true]

theorem decodeFrom_three {lead second third : UInt8} (low : 224 ≤ lead.toNat)
    (high : lead.toNat < 240) (next : secondOfThree lead second = true)
    (last : isContinuation third = true) :
    decodeFrom index done (lead :: second :: third :: rest) =
      decodeFrom (index + 3) (charOfThree lead second third :: done) rest := by
  have notOne : ¬ lead < 0x80 := by
    rw [leadOfOne_iff]
    omega
  have notTwo : ¬ (0xC2 ≤ lead && lead < 0xE0) = true := by
    rw [leadOfTwo_iff]
    omega
  have three : (0xE0 ≤ lead && lead < 0xF0) = true := (leadOfThree_iff lead).mpr ⟨low, high⟩
  rw [decodeFrom.eq_def]
  simp only [if_neg notOne, if_neg notTwo, if_pos three, next, last, if_true]

theorem decodeFrom_four {lead second third fourth : UInt8} (low : 240 ≤ lead.toNat)
    (high : lead.toNat < 245) (next : secondOfFour lead second = true)
    (middle : isContinuation third = true) (last : isContinuation fourth = true) :
    decodeFrom index done (lead :: second :: third :: fourth :: rest) =
      decodeFrom (index + 4) (charOfFour lead second third fourth :: done) rest := by
  have notOne : ¬ lead < 0x80 := by
    rw [leadOfOne_iff]
    omega
  have notTwo : ¬ (0xC2 ≤ lead && lead < 0xE0) = true := by
    rw [leadOfTwo_iff]
    omega
  have notThree : ¬ (0xE0 ≤ lead && lead < 0xF0) = true := by
    rw [leadOfThree_iff]
    omega
  have four : (0xF0 ≤ lead && lead < 0xF5) = true := (leadOfFour_iff lead).mpr ⟨low, high⟩
  rw [decodeFrom.eq_def]
  simp only [if_neg notOne, if_neg notTwo, if_neg notThree, if_pos four, next, middle, last,
    if_true]

theorem decodeFrom_encodeChar (c : Char) :
    decodeFrom index done (encodeChar c ++ rest) =
      decodeFrom (index + (encodeChar c).length) (c :: done) rest := by
  have scalar : c.toNat < 0xD800 ∨ 0xDFFF < c.toNat ∧ c.toNat < 0x110000 := c.valid
  have back : Char.ofNat c.toNat = c := Char.ofNat_toNat c
  simp only [encodeChar]
  generalize c.toNat = n at scalar back ⊢
  split
  · have lead := toNat_toUInt8 (n := n) (by omega)
    rw [List.cons_append, List.nil_append, decodeFrom_one _ _ _ (by omega), charOfOne, lead, back]
    rfl
  split
  · have lead := toNat_toUInt8 (n := 0xC0 + n / 64) (by omega)
    have second := toNat_toUInt8 (n := 0x80 + n % 64) (by omega)
    have value : (0xC0 + n / 64) % 32 * 64 + (0x80 + n % 64) % 64 = n := by omega
    simp only [List.cons_append, List.nil_append]
    rw [decodeFrom_two _ _ _ (by omega) (by omega) ((isContinuation_iff _).mpr (by omega)),
      charOfTwo, payload, lead, second, value, back]
    rfl
  split
  · have lead := toNat_toUInt8 (n := 0xE0 + n / 4096) (by omega)
    have second := toNat_toUInt8 (n := 0x80 + n / 64 % 64) (by omega)
    have third := toNat_toUInt8 (n := 0x80 + n % 64) (by omega)
    have value : (0xE0 + n / 4096) % 16 * 4096 + (0x80 + n / 64 % 64) % 64 * 64 +
        (0x80 + n % 64) % 64 = n := by omega
    simp only [List.cons_append, List.nil_append]
    rw [decodeFrom_three _ _ _ (by omega) (by omega) ((secondOfThree_iff _ _).mpr (by omega))
        ((isContinuation_iff _).mpr (by omega)),
      charOfThree, payload, payload, lead, second, third, value, back]
    rfl
  · have lead := toNat_toUInt8 (n := 0xF0 + n / 262144) (by omega)
    have second := toNat_toUInt8 (n := 0x80 + n / 4096 % 64) (by omega)
    have third := toNat_toUInt8 (n := 0x80 + n / 64 % 64) (by omega)
    have fourth := toNat_toUInt8 (n := 0x80 + n % 64) (by omega)
    have value : (0xF0 + n / 262144) % 8 * 262144 + (0x80 + n / 4096 % 64) % 64 * 4096 +
        (0x80 + n / 64 % 64) % 64 * 64 + (0x80 + n % 64) % 64 = n := by omega
    simp only [List.cons_append, List.nil_append]
    rw [decodeFrom_four _ _ _ (by omega) (by omega) ((secondOfFour_iff _ _).mpr (by omega))
        ((isContinuation_iff _).mpr (by omega)) ((isContinuation_iff _).mpr (by omega)),
      charOfFour, payload, payload, payload, lead, second, third, fourth, value, back]
    rfl

theorem encodeChar_length_le (c : Char) : (encodeChar c).length ≤ 4 := by
  simp only [encodeChar]
  repeat' split
  all_goals simp

theorem encodeChars_length_le (chars : List Char) :
    (encodeChars chars).length ≤ 4 * chars.length := by
  induction chars with
  | nil => exact Nat.zero_le _
  | cons c rest ih =>
      have first := encodeChar_length_le c
      rw [encodeChars, List.flatMap_cons, List.length_append, List.length_cons]
      rw [encodeChars] at ih
      omega

theorem decodeFrom_encodeChars (chars : List Char) :
    decodeFrom index done (encodeChars chars) = .ok (done.reverse ++ chars) := by
  induction chars generalizing index done with
  | nil => rw [List.append_nil, encodeChars, List.flatMap_nil, decodeFrom]
  | cons c rest ih =>
      rw [encodeChars, List.flatMap_cons, decodeFrom_encodeChar]
      have later := ih (index + (encodeChar c).length) (c :: done)
      rw [encodeChars] at later
      rw [later, List.reverse_cons, List.append_assoc, List.singleton_append]

theorem decode_encode (text : String) : decode (encode text) = .ok text := by
  rw [decode, encode, decodeFrom_encodeChars, List.reverse_nil, List.nil_append]
  exact congrArg Except.ok String.ofList_toList

end LineageJournal.Utf8
