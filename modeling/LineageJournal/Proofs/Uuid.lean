import Mathlib.Algebra.Ring.Nat
import LineageJournal.Uuid

/-! Identifiers read back from their canonical text, whatever the letter case of its digits. -/

namespace LineageJournal.Uuid

theorem hexValue?_hexDigit {n : Nat} (small : n < 16) : hexValue? (hexDigit n) = some n := by
  have all : ∀ n : Fin 16, hexValue? (hexDigit n.val) = some n.val := by decide
  exact all ⟨n, small⟩

theorem toNat_toLower (c : Char) :
    c.toLower.toNat = if 0x41 ≤ c.toNat ∧ c.toNat ≤ 0x5A then c.toNat + 0x20 else c.toNat := by
  have upper : (c.val ≥ 'A'.val ∧ c.val ≤ 'Z'.val) ↔ (0x41 ≤ c.toNat ∧ c.toNat ≤ 0x5A) := Iff.rfl
  by_cases range : 0x41 ≤ c.toNat ∧ c.toNat ≤ 0x5A
  · have lower : c.toLower.val = c.val + 32 := congrArg Char.val (dif_pos (upper.mpr range))
    rw [if_pos range, Char.toNat, lower, UInt32.toNat_add, Nat.mod_eq_of_lt]
    · rfl
    · change c.toNat + 32 < 2 ^ 32
      omega
  · have same : c.toLower = c := dif_neg fun within => range (upper.mp within)
    rw [if_neg range, same]

theorem hexValue?_toLower (c : Char) : hexValue? c.toLower = hexValue? c := by
  simp only [hexValue?, toNat_toLower]
  split
  -- The value of a letter is the same from either range.
  · grind
  · rfl

theorem toLower_eq_hyphen (c : Char) : c.toLower = '-' ↔ c = '-' := by
  rw [← Char.toNat_inj, ← Char.toNat_inj, toNat_toLower]
  have hyphen : '-'.toNat = 0x2D := rfl
  split <;> omega

theorem hexDigits_length (width n : Nat) : (hexDigits width n).length = width := by
  induction width generalizing n with
  | zero => rfl
  | succ width ih =>
      rw [hexDigits, List.length_append, ih]
      rfl

theorem map_toLower_hexDigits (width n : Nat) :
    (hexDigits width n).map Char.toLower = hexDigits width n := by
  have all : ∀ digit : Fin 16, (hexDigit digit.val).toLower = hexDigit digit.val := by decide
  induction width generalizing n with
  | zero => rfl
  | succ width ih =>
      have last : (hexDigit (n % 16)).toLower = hexDigit (n % 16) :=
        all ⟨n % 16, Nat.mod_lt n (by decide)⟩
      rw [hexDigits, List.map_append, ih, List.map_singleton, last]

theorem hexNumberFrom?_append (value : Nat) (front back : List Char) :
    hexNumberFrom? value (front ++ back) =
      (hexNumberFrom? value front).bind fun read => hexNumberFrom? read back := by
  induction front generalizing value with
  | nil => rfl
  | cons c rest ih =>
      simp only [List.cons_append, hexNumberFrom?]
      cases hexValue? c with
      | none => rfl
      | some digit => exact ih (value * 16 + digit)

theorem hexNumberFrom?_hexDigits (width value n : Nat) :
    hexNumberFrom? value (hexDigits width n) = some (value * 16 ^ width + n % 16 ^ width) := by
  induction width generalizing n with
  | zero =>
      simp only [hexDigits, hexNumberFrom?, Nat.pow_zero, Nat.mod_one]
      rw [Nat.mul_one, Nat.add_zero]
  | succ width ih =>
      have digit : hexValue? (hexDigit (n % 16)) = some (n % 16) :=
        hexValue?_hexDigit (Nat.mod_lt n (by decide))
      have split : n % 16 ^ (width + 1) = n % 16 + 16 * (n / 16 % 16 ^ width) := by
        rw [Nat.pow_succ', Nat.mod_mul]
      rw [hexDigits, hexNumberFrom?_append, ih, Option.bind_some, hexNumberFrom?, digit,
        Option.bind_some, hexNumberFrom?, split]
      congr 1
      rw [Nat.pow_succ, ← Nat.mul_assoc]
      omega

theorem hexNumberFrom?_map_toLower (value : Nat) (digits : List Char) :
    hexNumberFrom? value (digits.map Char.toLower) = hexNumberFrom? value digits := by
  induction digits generalizing value with
  | nil => rfl
  | cons c rest ih => simp only [List.map_cons, hexNumberFrom?, hexValue?_toLower, ih]

theorem hexNumberFrom?_half (half : UInt64) :
    hexNumberFrom? 0 (hexDigits 16 half.toNat) = some half.toNat := by
  rw [hexNumberFrom?_hexDigits, Nat.zero_mul, Nat.zero_add, Nat.mod_eq_of_lt]
  exact half.toNat_lt

theorem ofDigits?_hexDigits (id : Uuid) :
    ofDigits? (hexDigits 16 id.high.toNat ++ hexDigits 16 id.low.toNat) = some id := by
  have front := hexDigits_length 16 id.high.toNat
  have back := hexDigits_length 16 id.low.toNat
  rw [ofDigits?, if_pos (by rw [List.length_append, front, back]), List.take_left' front,
    List.drop_left' front, hexNumberFrom?_half, hexNumberFrom?_half]
  change some (Uuid.mk (UInt64.ofNat id.high.toNat) (UInt64.ofNat id.low.toNat)) = some id
  rw [UInt64.ofNat_toNat, UInt64.ofNat_toNat]

theorem ofDigits?_map_toLower (digits : List Char) :
    ofDigits? (digits.map Char.toLower) = ofDigits? digits := by
  simp only [ofDigits?, List.length_map, ← List.map_take, ← List.map_drop,
    hexNumberFrom?_map_toLower]

theorem joinGroups?_hyphen {size next : Nat} {sizes : List Nat} {group rest : List Char}
    (same : group.length = size) :
    joinGroups? (size :: next :: sizes) (group ++ '-' :: rest) =
      (joinGroups? (next :: sizes) rest).map (group ++ ·) := by
  simp only [joinGroups?, List.drop_left' same, List.take_left' same]

theorem joinGroups?_map_toLower (sizes : List Nat) (text : List Char) :
    joinGroups? sizes (text.map Char.toLower) =
      (joinGroups? sizes text).map (List.map Char.toLower) := by
  have hyphen : '-'.toLower = '-' := rfl
  fun_induction joinGroups? sizes text with
  | case1 text empty => simp_all [joinGroups?]
  | case2 text nonempty => simp_all [joinGroups?]
  | case3 text => simp [joinGroups?]
  | case4 size text other => simp [joinGroups?, other]
  | case5 size sizes text more rest cut ih =>
      rw [joinGroups?, ← List.map_drop, cut, List.map_cons, hyphen, ← List.map_take]
      · simp only [ih, Option.map_map]
        congr 1
        funext later
        exact (List.map_append (f := Char.toLower)).symm
      · exact more
  | case6 size sizes text more uncut =>
      rw [joinGroups?, ← List.map_drop]
      · cases tail : text.drop size with
        | nil => rfl
        | cons c rest =>
            have other : c.toLower ≠ '-' := by
              intro same
              rw [toLower_eq_hyphen] at same
              exact uncut rest (same ▸ tail)
            simp [other]
      · exact more

theorem ofHyphenated?_map_toLower (text : List Char) :
    ofHyphenated? (text.map Char.toLower) = ofHyphenated? text := by
  rw [ofHyphenated?, ofHyphenated?, joinGroups?_map_toLower]
  cases joinGroups? [8, 4, 4, 4, 12] text with
  | none => rfl
  | some digits => exact ofDigits?_map_toLower digits

theorem toChars_length (id : Uuid) : id.toChars.length = 36 := by
  simp only [toChars, List.length_append, List.length_cons, List.length_take, List.length_drop,
    hexDigits_length]
  rfl

theorem joinGroups?_hyphenated {high low : List Char} (front : high.length = 16)
    (back : low.length = 16) :
    joinGroups? [8, 4, 4, 4, 12] (high.take 8 ++ '-' :: ((high.drop 8).take 4 ++
      '-' :: (high.drop 12 ++ '-' :: (low.take 4 ++ '-' :: low.drop 4)))) =
        some (high ++ low) := by
  have joint : high.drop 8 = (high.drop 8).take 4 ++ high.drop 12 := by
    rw [← List.drop_drop (i := 4) (j := 8), List.take_append_drop]
  rw [joinGroups?_hyphen (by rw [List.length_take]; omega),
    joinGroups?_hyphen (by rw [List.length_take, List.length_drop]; omega),
    joinGroups?_hyphen (by rw [List.length_drop]; omega),
    joinGroups?_hyphen (by rw [List.length_take]; omega),
    joinGroups?, if_pos (by rw [List.length_drop]; omega),
    Option.map_some, Option.map_some, Option.map_some, Option.map_some,
    List.take_append_drop, ← List.append_assoc ((high.drop 8).take 4), ← joint,
    ← List.append_assoc, List.take_append_drop]

theorem ofHyphenated?_toChars (id : Uuid) : ofHyphenated? id.toChars = some id := by
  have digits := ofDigits?_hexDigits id
  have joined := joinGroups?_hyphenated (hexDigits_length 16 id.high.toNat)
    (hexDigits_length 16 id.low.toNat)
  rw [ofHyphenated?, toChars]
  -- Only the lengths of the two halves matter now, and the digits must not be computed.
  generalize hexDigits 16 id.high.toNat = high at *
  generalize hexDigits 16 id.low.toNat = low at *
  simp only [List.append_assoc, List.cons_append]
  rw [joined]
  exact digits

theorem length_of_hyphenated {id : Uuid} {text : String}
    (hyphenated : text.toList.map Char.toLower = id.toChars) : text.toList.length = 36 := by
  have same := congrArg List.length hyphenated
  rwa [List.length_map, toChars_length] at same

theorem ofText?_of_hyphenated {id : Uuid} {text : String}
    (hyphenated : text.toList.map Char.toLower = id.toChars) : ofText? text = some id := by
  have length := length_of_hyphenated hyphenated
  unfold ofText? ofChars?
  rw [if_neg (by omega), if_pos length, ← ofHyphenated?_map_toLower, hyphenated,
    ofHyphenated?_toChars]

theorem ofText?_toText (id : Uuid) : ofText? id.toText = some id := by
  refine ofText?_of_hyphenated ?_
  have hyphen : '-'.toLower = '-' := rfl
  simp only [toText, String.toList_ofList, toChars, List.map_append, List.map_cons, List.map_take,
    List.map_drop, map_toLower_hexDigits, hyphen]

end LineageJournal.Uuid
