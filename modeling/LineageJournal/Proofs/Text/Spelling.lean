import LineageJournal.Proofs.Text.Utf8
import LineageJournal.Text.ModifiedUtf8

/-! Which bytes are read as which text. Standard UTF-8 has one form for each text, and only that
form is read. Modified UTF-8 is read more freely: each UTF-16 unit may stand in any form that has
room for it. Bytes that are read both ways are the same text both times. -/

namespace LineageJournal

namespace Utf8

theorem toNat_ofNat {code : Nat} (valid : code.isValidChar) : (Char.ofNat code).toNat = code := by
  rw [Char.ofNat, dif_pos valid]
  rfl

theorem toUInt8_eq {n : Nat} (byte : UInt8) (same : n = byte.toNat) : n.toUInt8 = byte := by
  rw [same, Nat.toUInt8_eq, UInt8.ofNat_toNat]

theorem encodeChar_charOfOne {lead : UInt8} (low : lead.toNat < 128) :
    encodeChar (charOfOne lead) = [lead] := by
  have valid : lead.toNat.isValidChar := Or.inl (by omega)
  simp only [encodeChar, charOfOne, toNat_ofNat valid, if_pos low]
  rw [toUInt8_eq _ rfl]

theorem encodeChar_charOfTwo {lead second : UInt8} (low : 194 ≤ lead.toNat)
    (high : lead.toNat < 224) (next : isContinuation second = true) :
    encodeChar (charOfTwo lead second) = [lead, second] := by
  rw [isContinuation_iff] at next
  have code : lead.toNat % 32 * 64 + payload second =
      (lead.toNat - 192) * 64 + (second.toNat - 128) := by
    rw [payload]
    omega
  have valid : ((lead.toNat - 192) * 64 + (second.toNat - 128)).isValidChar := Or.inl (by omega)
  simp only [encodeChar, charOfTwo, code, toNat_ofNat valid]
  rw [if_neg (by omega), if_pos (by omega), toUInt8_eq lead (by omega),
    toUInt8_eq second (by omega)]

theorem encodeChar_charOfThree {lead second third : UInt8} (low : 224 ≤ lead.toNat)
    (high : lead.toNat < 240) (next : secondOfThree lead second = true)
    (last : isContinuation third = true) :
    encodeChar (charOfThree lead second third) = [lead, second, third] := by
  rw [secondOfThree_iff] at next
  rw [isContinuation_iff] at last
  have code : lead.toNat % 16 * 4096 + payload second * 64 + payload third =
      (lead.toNat - 224) * 4096 + (second.toNat - 128) * 64 + (third.toNat - 128) := by
    rw [payload, payload]
    omega
  have valid : ((lead.toNat - 224) * 4096 + (second.toNat - 128) * 64 +
      (third.toNat - 128)).isValidChar := by
    unfold Nat.isValidChar
    omega
  simp only [encodeChar, charOfThree, code, toNat_ofNat valid]
  rw [if_neg (by omega), if_neg (by omega), if_pos (by omega),
    toUInt8_eq lead (by omega), toUInt8_eq second (by omega),
    toUInt8_eq third (by omega)]

theorem encodeChar_charOfFour {lead second third fourth : UInt8} (low : 240 ≤ lead.toNat)
    (high : lead.toNat < 245) (next : secondOfFour lead second = true)
    (middle : isContinuation third = true) (last : isContinuation fourth = true) :
    encodeChar (charOfFour lead second third fourth) = [lead, second, third, fourth] := by
  rw [secondOfFour_iff] at next
  rw [isContinuation_iff] at middle last
  have code : lead.toNat % 8 * 262144 + payload second * 4096 + payload third * 64 +
      payload fourth = (lead.toNat - 240) * 262144 + (second.toNat - 128) * 4096 +
        (third.toNat - 128) * 64 + (fourth.toNat - 128) := by
    rw [payload, payload, payload]
    omega
  have valid : ((lead.toNat - 240) * 262144 + (second.toNat - 128) * 4096 +
      (third.toNat - 128) * 64 + (fourth.toNat - 128)).isValidChar := by
    unfold Nat.isValidChar
    omega
  simp only [encodeChar, charOfFour, code, toNat_ofNat valid]
  rw [if_neg (by omega), if_neg (by omega), if_neg (by omega),
    toUInt8_eq lead (by omega), toUInt8_eq second (by omega),
    toUInt8_eq third (by omega), toUInt8_eq fourth (by omega)]

theorem encodeChars_cons (c : Char) (rest : List Char) :
    encodeChars (c :: rest) = encodeChar c ++ encodeChars rest := List.flatMap_cons

theorem encodeChars_of_decodeFrom {index : Nat} {done chars : List Char} {bytes : List UInt8}
    (decoded : decodeFrom index done bytes = .ok chars) :
    ∃ later, chars = done.reverse ++ later ∧ bytes = encodeChars later := by
  fun_induction decodeFrom index done bytes with
  | case1 index done =>
      cases decoded
      exact ⟨[], (List.append_nil _).symm, rfl⟩
  | case2 index done lead tail low ih =>
      obtain ⟨later, rfl, rfl⟩ := ih decoded
      refine ⟨charOfOne lead :: later, by simp, ?_⟩
      rw [encodeChars_cons, encodeChar_charOfOne ((leadOfOne_iff lead).mp low)]
      rfl
  | case4 index done lead _ two second tail next ih =>
      obtain ⟨later, rfl, rfl⟩ := ih decoded
      obtain ⟨low, high⟩ := (leadOfTwo_iff lead).mp two
      refine ⟨charOfTwo lead second :: later, by simp, ?_⟩
      rw [encodeChars_cons, encodeChar_charOfTwo low high next]
      rfl
  | case8 index done lead _ _ three second next third tail last ih =>
      obtain ⟨later, rfl, rfl⟩ := ih decoded
      obtain ⟨low, high⟩ := (leadOfThree_iff lead).mp three
      refine ⟨charOfThree lead second third :: later, by simp, ?_⟩
      rw [encodeChars_cons, encodeChar_charOfThree low high next last]
      rfl
  | case14 index done lead _ _ _ four second next third middle fourth tail last ih =>
      obtain ⟨later, rfl, rfl⟩ := ih decoded
      obtain ⟨low, high⟩ := (leadOfFour_iff lead).mp four
      refine ⟨charOfFour lead second third fourth :: later, by simp, ?_⟩
      rw [encodeChars_cons, encodeChar_charOfFour low high next middle last]
      rfl
  | _ => cases decoded

theorem decode_eq_ok_iff {bytes : List UInt8} {text : String} :
    decode bytes = .ok text ↔ bytes = encode text := by
  refine ⟨fun decoded => ?_, fun same => same ▸ decode_encode text⟩
  unfold decode at decoded
  cases read : decodeFrom 0 [] bytes with
  | error fault =>
      rw [read] at decoded
      cases decoded
  | ok chars =>
      rw [read] at decoded
      cases decoded
      obtain ⟨later, rfl, rfl⟩ := encodeChars_of_decodeFrom read
      rw [encode, String.toList_ofList]

end Utf8

namespace Utf16

theorem lt_of_mem_unitsOfChar {c : Char} {unit : Nat} (isUnit : unit ∈ unitsOfChar c) :
    unit < 0x10000 := by
  have scalar : c.toNat < 0xD800 ∨ 0xDFFF < c.toNat ∧ c.toNat < 0x110000 := c.valid
  simp only [unitsOfChar] at isUnit
  split at isUnit
  · rw [List.mem_singleton] at isUnit
    omega
  · simp only [List.mem_cons, List.not_mem_nil, or_false] at isUnit
    omega

theorem isHighSurrogate_iff (code : Nat) :
    isHighSurrogate code = true ↔ 0xD800 ≤ code ∧ code < 0xDC00 := by
  rw [isHighSurrogate, Bool.and_eq_true, decide_eq_true_eq, decide_eq_true_eq]

theorem isLowSurrogate_iff (code : Nat) :
    isLowSurrogate code = true ↔ 0xDC00 ≤ code ∧ code < 0xE000 := by
  rw [isLowSurrogate, Bool.and_eq_true, decide_eq_true_eq, decide_eq_true_eq]

theorem charsFrom?_unitsOfChar (done : List Char) (c : Char) (rest : List Nat) :
    charsFrom? done (unitsOfChar c ++ rest) = charsFrom? (c :: done) rest := by
  have scalar : c.toNat < 0xD800 ∨ 0xDFFF < c.toNat ∧ c.toNat < 0x110000 := c.valid
  have back : Char.ofNat c.toNat = c := Char.ofNat_toNat c
  simp only [unitsOfChar]
  generalize c.toNat = n at scalar back ⊢
  split
  · have notHigh : ¬ isHighSurrogate n = true := by
      rw [isHighSurrogate_iff]
      omega
    have notLow : ¬ isLowSurrogate n = true := by
      rw [isLowSurrogate_iff]
      omega
    rw [List.cons_append, List.nil_append, charsFrom?.eq_def]
    simp only [if_neg notHigh, if_neg notLow, back]
  · have high : isHighSurrogate (0xD800 + (n - 0x10000) / 1024) = true := by
      rw [isHighSurrogate_iff]
      omega
    have low : isLowSurrogate (0xDC00 + (n - 0x10000) % 1024) = true := by
      rw [isLowSurrogate_iff]
      omega
    have value : 0x10000 + (0xD800 + (n - 0x10000) / 1024 - 0xD800) * 1024 +
        (0xDC00 + (n - 0x10000) % 1024 - 0xDC00) = n := by omega
    simp only [List.cons_append, List.nil_append]
    rw [charsFrom?.eq_def]
    simp only [high, low, if_true, charOfPair, value, back]

theorem charsFrom?_flatMap (done chars : List Char) :
    charsFrom? done (chars.flatMap unitsOfChar) = some (done.reverse ++ chars) := by
  induction chars generalizing done with
  | nil => rw [List.flatMap_nil, charsFrom?, List.append_nil]
  | cons c rest ih =>
      rw [List.flatMap_cons, charsFrom?_unitsOfChar, ih, List.reverse_cons, List.append_assoc,
        List.singleton_append]

theorem unitsOfChar_charOfPair {high low : Nat} (isHigh : isHighSurrogate high = true)
    (isLow : isLowSurrogate low = true) : unitsOfChar (charOfPair high low) = [high, low] := by
  rw [isHighSurrogate_iff] at isHigh
  rw [isLowSurrogate_iff] at isLow
  have valid : (0x10000 + (high - 0xD800) * 1024 + (low - 0xDC00)).isValidChar := by
    unfold Nat.isValidChar
    omega
  have first :
      0xD800 + (0x10000 + (high - 0xD800) * 1024 + (low - 0xDC00) - 0x10000) / 1024 = high := by
    omega
  have second :
      0xDC00 + (0x10000 + (high - 0xD800) * 1024 + (low - 0xDC00) - 0x10000) % 1024 = low := by
    omega
  simp only [unitsOfChar, charOfPair, Utf8.toNat_ofNat valid, first, second]
  rw [if_neg (by omega)]

theorem unitsOfChar_ofNat {unit : Nat} (small : unit < 0x10000)
    (notHigh : ¬ isHighSurrogate unit = true) (notLow : ¬ isLowSurrogate unit = true) :
    unitsOfChar (Char.ofNat unit) = [unit] := by
  rw [isHighSurrogate_iff] at notHigh
  rw [isLowSurrogate_iff] at notLow
  have valid : unit.isValidChar := by
    unfold Nat.isValidChar
    omega
  simp only [unitsOfChar, Utf8.toNat_ofNat valid, if_pos small]

theorem flatMap_of_charsFrom? {done chars : List Char} {units : List Nat}
    (small : ∀ unit ∈ units, unit < 0x10000) (joined : charsFrom? done units = some chars) :
    ∃ later, chars = done.reverse ++ later ∧ units = later.flatMap unitsOfChar := by
  fun_induction charsFrom? done units with
  | case1 done =>
      cases joined
      exact ⟨[], (List.append_nil _).symm, rfl⟩
  | case2 done high isHigh low tail isLow ih =>
      obtain ⟨later, rfl, rfl⟩ :=
        ih (fun unit later => small unit (by simp [later])) joined
      refine ⟨charOfPair high low :: later, by simp, ?_⟩
      rw [List.flatMap_cons, unitsOfChar_charOfPair isHigh isLow]
      rfl
  | case6 done unit tail notHigh notLow ih =>
      obtain ⟨later, rfl, rfl⟩ :=
        ih (fun unit later => small unit (List.mem_cons_of_mem _ later)) joined
      refine ⟨Char.ofNat unit :: later, by simp, ?_⟩
      rw [List.flatMap_cons, unitsOfChar_ofNat (small unit List.mem_cons_self) notHigh notLow]
      rfl
  | _ => cases joined

theorem text?_eq_some_iff {units : List Nat} {text : String}
    (small : ∀ unit ∈ units, unit < 0x10000) :
    text? units = some text ↔ units = text.toList.flatMap unitsOfChar := by
  constructor
  · intro joined
    obtain ⟨chars, read, rfl⟩ := Option.map_eq_some_iff.mp joined
    obtain ⟨later, rfl, rfl⟩ := flatMap_of_charsFrom? small read
    rw [String.toList_ofList]
  · rintro rfl
    rw [text?, charsFrom?_flatMap]
    exact congrArg some String.ofList_toList

end Utf16

namespace ModifiedUtf8

open Utf8

theorem leadOfTwoForm_iff (lead : UInt8) :
    (0xC0 ≤ lead && lead < 0xE0) = true ↔ 192 ≤ lead.toNat ∧ lead.toNat < 224 :=
  between_iff 0xC0 0xE0 lead

/-- The forms in which a unit may stand: one for each number of bytes that has room for it. -/
inductive Form : Nat → List UInt8 → Prop where
  | one {unit : Nat} (room : unit < 0x80) : Form unit [unit.toUInt8]
  | two {unit : Nat} (room : unit < 0x800) :
      Form unit [(0xC0 + unit / 64).toUInt8, (0x80 + unit % 64).toUInt8]
  | three {unit : Nat} (room : unit < 0x10000) :
      Form unit [(0xE0 + unit / 4096).toUInt8, (0x80 + unit / 64 % 64).toUInt8,
        (0x80 + unit % 64).toUInt8]

/-- The bytes are the units one after another, each in one of its forms. -/
inductive Spells : List Nat → List UInt8 → Prop where
  | nil : Spells [] []
  | cons {unit : Nat} {units : List Nat} {form bytes : List UInt8} (first : Form unit form)
      (rest : Spells units bytes) : Spells (unit :: units) (form ++ bytes)

theorem Form.lt {unit : Nat} {form : List UInt8} (isForm : Form unit form) :
    unit < 0x10000 := by
  cases isForm <;> omega

theorem Spells.lt {units : List Nat} {bytes : List UInt8} (spells : Spells units bytes) :
    ∀ unit ∈ units, unit < 0x10000 := by
  induction spells with
  | nil => exact fun unit never => nomatch never
  | cons first rest ih => exact List.forall_mem_cons.mpr ⟨first.lt, ih⟩

/-- A unit is written in the shortest of its forms, but for the zero unit. -/
theorem form_encodeUnit {unit : Nat} (small : unit < 0x10000) : Form unit (encodeUnit unit) := by
  unfold encodeUnit
  split
  · rename_i zero
    subst zero
    exact @Form.two 0 (by omega)
  split
  · rename_i room
    exact .one room
  split
  · rename_i room
    exact .two room
  · exact .three small

theorem spells_encodeUnit {units : List Nat} (small : ∀ unit ∈ units, unit < 0x10000) :
    Spells units (units.flatMap encodeUnit) := by
  induction units with
  | nil => exact .nil
  | cons unit rest ih =>
      obtain ⟨first, later⟩ := List.forall_mem_cons.mp small
      rw [List.flatMap_cons]
      exact .cons (form_encodeUnit first) (ih later)

theorem unitsFrom?_form {unit : Nat} {form : List UInt8} (isForm : Form unit form)
    (done : List Nat) (rest : List UInt8) :
    unitsFrom? done (form ++ rest) = unitsFrom? (unit :: done) rest := by
  -- The lead bytes of the three forms are in ranges of their own.
  cases isForm with
  | one room =>
      have lead := toNat_toUInt8 (n := unit) (by omega)
      have low : unit.toUInt8 < 0x80 := (leadOfOne_iff _).mpr (by omega)
      rw [List.cons_append, List.nil_append, unitsFrom?.eq_def]
      simp only [if_pos low, lead]
  | two room =>
      have lead := toNat_toUInt8 (n := 0xC0 + unit / 64) (by omega)
      have second := toNat_toUInt8 (n := 0x80 + unit % 64) (by omega)
      have notOne : ¬ (0xC0 + unit / 64).toUInt8 < 0x80 := by
        rw [leadOfOne_iff]
        omega
      have isLead : (0xC0 ≤ (0xC0 + unit / 64).toUInt8 &&
          (0xC0 + unit / 64).toUInt8 < 0xE0) = true := (leadOfTwoForm_iff _).mpr (by omega)
      have next : isContinuation (0x80 + unit % 64).toUInt8 = true :=
        (isContinuation_iff _).mpr (by omega)
      have value : (0xC0 + unit / 64) % 32 * 64 + (0x80 + unit % 64) % 64 = unit := by omega
      simp only [List.cons_append, List.nil_append]
      rw [unitsFrom?.eq_def]
      simp only [if_neg notOne, if_pos isLead, next, if_true, payload, lead, second, value]
  | three room =>
      have lead := toNat_toUInt8 (n := 0xE0 + unit / 4096) (by omega)
      have second := toNat_toUInt8 (n := 0x80 + unit / 64 % 64) (by omega)
      have third := toNat_toUInt8 (n := 0x80 + unit % 64) (by omega)
      have notOne : ¬ (0xE0 + unit / 4096).toUInt8 < 0x80 := by
        rw [leadOfOne_iff]
        omega
      have notTwo : ¬ (0xC0 ≤ (0xE0 + unit / 4096).toUInt8 &&
          (0xE0 + unit / 4096).toUInt8 < 0xE0) = true := by
        rw [leadOfTwoForm_iff]
        omega
      have isLead : (0xE0 ≤ (0xE0 + unit / 4096).toUInt8 &&
          (0xE0 + unit / 4096).toUInt8 < 0xF0) = true := (leadOfThree_iff _).mpr (by omega)
      have next : isContinuation (0x80 + unit / 64 % 64).toUInt8 = true :=
        (isContinuation_iff _).mpr (by omega)
      have last : isContinuation (0x80 + unit % 64).toUInt8 = true :=
        (isContinuation_iff _).mpr (by omega)
      have value : (0xE0 + unit / 4096) % 16 * 4096 + (0x80 + unit / 64 % 64) % 64 * 64 +
          (0x80 + unit % 64) % 64 = unit := by omega
      simp only [List.cons_append, List.nil_append]
      rw [unitsFrom?.eq_def]
      simp only [if_neg notOne, if_neg notTwo, if_pos isLead, next, last, Bool.and_self, if_true,
        payload, lead, second, third, value]

theorem unitsFrom?_of_spells {units : List Nat} {bytes : List UInt8}
    (spells : Spells units bytes) (done : List Nat) :
    unitsFrom? done bytes = some (done.reverse ++ units) := by
  induction spells generalizing done with
  | nil => rw [unitsFrom?, List.append_nil]
  | cons first rest ih =>
      rw [unitsFrom?_form first, ih, List.reverse_cons, List.append_assoc,
        List.singleton_append]

theorem form_of_one {lead : UInt8} (low : lead < 0x80) : Form lead.toNat [lead] := by
  have isForm := Form.one ((leadOfOne_iff lead).mp low)
  rwa [toUInt8_eq _ rfl] at isForm

theorem form_of_two {lead second : UInt8} (two : (0xC0 ≤ lead && lead < 0xE0) = true)
    (next : isContinuation second = true) :
    Form (lead.toNat % 32 * 64 + payload second) [lead, second] := by
  rw [leadOfTwoForm_iff] at two
  rw [isContinuation_iff] at next
  have code : lead.toNat % 32 * 64 + payload second =
      (lead.toNat - 192) * 64 + (second.toNat - 128) := by
    rw [payload]
    omega
  have isForm : Form ((lead.toNat - 192) * 64 + (second.toNat - 128)) _ := .two (by omega)
  rwa [toUInt8_eq lead (by omega), toUInt8_eq second (by omega),
    ← code] at isForm

theorem form_of_three {lead second third : UInt8} (three : (0xE0 ≤ lead && lead < 0xF0) = true)
    (next : isContinuation second = true) (last : isContinuation third = true) :
    Form (lead.toNat % 16 * 4096 + payload second * 64 + payload third)
      [lead, second, third] := by
  rw [leadOfThree_iff] at three
  rw [isContinuation_iff] at next last
  have code : lead.toNat % 16 * 4096 + payload second * 64 + payload third =
      (lead.toNat - 224) * 4096 + (second.toNat - 128) * 64 + (third.toNat - 128) := by
    rw [payload, payload]
    omega
  have isForm : Form ((lead.toNat - 224) * 4096 + (second.toNat - 128) * 64 +
    (third.toNat - 128)) _ := .three (by omega)
  rwa [toUInt8_eq lead (by omega), toUInt8_eq second (by omega),
    toUInt8_eq third (by omega), ← code] at isForm

theorem spells_of_unitsFrom? {done units : List Nat} {bytes : List UInt8}
    (read : unitsFrom? done bytes = some units) :
    ∃ later, units = done.reverse ++ later ∧ Spells later bytes := by
  fun_induction unitsFrom? done bytes with
  | case1 done =>
      cases read
      exact ⟨[], (List.append_nil _).symm, .nil⟩
  | case2 done lead tail low ih =>
      obtain ⟨later, rfl, spells⟩ := ih read
      exact ⟨lead.toNat :: later, by simp, .cons (form_of_one low) spells⟩
  | case3 done lead _ two second tail next ih =>
      obtain ⟨later, rfl, spells⟩ := ih read
      exact ⟨_ :: later, by simp, .cons (form_of_two two next) spells⟩
  | case6 done lead _ _ three second third tail next ih =>
      obtain ⟨later, rfl, spells⟩ := ih read
      rw [Bool.and_eq_true] at next
      exact ⟨_ :: later, by simp, .cons (form_of_three three next.1 next.2) spells⟩
  | _ => cases read

theorem unitsFrom?_eq_some_iff {units : List Nat} {bytes : List UInt8} :
    unitsFrom? [] bytes = some units ↔ Spells units bytes := by
  constructor
  · intro read
    obtain ⟨later, rfl, spells⟩ := spells_of_unitsFrom? read
    exact spells
  · intro spells
    exact unitsFrom?_of_spells spells []

theorem decode?_eq_some_iff {bytes : List UInt8} {text : String} :
    decode? bytes = some text ↔ Spells (text.toList.flatMap Utf16.unitsOfChar) bytes := by
  constructor
  · intro decoded
    obtain ⟨units, read, joined⟩ := Option.bind_eq_some_iff.mp decoded
    have spells := unitsFrom?_eq_some_iff.mp read
    rwa [(Utf16.text?_eq_some_iff spells.lt).mp joined] at spells
  · intro spells
    rw [decode?, unitsFrom?_eq_some_iff.mpr spells, Option.bind_some,
      (Utf16.text?_eq_some_iff spells.lt).mpr rfl]

theorem decode?_encode (text : String) : decode? (encode text) = some text := by
  refine decode?_eq_some_iff.mpr (spells_encodeUnit fun unit isUnit => ?_)
  obtain ⟨c, _, ofChar⟩ := List.mem_flatMap.mp isUnit
  exact Utf16.lt_of_mem_unitsOfChar ofChar

theorem Form.shortest {unit : Nat} {form : List UInt8} (isForm : Form unit form)
    (noZero : 0 ∉ form) : form = encodeUnit unit ∨ (encodeUnit unit).length < form.length := by
  unfold encodeUnit
  cases isForm with
  | one room =>
      have nonzero : unit ≠ 0 := by
        rintro rfl
        exact noZero (List.mem_singleton.mpr rfl)
      rw [if_neg nonzero, if_pos room]
      exact .inl rfl
  | two room =>
      split
      · rename_i zero
        subst zero
        exact .inl rfl
      split
      · exact .inr (Nat.lt_succ_self 1)
      · exact .inl rfl
  | three room =>
      split
      · exact .inr (Nat.lt_succ_self 2)
      split
      · exact .inr (Nat.lt_add_of_pos_right (Nat.zero_lt_succ 1))
      split
      · exact .inr (Nat.lt_succ_self 2)
      · exact .inl rfl

theorem Spells.shortest {units : List Nat} {bytes : List UInt8} (spells : Spells units bytes)
    (noZero : 0 ∉ bytes) :
    bytes = units.flatMap encodeUnit ∨ (units.flatMap encodeUnit).length < bytes.length := by
  induction spells with
  | nil => exact .inl rfl
  | cons first rest ih =>
      rw [List.mem_append, not_or] at noZero
      rw [List.flatMap_cons, List.length_append, List.length_append]
      rcases first.shortest noZero.1 with sameForm | longerForm
      · rcases ih noZero.2 with same | longer
        · rw [sameForm, same]
          exact .inl rfl
        · rw [sameForm]
          exact .inr (Nat.add_lt_add_left longer _)
      · rcases ih noZero.2 with same | longer
        · rw [same]
          exact .inr (Nat.add_lt_add_right longerForm _)
        · exact .inr (Nat.add_lt_add longerForm longer)

theorem encodeUnit_toNat {c : Char} (nonzero : c.toNat ≠ 0) (single : c.toNat < 0x10000) :
    encodeUnit c.toNat = encodeChar c := by
  simp only [encodeUnit, encodeChar, if_neg nonzero, if_pos single]

theorem form_encodeChar {c : Char} (single : c.toNat < 0x10000) :
    Form c.toNat (encodeChar c) := by
  by_cases zero : c.toNat = 0
  · simp only [encodeChar, zero]
    exact @Form.one 0 (by omega)
  · rw [← encodeUnit_toNat zero single]
    exact form_encodeUnit single

/-- Without characters above U+FFFF, standard UTF-8 spells the units as well. -/
theorem spells_encodeChars {chars : List Char} (single : ∀ c ∈ chars, c.toNat < 0x10000) :
    Spells (chars.flatMap Utf16.unitsOfChar) (Utf8.encodeChars chars) := by
  induction chars with
  | nil => exact .nil
  | cons c rest ih =>
      obtain ⟨first, later⟩ := List.forall_mem_cons.mp single
      have unit : Utf16.unitsOfChar c = [c.toNat] := if_pos first
      rw [Utf8.encodeChars_cons, List.flatMap_cons, unit]
      exact .cons (form_encodeChar first) (ih later)

theorem unitsFrom?_of_supplementary {c : Char} (pair : ¬ c.toNat < 0x10000) (done : List Nat)
    (rest : List UInt8) : unitsFrom? done (encodeChar c ++ rest) = none := by
  have scalar : c.toNat < 0xD800 ∨ 0xDFFF < c.toNat ∧ c.toNat < 0x110000 := c.valid
  have lead := toNat_toUInt8 (n := 0xF0 + c.toNat / 262144) (by omega)
  have notOne : ¬ (0xF0 + c.toNat / 262144).toUInt8 < 0x80 := by
    rw [leadOfOne_iff]
    omega
  have notTwo : ¬ (0xC0 ≤ (0xF0 + c.toNat / 262144).toUInt8 &&
      (0xF0 + c.toNat / 262144).toUInt8 < 0xE0) = true := by
    rw [leadOfTwoForm_iff]
    omega
  have notThree : ¬ (0xE0 ≤ (0xF0 + c.toNat / 262144).toUInt8 &&
      (0xF0 + c.toNat / 262144).toUInt8 < 0xF0) = true := by
    rw [leadOfThree_iff]
    omega
  simp only [encodeChar]
  rw [if_neg (by omega), if_neg (by omega), if_neg pair, List.cons_append, unitsFrom?.eq_def]
  simp only [if_neg notOne, if_neg notTwo, if_neg notThree]

theorem eq_of_unitsFrom?_encodeChars {done units : List Nat} {chars : List Char}
    (read : unitsFrom? done (Utf8.encodeChars chars) = some units) :
    units = done.reverse ++ chars.flatMap Utf16.unitsOfChar := by
  induction chars generalizing done with
  | nil =>
      rw [Utf8.encodeChars, List.flatMap_nil, unitsFrom?] at read
      cases read
      exact (List.append_nil _).symm
  | cons c rest ih =>
      rw [Utf8.encodeChars_cons] at read
      by_cases single : c.toNat < 0x10000
      · rw [unitsFrom?_form (form_encodeChar single)] at read
        have unit : Utf16.unitsOfChar c = [c.toNat] := if_pos single
        rw [ih read, List.flatMap_cons, unit, List.reverse_cons, List.append_assoc]
      · rw [unitsFrom?_of_supplementary single] at read
        cases read

/-- Bytes that are a text in both encodings are the same text in both. -/
theorem eq_of_decode {bytes : List UInt8} {standard modified : String}
    (first : Utf8.decode bytes = .ok standard) (second : decode? bytes = some modified) :
    standard = modified := by
  obtain ⟨units, read, joined⟩ := Option.bind_eq_some_iff.mp second
  rw [decode_eq_ok_iff.mp first] at read
  have same : units = standard.toList.flatMap Utf16.unitsOfChar :=
    eq_of_unitsFrom?_encodeChars read
  rw [same, Utf16.text?, Utf16.charsFrom?_flatMap] at joined
  cases joined
  exact String.ofList_toList.symm

end ModifiedUtf8

end LineageJournal
