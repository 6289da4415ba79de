import LineageJournal.Proofs.Text.Spelling
import LineageJournal.Proofs.Wire.Field

/-! Short strings as they are read. Both encodings of a text are read as the text, and it does
not matter which of them is tried first. What else is read spells the text in forms that are
longer than they need to be, or has plain zero bytes in it. -/

namespace LineageJournal.Wire

namespace Decoder

open ModifiedUtf8 (Spells)

def AreText (text : String) (bytes : List UInt8) : Prop :=
  bytes = Utf8.encode text ∨ Spells (text.toList.flatMap Utf16.unitsOfChar) bytes

theorem areText_iff {text : String} {bytes : List UInt8} :
    AreText text bytes ↔
      Utf8.decode bytes = .ok text ∨ ModifiedUtf8.decode? bytes = some text := by
  rw [AreText, Utf8.decode_eq_ok_iff, ModifiedUtf8.decode?_eq_some_iff]

theorem areText_encode (text : String) : AreText text (Utf8.encode text) := .inl rfl

theorem areText_modified (text : String) : AreText text (ModifiedUtf8.encode text) :=
  areText_iff.mpr (.inr (ModifiedUtf8.decode?_encode text))

theorem textOfShort_of_areText {text : String} {bytes : List UInt8}
    (areText : AreText text bytes) : textOfShort bytes = done text := by
  rw [areText_iff] at areText
  unfold textOfShort
  cases standard : Utf8.decode bytes with
  | ok first =>
      have same : first = text := by
        rcases areText with again | modified
        · exact Except.ok.inj (standard.symm.trans again)
        · exact ModifiedUtf8.eq_of_decode standard modified
      rw [same]
  | error fault =>
      rw [standard] at areText
      have modified := areText.resolve_left (fun never => nomatch never)
      simp only [modified]

theorem textOfShort_of_not {bytes : List UInt8} (noText : ∀ text, ¬ AreText text bytes) :
    textOfShort bytes = fail .notText := by
  simp only [areText_iff, not_or] at noText
  unfold textOfShort
  cases standard : Utf8.decode bytes with
  | ok text => exact absurd standard (noText text).1
  | error fault =>
      cases modified : ModifiedUtf8.decode? bytes with
      | some text => exact absurd modified (noText text).2
      | none => rfl

theorem textOfShort_cases (bytes : List UInt8) :
    (∃ text, AreText text bytes ∧ textOfShort bytes = done text) ∨
      (∀ text, ¬ AreText text bytes) ∧ textOfShort bytes = fail .notText := by
  by_cases someText : ∃ text, AreText text bytes
  · obtain ⟨text, areText⟩ := someText
    exact .inl ⟨text, areText, textOfShort_of_areText areText⟩
  · have noText := not_exists.mp someText
    exact .inr ⟨noText, textOfShort_of_not noText⟩

theorem run_short_sized {payload : List UInt8} (fits : payload.length ≤ maxShortLength)
    (rest : List UInt8) :
    short.run (bigEndian 2 payload.length ++ payload ++ rest) =
      (textOfShort payload).run rest := by
  have small : payload.length < 256 ^ 2 := by
    rw [maxShortLength] at fits
    omega
  rw [short, List.append_assoc, run_bind_of_ok (run_word small _), run_take_append rfl]

theorem run_short_of_areText {text : String} {payload : List UInt8}
    (areText : AreText text payload) (fits : payload.length ≤ maxShortLength)
    (rest : List UInt8) :
    short.run (bigEndian 2 payload.length ++ payload ++ rest) = .ok (text, rest) := by
  rw [run_short_sized fits, textOfShort_of_areText areText]
  rfl

/-- The text of a short string is read from its standard and from its modified UTF-8, and what
follows is left. Where a payload could be taken either way, it is the same text. -/
theorem run_short_of_encoding :
    (∀ text rest, (Utf8.encode text).length ≤ maxShortLength →
      short.run (bigEndian 2 (Utf8.encode text).length ++ Utf8.encode text ++ rest) =
        .ok (text, rest)) ∧
    (∀ text rest, (ModifiedUtf8.encode text).length ≤ maxShortLength →
      short.run (bigEndian 2 (ModifiedUtf8.encode text).length ++ ModifiedUtf8.encode text ++
        rest) = .ok (text, rest)) ∧
    ∀ payload standard modified, Utf8.decode payload = .ok standard →
      ModifiedUtf8.decode? payload = some modified → standard = modified :=
  ⟨fun text rest fits => run_short_of_areText (areText_encode text) fits rest,
    fun text rest fits => run_short_of_areText (areText_modified text) fits rest,
    fun _ _ _ => ModifiedUtf8.eq_of_decode⟩

theorem run_short_of_encoding_pair :
    short.run (bigEndian 2 6 ++ [0x61, 0x00, 0xF0, 0x9F, 0x98, 0x80] ++ [7]) =
        .ok ("a\x00😀", [7]) ∧
      short.run (bigEndian 2 9 ++
        [0x61, 0xC0, 0x80, 0xED, 0xA0, 0xBD, 0xED, 0xB8, 0x80] ++ [7]) = .ok ("a\x00😀", [7]) ∧
      Utf8.decode [0x61] = .ok "a" ∧ ModifiedUtf8.decode? [0x61] = some "a" ∧ "a" = "a" :=
  ⟨run_short_of_encoding.1 "a\x00😀" [7] (by decide),
    run_short_of_encoding.2.1 "a\x00😀" [7] (by decide), rfl, rfl,
    run_short_of_encoding.2.2 [0x61] "a" "a" rfl rfl⟩

/-- A payload is read as a text when it is the standard UTF-8 of the text, or spells its UTF-16
units each in any form that has room for it; all other payloads are no text. What is read in the
second way is the modified UTF-8 of the text, unless it has a zero byte or is longer than that. -/
theorem run_short_payload (payload rest : List UInt8) (fits : payload.length ≤ maxShortLength) :
    (∀ text left,
      short.run (bigEndian 2 payload.length ++ payload ++ rest) = .ok (text, left) ↔
        left = rest ∧ AreText text payload) ∧
    (∀ fault, short.run (bigEndian 2 payload.length ++ payload ++ rest) = .error fault ↔
      fault = .notText ∧ ∀ text, ¬ AreText text payload) ∧
    DecodeFault.notText.kind = .invalidData ∧
    ∀ text, Spells (text.toList.flatMap Utf16.unitsOfChar) payload → 0 ∉ payload →
      payload = ModifiedUtf8.encode text ∨
        (ModifiedUtf8.encode text).length < payload.length := by
  rw [run_short_sized fits]
  refine ⟨fun text left => ?_, fun fault => ?_, rfl, fun text spells => spells.shortest⟩
  · constructor
    · intro read
      rcases textOfShort_cases payload with ⟨known, areText, same⟩ | ⟨-, fails⟩
      · rw [same] at read
        cases read
        exact ⟨rfl, areText⟩
      · rw [fails] at read
        cases read
    · rintro ⟨rfl, areText⟩
      rw [textOfShort_of_areText areText]
      rfl
  · constructor
    · intro faulty
      rcases textOfShort_cases payload with ⟨known, -, same⟩ | ⟨noText, fails⟩
      · rw [same] at faulty
        cases faulty
      · rw [fails] at faulty
        cases faulty
        exact ⟨rfl, noText⟩
    · rintro ⟨rfl, noText⟩
      rw [textOfShort_of_not noText]
      rfl

/-- The letter A in two bytes, which neither encoding has, is read as the letter. -/
theorem run_short_payload_overlong :
    short.run (bigEndian 2 2 ++ [0xC1, 0x81] ++ [7]) = .ok ("A", [7]) :=
  ((run_short_payload [0xC1, 0x81] [7] (by decide)).1 "A" [7]).mpr
    ⟨rfl, .inr (.cons (@ModifiedUtf8.Form.two 0x41 (by decide)) .nil)⟩

/-- The bytes of the format identifier, but with the first letter in two bytes. -/
def looseIdentifier : List UInt8 := [0xC1, 0xAF] ++ (Utf8.encode formatIdentifier).tail

theorem areText_looseIdentifier : AreText formatIdentifier looseIdentifier := by
  have split : formatIdentifier.toList = 'o' :: formatIdentifier.toList.tail := rfl
  have single : ∀ c ∈ formatIdentifier.toList.tail, c.toNat < 0x10000 := by
    simp [formatIdentifier]
  have rest := ModifiedUtf8.spells_encodeChars single
  refine .inr ?_
  rw [split]
  exact .cons (@ModifiedUtf8.Form.two 0x6F (by decide)) rest

/-- A segment header passes with bytes in the place of the identifier that neither encoding has. -/
theorem run_header_looseIdentifier :
    header.run (bigEndian 2 looseIdentifier.length ++ looseIdentifier ++ bigEndian 4 7) =
        .ok (SegmentHeader.current, []) ∧
      SegmentHeader.current.isValid = true ∧
      ¬ (looseIdentifier = Utf8.encode formatIdentifier ∨
        looseIdentifier = ModifiedUtf8.encode formatIdentifier) := by
  refine ⟨?_, by decide, by decide⟩
  rw [header, run_bind_of_ok (run_short_of_areText areText_looseIdentifier (by decide) _)]
  rfl

end Decoder

end LineageJournal.Wire
