import LineageJournal.Proofs.Journal.Seeking
import LineageJournal.Proofs.Journal.Shared

/-! Opening a segment. Its header says whether it can be read and at which version, and a reader
that was opened by the header is the reader that was opened at that version and has read the
header. Where the header says otherwise, or is not all there, no reader comes of it. -/

namespace LineageJournal

open Wire

namespace Wire

def identifierLength (content : List UInt8) : Nat := ofBigEndian (content.take 2)

def identifierBytes (content : List UInt8) : List UInt8 :=
  (content.drop 2).take (identifierLength content)

/-- The text that the identifier at the front is, in one of the two encodings. -/
def identifier? (content : List UInt8) : Option String :=
  match Utf8.decode (identifierBytes content) with
  | .ok text => some text
  | .error _ => ModifiedUtf8.decode? (identifierBytes content)

def versionAfter (content : List UInt8) : UInt32 :=
  UInt32.ofNat (ofBigEndian ((content.drop (2 + identifierLength content)).take 4))

/-- Where the records begin. -/
def headerEnd (content : List UInt8) : Nat := 6 + identifierLength content

theorem run_word_eq (width : Nat) (bytes : List UInt8) :
    (Decoder.word width).run bytes =
      if bytes.length < width then .error .truncated
      else .ok (ofBigEndian (bytes.take width), bytes.drop width) := by
  by_cases short : bytes.length < width
  · rw [if_pos short]
    exact Decoder.run_take_of_short short
  · rw [if_neg short]
    exact Decoder.run_take (Nat.le_of_not_lt short)

theorem run_short_eq (content : List UInt8) :
    Decoder.short.run content =
      if content.length < 2 + identifierLength content then .error .truncated
      else
        match identifier? content with
        | none => .error .notText
        | some text => .ok (text, content.drop (2 + identifierLength content)) := by
  have left : (content.drop 2).length = content.length - 2 := List.length_drop
  rw [Decoder.short, Decoder.run_bind, run_word_eq]
  by_cases noLength : content.length < 2
  · rw [if_pos noLength, if_pos (by omega)]
  · rw [if_neg noLength]
    by_cases cut : content.length < 2 + identifierLength content
    · rw [if_pos cut]
      have tooFew : (content.drop 2).length < identifierLength content := by omega
      exact Decoder.run_take_of_short tooFew
    · rw [if_neg cut]
      have whole : identifierLength content ≤ (content.drop 2).length := by omega
      refine (Decoder.run_take whole).trans ?_
      rw [List.drop_drop, identifier?, Decoder.textOfShort]
      simp only [identifierBytes]
      cases Utf8.decode ((content.drop 2).take (identifierLength content)) with
      | ok text => rfl
      | error fault =>
          cases ModifiedUtf8.decode? ((content.drop 2).take (identifierLength content)) <;> rfl

theorem run_header (content : List UInt8) :
    Decoder.header.run content =
      if content.length < 2 + identifierLength content then .error .truncated
      else
        match identifier? content with
        | none => .error .notText
        | some identifier =>
          if content.length < 6 + identifierLength content then .error .truncated
          else
            .ok (⟨identifier, versionAfter content⟩,
              content.drop (6 + identifierLength content)) := by
  have left : (content.drop (2 + identifierLength content)).length =
      content.length - (2 + identifierLength content) := List.length_drop
  rw [Decoder.header, Decoder.run_bind, run_short_eq]
  by_cases cut : content.length < 2 + identifierLength content
  · rw [if_pos cut, if_pos cut]
  · rw [if_neg cut, if_neg cut]
    cases identifier? content with
    | none => rfl
    | some identifier =>
        simp only
        rw [Decoder.run_bind, run_word_eq, List.drop_drop]
        by_cases noVersion : content.length < 6 + identifierLength content
        · rw [if_pos noVersion, if_pos (by omega)]
        · have past : 2 + identifierLength content + 4 = 6 + identifierLength content := by omega
          rw [if_neg noVersion, if_neg (by omega), past]
          rfl

theorem run_header_eq_error {content : List UInt8} {fault : DecodeFault} :
    Decoder.header.run content = .error fault ↔
      (2 + identifierLength content ≤ content.length ∧ identifier? content = none ∧
          fault = .notText) ∨
        (content.length < 6 + identifierLength content ∧
          (2 + identifierLength content ≤ content.length → identifier? content ≠ none) ∧
          fault = .truncated) := by
  rw [run_header]
  by_cases cut : content.length < 2 + identifierLength content
  · rw [if_pos cut]
    grind
  · rw [if_neg cut]
    cases identifier? content with
    | none => grind
    | some identifier => grind

theorem run_header_eq_ok {content rest : List UInt8} {header : SegmentHeader} :
    Decoder.header.run content = .ok (header, rest) ↔
      6 + identifierLength content ≤ content.length ∧
        identifier? content = some header.identifier ∧ header.version = versionAfter content ∧
        rest = content.drop (6 + identifierLength content) := by
  obtain ⟨identifier, version⟩ := header
  rw [run_header]
  by_cases cut : content.length < 2 + identifierLength content
  · rw [if_pos cut]
    grind
  · rw [if_neg cut]
    cases identifier? content with
    | none => grind
    | some identifier => grind

theorem Layout.eq_claimed_of_version {layout : Layout} (latest : layout.version = currentVersion) :
    layout = .claimed := by
  cases layout with
  | legacy older => cases older <;> exact absurd latest (by decide)
  | sized => exact absurd latest (by decide)
  | claimed => rfl

end Wire

namespace RecordReader

section Headers

variable {identifier : String} {version : UInt32}

theorem layoutOf_of_foreign (foreign : identifier ≠ formatIdentifier) :
    layoutOf ⟨identifier, version⟩ =
      .error (.invalidHeader s!"unexpected format identifier '{identifier}'") := by
  have notValid : (SegmentHeader.mk identifier version).isValid = false := beq_false_of_ne foreign
  rw [layoutOf, notValid]
  rfl

theorem layoutOf_of_unsupported (unknown : ¬ (1 ≤ version ∧ version ≤ 7)) :
    layoutOf ⟨formatIdentifier, version⟩ = .error (.unsupportedVersion version) := by
  have named : (SegmentHeader.mk formatIdentifier version).isValid = true := beq_self_eq_true _
  have notSupported : (SegmentHeader.mk formatIdentifier version).isSupported = false := by
    rw [SegmentHeader.isSupported, ← Bool.not_eq_true, Bool.and_eq_true, decide_eq_true_eq,
      decide_eq_true_eq]
    exact unknown
  rw [layoutOf, named, notSupported]
  rfl

theorem layoutOf_of_supported (least : 1 ≤ version) (most : version ≤ 7) :
    layoutOf ⟨formatIdentifier, version⟩ = Layout.ofVersion version := by
  have named : (SegmentHeader.mk formatIdentifier version).isValid = true := beq_self_eq_true _
  have supported : (SegmentHeader.mk formatIdentifier version).isSupported = true := by
    rw [SegmentHeader.isSupported, Bool.and_eq_true, decide_eq_true_eq, decide_eq_true_eq]
    exact ⟨least, most⟩
  rw [layoutOf, named, supported]
  rfl

end Headers

section Files

variable {directory : Directory} {path : String} {content : List UInt8} {config : ReaderConfig}

theorem openSegment_of_fault (found : directory.content path = .ok content)
    (valid : config.validate = .ok ()) {fault : DecodeFault}
    (faulty : Decoder.header.run content = .error fault) :
    openSegment directory path config = .error (.ofHeader fault.failure) := by
  have place := Source.at_of_delivers (FileFeed.delivers_openAt content config.bufferSize)
  obtain ⟨next, failed⟩ := place.readFrom_of_fault faulty
  rw [openSegment, valid, Directory.openToRead_of_content found]
  simp only [Except.mapError, bind, Except.bind, failed]

theorem openSegment_of_run (found : directory.content path = .ok content)
    (valid : config.validate = .ok ()) {header : SegmentHeader} {rest : List UInt8}
    (read : Decoder.header.run content = .ok (header, rest)) :
    ∃ source : Source FileFeed,
      source.Place (FileFeed.Within content) (content.length - rest.length) rest ∧
      Decoder.header.readFrom ({ feed := .openAt content config.bufferSize } : Source FileFeed) =
        (.ok header, source) ∧
      openSegment directory path config =
        (layoutOf header).map fun layout => { source, filename := path, layout } := by
  have start : ({ feed := .openAt content config.bufferSize } : Source FileFeed).Place
      (FileFeed.Within content) 0 content :=
    ⟨rfl, rfl, content, rfl, FileFeed.within_openAt content config.bufferSize⟩
  obtain ⟨source, done, after⟩ :=
    start.readFrom_of_run (FileFeed.isDelivery_within content) read
  rw [Nat.zero_add] at after
  refine ⟨source, after, done, ?_⟩
  rw [openSegment, valid, Directory.openToRead_of_content found]
  simp only [Except.mapError, bind, Except.bind, done]
  cases layoutOf header <;> rfl

/-- A reader that was opened at the version of the header, and has read the header, is the one
that was opened by it. -/
theorem openSegment_of_supported (found : directory.content path = .ok content)
    (valid : config.validate = .ok ()) {version : UInt32} {rest : List UInt8}
    (read : Decoder.header.run content = .ok (⟨formatIdentifier, version⟩, rest))
    (least : 1 ≤ version) (most : version ≤ 7) :
    ∃ (layout : Layout) (reader opened : RecordReader FileFeed),
      openSegment directory path config = .ok reader ∧
      reader.Place (FileFeed.Within content) layout path (content.length - rest.length) rest ∧
      layout.version = version ∧
      openAs directory path version config = .ok opened ∧
      opened.readHeader = (.ok ⟨formatIdentifier, version⟩, reader) := by
  obtain ⟨source, place, done, opens⟩ := openSegment_of_run found valid read
  obtain ⟨layout, known, same⟩ := Layout.ofVersion_of_supported least most
  rw [layoutOf_of_supported least most, known] at opens
  refine ⟨layout, { source, filename := path, layout },
    { source := { feed := .openAt content config.bufferSize }, filename := path, layout },
    opens, ⟨rfl, rfl, place⟩, same, ?_, ?_⟩
  · rw [openAs, valid, known, Directory.openToRead_of_content found]
    rfl
  · rw [readHeader, done]
    rfl

theorem supported_of_openSegment (found : directory.content path = .ok content)
    (valid : config.validate = .ok ()) {reader : RecordReader FileFeed}
    (opened : openSegment directory path config = .ok reader) :
    ∃ header rest, Decoder.header.run content = .ok (header, rest) ∧
      header.identifier = formatIdentifier ∧ 1 ≤ header.version ∧ header.version ≤ 7 := by
  cases read : Decoder.header.run content with
  | error fault =>
      rw [openSegment_of_fault found valid read] at opened
      cases opened
  | ok outcome =>
      obtain ⟨⟨identifier, version⟩, rest⟩ := outcome
      obtain ⟨source, _, _, opens⟩ := openSegment_of_run found valid read
      rw [opens] at opened
      by_cases foreign : identifier ≠ formatIdentifier
      · rw [layoutOf_of_foreign foreign] at opened
        cases opened
      · have named : identifier = formatIdentifier := not_not.mp foreign
        by_cases unknown : ¬ (1 ≤ version ∧ version ≤ 7)
        · rw [named, layoutOf_of_unsupported unknown] at opened
          cases opened
        · obtain ⟨least, most⟩ := not_not.mp unknown
          exact ⟨⟨identifier, version⟩, rest, rfl, named, least, most⟩

theorem content_writeHeader (name : String) (capacity : Nat) :
    (RecordWriter.writeHeader { name, sink := FileSink.create capacity }).2.sink.file.content =
      SegmentHeader.current.bytes := by
  have settled : RecordWriter.Settled { name, sink := FileSink.create capacity } :=
    ⟨⟨rfl, rfl⟩, rfl, rfl⟩
  obtain ⟨sink, wrote, _, more⟩ := settled.writeHeader rfl
  rw [wrote]
  exact more

theorem openSegment_of_cut (found : directory.content path = .ok content)
    (valid : config.validate = .ok ()) {size : Nat}
    (cut : size < SegmentHeader.current.bytes.length)
    (same : content = SegmentHeader.current.bytes.take size) :
    openSegment directory path config = .error (.invalidHeader "segment header is truncated") := by
  have read := SegmentHeader.run_header_current []
  rw [List.append_nil] at read
  obtain ⟨fault, faulty, kind⟩ := Decoder.run_take_of_run read (show size + 0 < _ from cut)
  rw [← same] at faulty
  rw [openSegment_of_fault found valid faulty, JournalError.ofHeader]
  have same : fault.failure.kind = .unexpectedEof := kind
  rw [same]

/-- What opening the segment comes to. Of what may be wrong with a header only the first is
reported. -/
structure Opens (directory : Directory) (path : String) (config : ReaderConfig)
    (content : List UInt8) : Prop where
  opens_iff : (∃ reader, openSegment directory path config = .ok reader) ↔
    ∃ header rest, Decoder.header.run content = .ok (header, rest) ∧
      header.identifier = formatIdentifier ∧ 1 ≤ header.version ∧ header.version ≤ 7
  truncated : content.length < headerEnd content →
    (2 + identifierLength content ≤ content.length → identifier? content ≠ none) →
    openSegment directory path config = .error (.invalidHeader "segment header is truncated")
  unreadable : 2 + identifierLength content ≤ content.length → identifier? content = none →
    openSegment directory path config = .error (.invalidHeader "invalid UTF-8 in string")
  foreign : ∀ identifier, headerEnd content ≤ content.length →
    identifier? content = some identifier → identifier ≠ formatIdentifier →
    openSegment directory path config =
      .error (.invalidHeader s!"unexpected format identifier '{identifier}'")
  unsupported : headerEnd content ≤ content.length → identifier? content = some formatIdentifier →
    ¬ (1 ≤ versionAfter content ∧ versionAfter content ≤ 7) →
    openSegment directory path config = .error (.unsupportedVersion (versionAfter content))
  /-- The reader is the one that was opened at the version and has read the header. -/
  agrees : headerEnd content ≤ content.length → identifier? content = some formatIdentifier →
    1 ≤ versionAfter content → versionAfter content ≤ 7 →
    ∃ (layout : Layout) (reader opened : RecordReader FileFeed),
      openSegment directory path config = .ok reader ∧
      openAs directory path (versionAfter content) config = .ok opened ∧
      opened.readHeader = (.ok ⟨formatIdentifier, versionAfter content⟩, reader) ∧
      reader.version = versionAfter content ∧ reader.position = headerEnd content ∧
      ∀ clock moves, performAll clock moves reader =
        answersFrom layout path content clock (headerEnd content) moves
  cut : ∀ (name : String) (capacity size : Nat),
    let written :=
      (RecordWriter.writeHeader { name, sink := FileSink.create capacity }).2.sink.file.content
    size < written.length → content = written.take size →
      openSegment directory path config = .error (.invalidHeader "segment header is truncated")

/-- A segment is opened by its header alone: it must be all there, in a text that can be read,
name this format and have a version that is known, and the first of these that fails is what is
reported. The reader is then the one that was opened at that version and has read the header, so
it answers whatever that one answers. A header that was cut while it was written is never taken
for one. -/
theorem openSegment_agrees (found : directory.content path = .ok content)
    (valid : config.validate = .ok ()) :
    Opens directory path config content := by
  have whole {identifier : String} (enough : headerEnd content ≤ content.length)
      (named : identifier? content = some identifier) :
      Decoder.header.run content =
        .ok (⟨identifier, versionAfter content⟩, content.drop (headerEnd content)) :=
    run_header_eq_ok.mpr ⟨enough, named, rfl, rfl⟩
  have left (enough : headerEnd content ≤ content.length) :
      content.length - (content.drop (headerEnd content)).length = headerEnd content := by
    rw [List.length_drop, Nat.sub_sub_self enough]
  have opens {identifier : String} (enough : headerEnd content ≤ content.length)
      (named : identifier? content = some identifier) :
      ∃ source, openSegment directory path config =
        (layoutOf ⟨identifier, versionAfter content⟩).map fun layout =>
          { source, filename := path, layout } := by
    obtain ⟨source, _, _, opens⟩ := openSegment_of_run found valid (whole enough named)
    exact ⟨source, opens⟩
  constructor
  case opens_iff =>
    constructor
    · rintro ⟨reader, opened⟩
      exact supported_of_openSegment found valid opened
    · rintro ⟨⟨_, version⟩, rest, read, rfl, least, most⟩
      obtain ⟨_, reader, _, opened, _⟩ := openSegment_of_supported found valid read least most
      exact ⟨reader, opened⟩
  case truncated =>
    intro cut decodable
    exact openSegment_of_fault found valid
      (run_header_eq_error.mpr (.inr ⟨cut, decodable, rfl⟩))
  case unreadable =>
    intro enough unreadable
    exact openSegment_of_fault found valid
      (run_header_eq_error.mpr (.inl ⟨enough, unreadable, rfl⟩))
  case foreign =>
    intro identifier enough named foreign
    obtain ⟨source, opens⟩ := opens enough named
    rw [opens, layoutOf_of_foreign foreign]
    rfl
  case unsupported =>
    intro enough named unknown
    obtain ⟨source, opens⟩ := opens enough named
    rw [opens, layoutOf_of_unsupported unknown]
    rfl
  case agrees =>
    intro enough named least most
    obtain ⟨layout, reader, opened, segment, place, same, plain, header⟩ :=
      openSegment_of_supported found valid (whole enough named) least most
    rw [left enough] at place
    refine ⟨layout, reader, opened, segment, plain, header, ?_, place.position, ?_⟩
    · rw [RecordReader.version, place.layout, same]
    · intro clock moves
      exact (place.at (FileFeed.isDelivery_within content)).performAll_eq enough clock moves
  case cut =>
    intro name capacity size written cut same
    rw [show written = _ from content_writeHeader name capacity] at cut same
    exact openSegment_of_cut found valid cut same

def oldSegment : List UInt8 :=
  (Emission.header ⟨formatIdentifier, 6⟩).bytes ++ [0, 0, 0]

theorem openSegment_agrees_oldSegment :
    ∃ (reader opened : RecordReader FileFeed),
      openSegment (SortedMap.ofList [("a", oldSegment)]) "a" {} = .ok reader ∧
      openAs (SortedMap.ofList [("a", oldSegment)]) "a" 6 {} = .ok opened ∧
      opened.readHeader = (.ok ⟨formatIdentifier, 6⟩, reader) ∧ reader.version = 6 := by
  have found : Directory.content (SortedMap.ofList [("a", oldSegment)]) "a" = .ok oldSegment :=
    Directory.content_eq_ok.mpr ⟨Directory.checkName_letter _, rfl⟩
  have read : Decoder.header.run oldSegment = .ok (⟨formatIdentifier, 6⟩, [0, 0, 0]) :=
    Decoder.reads_header ⟨formatIdentifier, 6⟩ rfl [0, 0, 0]
  obtain ⟨enough, named, six, _⟩ := run_header_eq_ok.mp read
  have valid : ({} : ReaderConfig).validate = .ok () := rfl
  have agrees := (openSegment_agrees found valid).agrees
  simp only [← six] at agrees
  obtain ⟨_, reader, opened, segment, plain, header, version, _⟩ :=
    agrees enough named (by decide) (by decide)
  exact ⟨reader, opened, segment, plain, header, version⟩

end Files

end RecordReader

end LineageJournal
