import LineageJournal.Event.Json
import LineageJournal.Journal.Device
import LineageJournal.Journal.ParallelWrites
import LineageJournal.Journal.Shared
import LineageJournal.Journal.Threads
import LineageJournal.Json.Reader
import LineageJournal.Proofs.Wire.Field
import LineageJournal.Stream.Script
import LineageJournal.Wire.Carried
import LineageJournal.Proofs.Wire.Record
import LineageJournal.Proofs.Stream.Delivery
import LineageJournal.Proofs.Stream.Script
import LineageJournal.Proofs.Stream.Source
import LineageJournal.Proofs.Wire.Clock
import LineageJournal.Proofs.Journal.Reading
import LineageJournal.Proofs.Journal.Scanning
import LineageJournal.Proofs.Journal.TornTail
import LineageJournal.Proofs.Journal.Segment
import LineageJournal.Proofs.Journal.Offsets
import LineageJournal.Proofs.Stream.Arrival
import LineageJournal.Proofs.Journal.Seeking
import LineageJournal.Proofs.Journal.Delivery
import LineageJournal.Proofs.Uuid
import LineageJournal.Proofs.Wire.LegacyRecord
import LineageJournal.Proofs.Journal.Sections
import LineageJournal.Proofs.Journal.Indexing
import LineageJournal.Proofs.Journal.WholeRecords
import LineageJournal.Proofs.Journal.Lifecycle
import LineageJournal.Proofs.Journal.Tiling
import LineageJournal.Proofs.Text.Width
import LineageJournal.Proofs.Wire.Restoring
import LineageJournal.Proofs.Wire.Canonical
import LineageJournal.Proofs.Wire.SizedRecord
import LineageJournal.Proofs.Wire.Overlong
import LineageJournal.Proofs.Journal.Refusals
import LineageJournal.Proofs.Journal.Opening
import LineageJournal.Proofs.Journal.Shared
import LineageJournal.Proofs.Journal.Tailing
import LineageJournal.Proofs.Text.Spelling
import LineageJournal.Proofs.Wire.ShortText
import LineageJournal.Proofs.Stream.Marking
import LineageJournal.Proofs.Journal.DeviceFailure
import LineageJournal.Proofs.Stream.Backing
import LineageJournal.Proofs.Stream.Filed
import LineageJournal.Proofs.Journal.Filing
import LineageJournal.Proofs.Journal.FailedClose
import LineageJournal.Proofs.Event.Json
import LineageJournal.Proofs.Event.Draft
import LineageJournal.Proofs.Event.Overlay
import LineageJournal.Proofs.Wire.FieldList
import LineageJournal.Proofs.Journal.RecordSize
