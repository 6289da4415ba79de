import LineageJournal.Stream.Feed
import LineageJournal.Wire.Decoder

/-! Running decoders over feeds. Each demand is gathered whole before the decoder sees it. -/

namespace LineageJournal.Wire

def Demand.pace : Demand → Pace
  | whole => .whole
  | blocks => .growing .untried

namespace Decoder

def readFrom {α σ : Type} [ByteFeed σ] : Decoder α → σ → Except Failure α × σ
  | done value, feed => (.ok value, feed)
  | fail fault, feed => (.error fault.failure, feed)
  | take count demand next, feed =>
    match gather demand.pace count feed with
    | (.full bytes, feed) => (next bytes).readFrom feed
    | (.short bytes, feed) => (.error (demand.shortage count bytes.length).failure, feed)
    | (.failed failure, feed) => (.error failure, feed)

end Decoder

end LineageJournal.Wire
