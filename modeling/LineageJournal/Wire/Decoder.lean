import LineageJournal.Wire.Fault

/-! Decoders as trees of demands. A decoder is done, has failed, or asks for a number of
bytes and goes on with them; it sees no byte it has not asked for. How the bytes arrive is
left to whoever runs it: `run` takes them from a list. -/

namespace LineageJournal.Wire

/-- How the bytes of one demand are fetched, and so how their absence is reported. -/
inductive Demand where
  /-- All at once, for fields of known small size. -/
  | whole
  /-- In growing blocks, so a corrupt length costs no memory. -/
  | blocks
  deriving DecidableEq, Repr

def Demand.shortage : Demand → (count got : Nat) → DecodeFault
  | whole, _, _ => .truncated
  | blocks, count, got => .stringTruncated count got

inductive Decoder (α : Type) where
  | done (value : α)
  | fail (fault : DecodeFault)
  | take (count : Nat) (demand : Demand) (next : List UInt8 → Decoder α)

namespace Decoder

variable {α β : Type}

def bind : Decoder α → (α → Decoder β) → Decoder β
  | done value, rest => rest value
  | fail fault, _ => fail fault
  | take count demand next, rest => take count demand fun bytes => (next bytes).bind rest

instance : Monad Decoder where
  pure := done
  bind := bind

def run : Decoder α → List UInt8 → Except DecodeFault (α × List UInt8)
  | done value, bytes => .ok (value, bytes)
  | fail fault, _ => .error fault
  | take count demand next, bytes =>
    let got := bytes.take count
    if got.length < count then .error (demand.shortage count got.length)
    else (next got).run (bytes.drop count)

def timesFrom (item : Decoder α) (earlier : List α) : Nat → Decoder (List α)
  | 0 => done earlier.reverse
  | count + 1 => item.bind fun value => timesFrom item (value :: earlier) count

def times (item : Decoder α) (count : Nat) : Decoder (List α) := timesFrom item [] count

end Decoder

end LineageJournal.Wire
