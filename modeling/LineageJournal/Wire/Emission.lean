import LineageJournal.Wire.Fault

/-! Emissions: the bytes an encoder puts out, up to its first fault. -/

namespace LineageJournal.Wire

structure Emission where
  bytes : List UInt8
  fault : Option EncodeFault := none
  deriving DecidableEq, Repr

namespace Emission

def empty : Emission := { bytes := [] }

def refuse (fault : EncodeFault) : Emission := { bytes := [], fault := some fault }

/-- Nothing is put out after a fault. -/
def append (first second : Emission) : Emission :=
  match first.fault with
  | none => { bytes := first.bytes ++ second.bytes, fault := second.fault }
  | some _ => first

instance : Append Emission := ⟨append⟩

def concat (emissions : List Emission) : Emission := emissions.foldr append empty

def toExcept (emission : Emission) : Except EncodeFault (List UInt8) :=
  match emission.fault with
  | none => .ok emission.bytes
  | some fault => .error fault

end Emission

end LineageJournal.Wire
