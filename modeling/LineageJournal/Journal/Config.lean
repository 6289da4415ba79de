import LineageJournal.Error

/-! Settings of writers and readers, and the smallest buffer that is accepted. -/

namespace LineageJournal

def defaultBufferSize : Nat := 64 * 1024

def minBufferSize : Nat := 1024

def checkBuffer (size : Nat) : Except ConfigError Unit :=
  if size < minBufferSize then .error (.bufferTooSmall size) else .ok ()

structure WriterConfig where
  bufferSize : Nat := defaultBufferSize
  /-- Closing forces the data to stable storage first. -/
  syncOnClose : Bool := false
  deriving DecidableEq, Repr

namespace WriterConfig

def forTesting : WriterConfig := { bufferSize := 4 * 1024, syncOnClose := true }

def validate (config : WriterConfig) : Except ConfigError Unit := checkBuffer config.bufferSize

end WriterConfig

structure ReaderConfig where
  bufferSize : Nat := defaultBufferSize
  deriving DecidableEq, Repr

def ReaderConfig.validate (config : ReaderConfig) : Except ConfigError Unit :=
  checkBuffer config.bufferSize

end LineageJournal
