import LineageJournal.SortedMap
import LineageJournal.Text.Utf8
import LineageJournal.Stream.FileFeed
import LineageJournal.Stream.FileSink

/-! Directories: the contents of files by name. There are no directories inside, so a name
with a directory part leads nowhere. -/

namespace LineageJournal

abbrev Directory := SortedMap String (List UInt8)

namespace Directory

def missing : Failure := ⟨.notFound, "No such file or directory (os error 2)"⟩

def notADirectory : Failure := ⟨.notADirectory, "Not a directory (os error 20)"⟩

def nameTooLong : Failure := ⟨.invalidFilename, "File name too long (os error 36)"⟩

def nameHoldsNul : Failure := ⟨.invalidInput, "file name contained an unexpected NUL byte"⟩

def maxNameLength : Nat := 255

/-- Names of dots and slashes alone lead to this directory or to one around it. -/
def leadsToDirectory (name : String) : Bool :=
  !name.isEmpty && (name.splitOn "/").all fun part => ["", ".", ".."].contains part

def checkName (directory : Directory) (name : String) : Except Failure Unit :=
  if name.contains '\x00' then .error nameHoldsNul
  else if leadsToDirectory name then .error FileCursor.isADirectory
  else
    match name.splitOn "/" with
    | [name] =>
      if name.isEmpty then .error missing
      else if maxNameLength < (Utf8.encode name).length then .error nameTooLong
      else .ok ()
    | first :: _ =>
      .error (if (directory.get? first).isSome then notADirectory else missing)
    | [] => .error missing

def content (directory : Directory) (name : String) : Except Failure (List UInt8) := do
  directory.checkName name
  match directory.get? name with
  | some content => return content
  | none => .error missing

/-- Opens a file at its first byte, or a directory. -/
def openToRead (directory : Directory) (name : String) (capacity : Nat) :
    Except Failure FileFeed :=
  if leadsToDirectory name then .ok (.ofDirectory capacity)
  else (directory.content name).map (.openAt · capacity)

/-- Puts the content in, in place of what the file held before if it is there. -/
def replace (directory : Directory) (name : String) (content : List UInt8) :
    Except Failure Directory := do
  directory.checkName name
  return directory.insert name content

def create (directory : Directory) (name : String) : Except Failure Directory :=
  directory.replace name []

/-- Cuts the file to a length; a shorter one stays as it is. -/
def truncate (directory : Directory) (name : String) (length : Nat) : Except Failure Directory :=
  (directory.content name).map fun content => directory.insert name (content.take length)

end Directory

end LineageJournal
