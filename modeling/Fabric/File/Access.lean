/-!
# Access to files

The program reads whole files and writes whole files. Why one cannot be used is told in the
words of the operating system.
-/

namespace Fabric

/-- Why a file cannot be used. -/
inductive FileFault
  | noSuchFile
  | notAFolder
  | isAFolder
  /-- Folders cannot be mapped into memory. -/
  | noSuchDevice
  | nameTooLong
  /-- No path holds a character zero. -/
  | zeroInPath
  | other (reason : String)
deriving DecidableEq, Repr

def FileFault.message : FileFault → String
  | noSuchFile => "No such file or directory (os error 2)"
  | notAFolder => "Not a directory (os error 20)"
  | isAFolder => "Is a directory (os error 21)"
  | noSuchDevice => "No such device (os error 19)"
  | nameTooLong => "File name too long (os error 36)"
  | zeroInPath => "file name contained an unexpected NUL byte"
  | other reason => reason

/-- What goes wrong in reading a file. A folder can be opened, but not read. -/
inductive FileError
  | cannotOpen (fault : FileFault)
  | cannotRead (fault : FileFault)
deriving DecidableEq, Repr

def FileError.fault : FileError → FileFault
  | cannotOpen fault | cannotRead fault => fault

structure FileAccess (m : Type → Type) where
  /-- Reads a file, or maps it into memory. -/
  read (mapped : Bool) (path : String) : m (Except FileError (List UInt8))
  /-- Makes or replaces a file. -/
  write (path content : String) : m (Except FileFault Unit)

end Fabric
