import Fabric.Device.Build
import Fabric.File.Access
import Fabric.Gzip.Member
import Fabric.Json.Reader
import Fabric.Netlist.Build
import Fabric.Record.Import
import Fabric.Yaml.Reader
/-!
# Loading files

Descriptions and routing records are read from files, which may be compressed. The name of a
file tells how to read it.
-/

namespace Fabric

inductive LoadError
  | cannotOpen (path : String) (fault : FileFault)
  | unreadable (format : FileFormat)
  | io (reason : String)
deriving DecidableEq, Repr

def LoadError.message : LoadError → String
  | cannotOpen path fault => "Can't open file " ++ path ++ ": " ++ fault.message
  | unreadable .json => "JSON error: not a description"
  | unreadable .yaml => "YAML error: not a description"
  | io reason => "IO error: " ++ reason

/-- The value that data spells in a format. -/
def readValue? : FileFormat → List UInt8 → Option Json
  | .json => Json.ofBytes?
  | .yaml => Yaml.ofBytes?

/-- The data of a file, decompressed if its name says so. -/
def unpack (path : String) (content : List UInt8) : Except String (List UInt8) :=
  if FileFormat.isGzipped path then (Gzip.decode content).mapError Gzip.GzipError.message
  else .ok content

/-- Reads a description from the content of a file. -/
def decodeFile (decode : Json.Decoder α) (path : String) (file : Except FileError (List UInt8)) :
    Except LoadError α := do
  let content ← file.mapError fun
    | .cannotOpen fault => .cannotOpen path fault
    | .cannotRead fault => .io fault.message
  let data ← (unpack path content).mapError .io
  let format := FileFormat.ofPath path
  match (readValue? format data).bind (decode format) with
  | some a => return a
  | none => .error (.unreadable format)

inductive DeviceFileError
  | load (e : LoadError)
  | invalid (e : DeviceError)
deriving DecidableEq, Repr

def DeviceFileError.message : DeviceFileError → String
  | load e => e.message
  | invalid e => e.message

inductive NetlistFileError
  | load (e : LoadError)
  | invalid (e : NetlistError)
deriving DecidableEq, Repr

def NetlistFileError.message : NetlistFileError → String
  | load e => e.message
  | invalid e => e.message

inductive ImportFileError
  | io (reason : String)
  | refused (file : String) (e : ImportError)
deriving DecidableEq, Repr

def ImportFileError.message : ImportFileError → String
  | io reason => "IO error: " ++ reason
  | refused file e => e.message file

namespace File

variable {m : Type → Type} [Monad m] (files : FileAccess m)

/-- Opens a device. Its file may be mapped into memory if it is not compressed. -/
def openDevice (raw : Bool) (path : String) : m (Except DeviceFileError Device) := do
  let file ← files.read (raw && !FileFormat.isGzipped path) path
  return do
    let desc ← (decodeFile DeviceDescription.decode path file).mapError .load
    (Device.ofDescription desc).mapError .invalid

def openNetlist (d : Device) (path : String) : m (Except NetlistFileError Netlist) := do
  let file ← files.read false path
  return do
    let desc ← (decodeFile NetlistDescription.decode path file).mapError .load
    (Netlist.ofDescription d desc).mapError .invalid

/-- The text of a file of records. -/
def recordText (path : String) (file : Except FileError (List UInt8)) : Except String String := do
  let data ← unpack path (← file.mapError fun e => e.fault.message)
  match String.fromUTF8? ⟨data.toArray⟩ with
  | some text => return text
  | none => .error "stream did not contain valid UTF-8"

/-- Takes in a file of records. -/
def importRecords (d : Device) (im : Importer) (path : String) :
    m (Except Fault (Except ImportFileError Unit × Importer)) := do
  match recordText path (← files.read false path) with
  | .error reason => return .ok (.error (.io reason), im)
  | .ok text =>
    return do
      let (result, im) ← im.importText d text
      return (result.mapError (.refused path), im)

end File

end Fabric
