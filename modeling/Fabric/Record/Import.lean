import Fabric.Record.Nets
import Fabric.Record.Ports
import Fabric.Text.Blank
import Fabric.Text.Lines
/-!
# Importing routing records

Records are taken in one after another up to the first that is refused. At the end the
status of the constant nets is brought up to date.
-/

namespace Fabric

namespace Record

variable (d : Device)

/-- Takes in a record that stands on one line. -/
def process : RecordKind → List String → RecordM Unit
  | .sitePips => sitePips d
  | .intersite => intersite d
  | .intrasite => intrasite d
  | .route => route d
  | .routethroughs => routethroughs d
  | .staticSources isVcc => staticSources d isVcc
  | .partitionPin => partitionPin d
  | .staticPorts isVcc => staticPorts isVcc

/-- The numbered lines of a text as words. -/
def numberedLines (text : String) : List (Nat × List String) :=
  (Text.lines text).zipIdx.map fun (line, i) => (i + 1, Text.words line)

/-- Takes in the records of lines. Blank lines between records are passed over. -/
def processLines : List (Nat × List String) → ImportM Unit
  | [] => return
  | (_, []) :: rest => processLines rest
  | (line, keyword :: args) :: rest =>
    match RecordKind.staticNet? keyword, rest with
    | some _, [] => throw ⟨line, .missingStartWires keyword⟩
    | some isVcc, (startLine, words) :: rest => do
      if words.head? ≠ some RecordKind.startWires then
        throw ⟨startLine, .missingStartWires keyword⟩
      staticNet d isVcc line startLine args words.tail
      processLines rest
    | none, rest => do
      match RecordKind.ofKeyword? keyword with
      | none => throw ⟨line, .unrecognizedToken keyword⟩
      | some kind => atLine line (process d kind args)
      processLines rest

/-- Brings the status of the constant nets up to date. -/
def finish : ImportM Unit := do
  let im ← get
  let nl ← im.netlist.updateNet Netlist.vcc Net.updateStatus
  set { im with netlist := ← nl.updateNet Netlist.gnd Net.updateStatus }

def importText (text : String) : ImportM Unit := do
  processLines d (numberedLines text)
  finish

end Record

namespace Importer

/-- Takes in a text of records. The importer holds what they changed, also when one is refused. -/
def importText (im : Importer) (d : Device) (text : String) :
    Except Fault (Except ImportError Unit × Importer) :=
  (Record.importText d text).run.run im

end Importer

end Fabric
