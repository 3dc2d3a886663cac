/-!
# Errors in routing records

Why a record was refused. An error in a file also names the line.
-/

namespace Fabric

inductive RecordError
  | unrecognizedToken (token : String)
  | tokenCount (expected actual : Nat)
  | unknownNet (name : String)
  | unknownCell (name : String)
  | unknownSite (name : String)
  | unknownSitePin (site pin : String)
  | unknownBel (site bel : String)
  | unknownBelPin (bel pin : String)
  | unknownTile (name : String)
  | unknownWire (name : String)
  | noSourcePin (net : String)
  | noSourceSitePin (net : String)
  | belPinMapping (pin : String) (count : Nat)
  | invalidPip (token : String)
  | missingStartWires (net : String)
  | invalidDirection (token : String)
  | sitePipConnections (wire : String) (count : Nat)
  | portPinCount (port : String) (count : Nat)
  | noIntrasiteRoute (sourcePin net : String)
deriving DecidableEq, Repr

def RecordError.message : RecordError → String
  | unrecognizedToken token => "Unrecognized Token: " ++ token
  | tokenCount expected actual =>
    "Incorrect number of tokens. Expected: " ++ toString expected ++ " Actual: " ++ toString actual
  | unknownNet name => "Net \"" ++ name ++ "\" does not exist in the current design"
  | unknownCell name => "Cell \"" ++ name ++ "\" does not exist in the current design"
  | unknownSite name => "Site \"" ++ name ++ "\" does not exist in the current device"
  | unknownSitePin site pin =>
    "SitePin \"" ++ site ++ "/" ++ pin ++ "\" does not exist in the current device"
  | unknownBel site bel =>
    "BEL \"" ++ site ++ "/" ++ bel ++ "\" does not exist in the current device"
  | unknownBelPin bel pin =>
    "BelPin \"" ++ bel ++ "/" ++ pin ++ "\" does not exist in the current device"
  | unknownTile name => "Tile \"" ++ name ++ "\" does not exist in the current device"
  | unknownWire name => "Wire \"" ++ name ++ "\" does not exist in the current device"
  | noSourcePin net => "Net \"" ++ net ++ "\" does not have a source pin"
  | noSourceSitePin net => "Net \"" ++ net ++ "\" should have at least one source site pin"
  | belPinMapping pin count =>
    "Cell pin source \"" ++ pin ++ "\" should map to exactly one BelPin, but maps to " ++
      toString count
  | invalidPip token => "Invalid Pip String configuration: " ++ token
  | missingStartWires net => "Expected a START_WIRES line after the " ++ net ++ " net"
  | invalidDirection token => "Invalid partition pin direction: " ++ token
  | sitePipConnections wire count =>
    "Site pip wire " ++ wire ++ " should have one or no connections, found " ++ toString count
  | portPinCount port count =>
    "Port cell \"" ++ port ++ "\" should have exactly one pin, but has " ++ toString count
  | noIntrasiteRoute sourcePin net =>
    "Valid intrasite route not found from " ++ sourcePin ++ " (net " ++ net ++ ")"

/-- A refused record and its line, counted from one. -/
structure ImportError where
  line : Nat
  cause : RecordError
deriving DecidableEq, Repr

/-- The text of an error in the named file. -/
def ImportError.message (e : ImportError) (file : String) : String :=
  e.cause.message ++ "\nOn line " ++ toString e.line ++ " of " ++ file

end Fabric
