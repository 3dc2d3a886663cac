/-!
# Command line arguments

The arguments name a device and a design and say what to do with a file of routing records.
Options may stand between other arguments, before or behind the word for the command as it
fits them. An argument that begins with a dash is an option, up to one that is just two
dashes.
-/

namespace Fabric.Command

structure ImportOptions where
  routing : String
  xdc : Option String
  partPinXdc : Option String
  withSites : Bool
  /-- The nets to report on. -/
  json : Option (List String)
  jsonOut : String
deriving DecidableEq, Repr

inductive Action
  | import (options : ImportOptions)
  | routeString (routing net : String)
deriving DecidableEq, Repr

structure Arguments where
  device : String
  design : String
  /-- Whether the file of the device is mapped into memory. -/
  raw : Bool
  action : Action
deriving DecidableEq, Repr

/-- Options begin with a dash that is not all. -/
def isOption (arg : String) : Bool :=
  match arg.toList with
  | '-' :: _ :: _ => true
  | _ => false

/-- The file that reports go to when none is named. -/
def defaultJsonOut : String := "routing.json"

/-- What has been read of the options of an import. -/
structure ImportState where
  positional : List String := []
  xdc : Option String := none
  partPinXdc : Option String := none
  withSites : Bool := false
  json : Option (List String) := none
  jsonOut : Option String := none

namespace ImportState

/-- The name of a file must not be empty. -/
def fileName? (s : String) : Option String := if s = "" then none else some s

/-- An option that may stand once only. -/
def once (old : Option String) (value : String) : Option (Option String) :=
  if old.isSome then none else (fileName? value).map some

/-- Sets an option that has a value. Only nets may be named more than once. -/
def setValue? (s : ImportState) (option value : String) : Option ImportState :=
  match option with
  | "--xdc" => do return { s with xdc := ← once s.xdc value }
  | "--part-pin-xdc" => do return { s with partPinXdc := ← once s.partPinXdc value }
  | "--json-out" => do return { s with jsonOut := ← once s.jsonOut value }
  | "--json" => some { s with json := some (s.json.getD [] ++ [value]) }
  | _ => none

def hasValue (option : String) : Bool :=
  ["--xdc", "--part-pin-xdc", "--json-out", "--json"].contains option

def finish? (s : ImportState) : Option ImportOptions :=
  match s.positional with
  | [routing] => do
    return {
      routing := ← fileName? routing, xdc := s.xdc, partPinXdc := s.partPinXdc
      withSites := s.withSites, json := s.json, jsonOut := s.jsonOut.getD defaultJsonOut }
  | _ => none

/-- Reads the arguments behind `import`. -/
def read? (s : ImportState) : List String → Option ImportOptions
  | [] => s.finish?
  | arg :: rest =>
    if arg = "--" then { s with positional := s.positional ++ rest }.finish?
    else if !isOption arg then { s with positional := s.positional ++ [arg] }.read? rest
    else if arg = "--intrasite" then
      if s.withSites then none else { s with withSites := true }.read? rest
    else if hasValue arg then
      match rest with
      | [] => none
      | value :: rest =>
        if isOption value then none
        else
          match s.setValue? arg value with
          | none => none
          | some s => s.read? rest
    else
      let name := arg.toList.takeWhile (· ≠ '=')
      let value := (arg.toList.dropWhile (· ≠ '=')).drop 1
      if name.length = arg.length then none
      else
        match s.setValue? (.ofList name) (.ofList value) with
        | none => none
        | some s => s.read? rest

end ImportState

def routeString? : List String → Option Action
  | [routing, net] => (ImportState.fileName? routing).map fun routing => .routeString routing net
  | _ => none

/-- Reads the arguments behind `route-string`: a file and a net. -/
def readRouteString? (positional : List String) : List String → Option Action
  | [] => routeString? positional
  | arg :: rest =>
    if arg = "--" then routeString? (positional ++ rest)
    else if isOption arg then none
    else readRouteString? (positional ++ [arg]) rest

/-- Reads all arguments. The first word for a command ends those of the program itself, and
the word `help` leads to no command. -/
def readFrom? (raw : Bool) (positional : List String) : List String → Option Arguments
  | [] => none
  | arg :: rest =>
    if arg = "--raw" then if raw then none else readFrom? true positional rest
    else if isOption arg ∨ arg = "help" then none
    else if arg = "import" ∨ arg = "route-string" then
      match positional with
      | [device, design] => do
        let action ←
          if arg = "import" then (ImportState.read? {} rest).map Action.import
          else readRouteString? [] rest
        return {
          device := ← ImportState.fileName? device
          design := ← ImportState.fileName? design
          raw, action }
      | _ => none
    else readFrom? raw (positional ++ [arg]) rest

/-- The meaning of the arguments, if they have one. -/
def Arguments.ofList? (args : List String) : Option Arguments := readFrom? false [] args

end Fabric.Command
