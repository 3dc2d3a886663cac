import Fabric.RouteTree.Flat
/-!
# Nets

A net joins cell pins, one of which may be its source. Import adds to it the trees of its
route, inside sites and between them, and the sinks that the route is known to reach.
-/

namespace Fabric

inductive NetKind
  | wire | vcc | gnd
deriving DecidableEq, Repr

inductive RouteStatus
  | unrouted | partlyRouted | fullyRouted
deriving DecidableEq, Repr

def RouteStatus.text : RouteStatus → String
  | unrouted => "unrouted"
  | partlyRouted => "partially_routed"
  | fullyRouted => "fully_routed"

structure Net where
  name : String
  kind : NetKind
  pins : List PinId := []
  source : Option PinId := none
  /-- The site pins that the net leaves its source site through. -/
  sourceSitePins : List SitePinId := []
  intersite : List RouteTree := []
  intrasite : List RouteTree := []
  /-- The tree that starts at the source, by its place among the intrasite trees. -/
  sourceRoute : Option Nat := none
  sitePinRoutes : Table SitePinId Nat := ∅
  belPinRoutes : Table BelPinId Nat := ∅
  routedSinks : KeySet PinId := ∅
  isIntrasite : Bool := false
  status : RouteStatus := .unrouted

namespace Net

/-- Constant nets have no source. -/
def isStatic (n : Net) : Bool := n.kind ≠ .wire

def sinks (n : Net) : List PinId := n.pins.filter fun p => some p ≠ n.source

def fanOut (n : Net) : Nat := n.sinks.length

/-! ## Pins -/

/-- Adds a pin. An output pin becomes the source of a signal net that has none. -/
def addPin (n : Net) (p : PinId) (dir : PinDir) : Net :=
  { n with
    pins := n.pins ++ [p]
    source := if dir = .output ∧ n.source = none ∧ !n.isStatic then some p else n.source }

def removePin (n : Net) (p : PinId) : Net :=
  { n with
    pins := n.pins.filter (· ≠ p)
    source := if n.source = some p then none else n.source
    routedSinks := n.routedSinks.erase p }

def setSource (n : Net) (p : PinId) : Net := { n with source := some p }

/-! ## Routes -/

def addSourceSitePin (n : Net) (p : SitePinId) : Net :=
  if n.sourceSitePins.contains p then n else { n with sourceSitePins := n.sourceSitePins ++ [p] }

def removeSourceSitePin (n : Net) (p : SitePinId) : Net :=
  { n with sourceSitePins := n.sourceSitePins.filter (· ≠ p) }

def addIntersite (n : Net) (t : RouteTree) : Net := { n with intersite := n.intersite ++ [t] }

/-- The place of an intrasite tree, a new one being put behind the others. -/
def intrasiteIndex (n : Net) (t : RouteTree) : Nat := (n.intrasite.idxOf? t).getD n.intrasite.length

/-- Adds an intrasite tree unless the net has it already. -/
def addIntrasite (n : Net) (t : RouteTree) : Net :=
  if n.intrasite.contains t then n else { n with intrasite := n.intrasite ++ [t] }

def setSourceRoute (n : Net) (i : Nat) : Net := { n with sourceRoute := some i }

def setSitePinRoute (n : Net) (p : SitePinId) (i : Nat) : Net :=
  { n with sitePinRoutes := n.sitePinRoutes.insert p i }

def setBelPinRoute (n : Net) (p : BelPinId) (i : Nat) : Net :=
  { n with belPinRoutes := n.belPinRoutes.insert p i }

def addRoutedSink (n : Net) (p : PinId) : Net := { n with routedSinks := n.routedSinks.insert p }

def setIntrasite (n : Net) (b : Bool) : Net := { n with isIntrasite := b }

/-- The status that the routed sinks give. A net without sinks is unrouted. -/
def computedStatus (n : Net) : RouteStatus :=
  let routed := (n.sinks.filter n.routedSinks.contains).length
  if routed = 0 then .unrouted
  else if n.fanOut ≤ routed then .fullyRouted
  else .partlyRouted

def updateStatus (n : Net) : Net := { n with status := n.computedStatus }

theorem intrasiteIndex_lt (n : Net) (t : RouteTree) :
    n.intrasiteIndex t < (n.addIntrasite t).intrasite.length := by
  unfold intrasiteIndex addIntrasite
  by_cases h : t ∈ n.intrasite
  · obtain ⟨i, hi⟩ := Option.isSome_iff_exists.1 (List.isSome_idxOf?.2 h)
    have := (List.findIdx?_eq_some_iff_getElem.1 hi).1
    simpa [h, hi] using this
  · simp [h, List.idxOf?_eq_none_iff.2 h]

end Net

end Fabric
