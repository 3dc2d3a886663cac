import Fabric.Key
/-!
# Wires and connections

A wire belongs to a tile or runs inside a site, and is told apart by its name there.
A connection leads from one wire to another. Plain ones always conduct, switched ones
only where they are configured to.
-/

namespace Fabric

/-- Direction of a pin, seen from the resource that has it. -/
inductive PinDir
  | input | output | inout
deriving DecidableEq, Repr

namespace PinDir

def isInput : PinDir → Bool
  | .input | .inout => true
  | .output => false

def isOutput : PinDir → Bool
  | .output | .inout => true
  | .input => false

def text : PinDir → String
  | .input => "input"
  | .output => "output"
  | .inout => "inout"

end PinDir

inductive Wire
  | tile (tile : TileId) (name : WireName)
  | site (site : SiteId) (name : WireName)
deriving DecidableEq, Repr

namespace Wire

def name : Wire → WireName
  | tile _ w | site _ w => w

/-- The number of the tile or site that the wire belongs to. -/
def owner : Wire → Nat
  | tile t _ => t.index
  | site s _ => s.index

def rank : Wire → Nat
  | tile .. => 0
  | site .. => 1

/-- Tile wires come before site wires. -/
instance : Ord Wire :=
  ⟨compareLex (compareOn rank) (compareLex (compareOn owner) (compareOn name))⟩

instance : Std.TransOrd Wire :=
  inferInstanceAs
    (Std.TransCmp (compareLex (compareOn rank) (compareLex (compareOn owner) (compareOn name))))

theorem eq_of_keys {a b : Wire} (hr : a.rank = b.rank) (ho : a.owner = b.owner)
    (hn : a.name = b.name) : a = b := by
  cases a <;> cases b <;> simp_all [rank, owner, name, Key.ext_iff]

theorem compare_def (a b : Wire) :
    compare a b =
      (compare a.rank b.rank).then ((compare a.owner b.owner).then (compare a.name b.name)) := rfl

instance : Std.LawfulEqOrd Wire where
  eq_of_compare {a b} h := by
    rw [compare_def, Ordering.then_eq_eq, Ordering.then_eq_eq] at h
    obtain ⟨hr, ho, hn⟩ := h
    exact eq_of_keys (Std.LawfulEqOrd.eq_of_compare hr) (Std.LawfulEqOrd.eq_of_compare ho)
      (Std.LawfulEqOrd.eq_of_compare hn)

end Wire

inductive ConnKind
  /-- Hard-wired. -/
  | wire
  /-- A programmable interconnect point. -/
  | pip
  /-- A path through a BEL that is set up to pass a signal on. -/
  | routeThrough
deriving DecidableEq, Repr

namespace ConnKind

def isSwitched : ConnKind → Bool
  | .wire => false
  | .pip | .routeThrough => true

def text : ConnKind → String
  | .wire => "wire"
  | .pip => "pip"
  | .routeThrough => "routethrough"

end ConnKind

structure Connection where
  source : Wire
  sink : Wire
  kind : ConnKind
deriving DecidableEq, Repr

def Connection.isPip (c : Connection) : Bool := c.kind = .pip

def Connection.isRouteThrough (c : Connection) : Bool := c.kind = .routeThrough

def Connection.isSwitched (c : Connection) : Bool := c.kind.isSwitched

/-- Device families differ in how polarity selectors are exported. -/
inductive Family
  | series7 | ultrascale | other
deriving DecidableEq, Repr

end Fabric
