import Fabric.Device.Wire
/-!
# Route trees

The route of a net as a tree of wires. Nodes are numbered in the order in which they
were found, so a parent comes before its children, and node 0 is the root.
-/

namespace Fabric

structure RouteTree.Node where
  wire : Wire
  /-- How the node is reached from its parent, absent at the root. -/
  link : Option Connection
  parent : Option Nat
  children : List Nat
deriving DecidableEq, Repr

structure RouteTree where
  nodes : Array RouteTree.Node
deriving DecidableEq, Repr

namespace RouteTree

def Node.isSwitched (n : Node) : Bool := n.link.any Connection.isSwitched

def ofRoot (w : Wire) : RouteTree := ⟨#[⟨w, none, none, []⟩]⟩

def size (t : RouteTree) : Nat := t.nodes.size

def node? (t : RouteTree) (n : Nat) : Option Node := t.nodes[n]?

def wire? (t : RouteTree) (n : Nat) : Option Wire := (t.node? n).map Node.wire

def parent? (t : RouteTree) (n : Nat) : Option Nat := (t.node? n).bind Node.parent

/-- The children of a node, oldest first. -/
def children (t : RouteTree) (n : Nat) : List Nat := ((t.node? n).map Node.children).getD []

/-- Whether the node is reached by a switched connection. -/
def isSwitched (t : RouteTree) (n : Nat) : Bool := (t.node? n).any Node.isSwitched

/-! ## Growth -/

/-- Adds the sink of a connection as the newest child of node `p`. -/
def grow (t : RouteTree) (p : Nat) (c : Connection) : RouteTree :=
  ⟨(t.nodes.modify p fun n => { n with children := n.children ++ [t.size] }).push
    ⟨c.sink, some c, some p, []⟩⟩

/-- Adds one hop. The connection has to start at the wire of an existing node; the new node
comes with the tree. -/
def extend? (t : RouteTree) (p : Nat) (c : Connection) : Option (Nat × RouteTree) :=
  if t.wire? p = some c.source then some (t.size, t.grow p c) else none

@[simp] theorem size_ofRoot (w : Wire) : (ofRoot w).size = 1 := rfl

@[simp] theorem size_grow (t : RouteTree) (p : Nat) (c : Connection) :
    (t.grow p c).size = t.size + 1 := by
  simp [grow, size]

@[simp] theorem node?_ofRoot_zero (w : Wire) :
    (ofRoot w).node? 0 = some ⟨w, none, none, []⟩ := rfl

theorem node?_grow_size (t : RouteTree) (p : Nat) (c : Connection) :
    (t.grow p c).node? t.size = some ⟨c.sink, some c, some p, []⟩ := by
  rw [grow, node?, Array.getElem?_push]
  simp [size]

/-! ## Views -/

def wires (t : RouteTree) : List Wire := t.nodes.toList.map Node.wire

/-- The first node on a wire. -/
def findWire? (t : RouteTree) (w : Wire) : Option Nat := t.wires.idxOf? w

def containsWire (t : RouteTree) (w : Wire) : Bool := t.wires.contains w

/-- The nodes without children. -/
def leaves (t : RouteTree) : List Nat := (List.range t.size).filter fun n => (t.children n).isEmpty

/-- The number of switched connections. -/
def pipCount (t : RouteTree) : Nat := t.nodes.toList.countP Node.isSwitched

/-- The nodes from `n` up to the root. -/
def pathToRoot (t : RouteTree) (n : Nat) : List Nat :=
  match t.parent? n with
  | none => [n]
  | some p => if p < n then n :: t.pathToRoot p else [n]
termination_by n

/-! ## Pruning -/

/-- Marks the parent of a marked node. -/
def markParent (t : RouteTree) (i : Nat) (marks : KeySet Nat) : KeySet Nat :=
  match t.parent? i with
  | none => marks
  | some p => if marks.contains i then marks.insert p else marks

/-- Marks the parents of the marked ones among the first `i` nodes, last one first. -/
def markUp (t : RouteTree) : Nat → KeySet Nat → KeySet Nat
  | 0, marks => marks
  | i + 1, marks => t.markUp i (t.markParent i marks)

/-- The root, the nodes of `keep` and all nodes above them. A parent comes before its children, so
one pass gets all the way up. -/
def marked (t : RouteTree) (keep : List Nat) : KeySet Nat := t.markUp t.size (.ofList (0 :: keep))

/-- The nodes that pruning leaves, in their old order. -/
def retained (t : RouteTree) (keep : List Nat) : List Nat :=
  (List.range t.size).filter (t.marked keep).contains

/-- The node under new numbers, `ids` holding the old ones in order. -/
def Node.renumber (ids : List Nat) (n : Node) : Node :=
  { n with parent := n.parent.bind ids.idxOf?, children := n.children.filterMap ids.idxOf? }

/-- Drops every node that is neither in `keep` nor above a node of `keep`. The root stays, and
the others keep their order. -/
def prune (t : RouteTree) (keep : List Nat) : RouteTree :=
  let ids := t.retained keep
  ⟨(ids.filterMap t.node?).toArray.map (Node.renumber ids)⟩

/-- Prunes when all of `keep` are nodes of the tree. -/
def prune? (t : RouteTree) (keep : List Nat) : Option RouteTree :=
  if keep.all (· < t.size) then some (t.prune keep) else none

end RouteTree

end Fabric
