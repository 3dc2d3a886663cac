import Fabric.RouteTree.Basic
/-!
# Switched hops of a route

Plain wires need no configuration, so a written route names only the wires that switched
connections lead to. The true children of a node are the nearest such nodes below it, and
the flat tree has the true children of each node as its children.
-/

namespace Fabric.RouteTree

/-- The switched nodes at or below a level of nodes, looking past plain ones, nearest first. -/
def switchedFrom (t : RouteTree) : Nat → List Nat → List Nat
  | 0, _ => []
  | depth + 1, level =>
    match level with
    | [] => []
    | n :: ns =>
      (n :: ns).filter t.isSwitched ++
        t.switchedFrom depth (((n :: ns).filter fun m => !t.isSwitched m).flatMap t.children)

/-- The nodes below `n` that switched connections lead to with only plain ones in between.
No path is longer than the tree has nodes. -/
def trueChildren (t : RouteTree) (n : Nat) : List Nat := t.switchedFrom t.size (t.children n)

def trueChildren? (t : RouteTree) (n : Nat) : Option (List Nat) :=
  (t.node? n).map fun _ => t.trueChildren n

/-- Adds nodes of `t` below node `dst` of `flat`, and tells which number each one got. -/
def growAll (t : RouteTree) (dst : Nat) (flat : RouteTree) : List Nat → RouteTree × List (Nat × Nat)
  | [] => (flat, [])
  | n :: ns =>
    match (t.node? n).bind Node.link with
    | none => t.growAll dst flat ns
    | some c =>
      let (grown, added) := t.growAll dst (flat.grow dst c) ns
      (grown, (n, flat.size) :: added)

/-- Adds the switched nodes below `src` to `flat`, below its node `dst`. The children of a node
get consecutive numbers, then the last of them is followed down first. -/
def flattenBelow (t : RouteTree) : Nat → Nat → Nat → RouteTree → RouteTree
  | 0, _, _, flat => flat
  | depth + 1, src, dst, flat =>
    let (grown, added) := t.growAll dst flat (t.trueChildren src)
    added.foldr (fun (n, m) acc => t.flattenBelow depth n m acc) grown

/-- The tree in which the children of each node are its true children. -/
def flattened (t : RouteTree) : RouteTree :=
  match t.wire? 0 with
  | none => t
  | some w => t.flattenBelow t.size 0 0 (ofRoot w)

@[simp] theorem switchedFrom_nil (t : RouteTree) (depth : Nat) : t.switchedFrom depth [] = [] := by
  cases depth <;> rfl

/-- The switched nodes of a level come before those that are found below its plain ones. -/
theorem switchedFrom_succ (t : RouteTree) (depth : Nat) (level : List Nat) :
    t.switchedFrom (depth + 1) level = level.filter t.isSwitched ++
      t.switchedFrom depth ((level.filter fun m => !t.isSwitched m).flatMap t.children) := by
  cases level with
  | nil => simp
  | cons n ns => rfl

theorem isSwitched_of_mem_switchedFrom {t : RouteTree} {depth n : Nat} {level : List Nat}
    (h : n ∈ t.switchedFrom depth level) : t.isSwitched n := by
  induction depth generalizing level with
  | zero => simp [switchedFrom] at h
  | succ depth ih =>
    rw [switchedFrom_succ, List.mem_append] at h
    rcases h with h | h
    · exact (List.mem_filter.1 h).2
    · exact ih h

end Fabric.RouteTree
