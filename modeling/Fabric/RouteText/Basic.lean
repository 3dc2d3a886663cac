/-!
# Written routes

A `ROUTE` value lists the wires that the switched connections of a route lead to. As a tree,
every wire has the wires reached next from it as its children. The last child continues
the group of its parent, the others open groups of their own.
-/

namespace Fabric

structure RouteText where
  wire : String
  children : List RouteText
deriving Repr

namespace RouteText

mutual

def decideEq : (a b : RouteText) → Decidable (a = b)
  | ⟨v, as⟩, ⟨w, bs⟩ =>
    match instDecidableEqString v w, decideEqAll as bs with
    | isTrue h, isTrue hs => isTrue (by rw [h, hs])
    | isFalse h, _ => isFalse fun e => h (RouteText.mk.inj e).1
    | _, isFalse hs => isFalse fun e => hs (RouteText.mk.inj e).2

def decideEqAll : (as bs : List RouteText) → Decidable (as = bs)
  | [], [] => isTrue rfl
  | [], _ :: _ => isFalse nofun
  | _ :: _, [] => isFalse nofun
  | a :: as, b :: bs =>
    match decideEq a b, decideEqAll as bs with
    | isTrue h, isTrue hs => isTrue (by rw [h, hs])
    | isFalse h, _ => isFalse fun e => h (List.cons.inj e).1
    | _, isFalse hs => isFalse fun e => hs (List.cons.inj e).2

end

instance : DecidableEq RouteText := decideEq

@[elab_as_elim] theorem induction {motive : RouteText → Prop}
    (mk : ∀ w cs, (∀ c ∈ cs, motive c) → motive ⟨w, cs⟩) : ∀ t, motive t
  | ⟨w, cs⟩ => mk w cs fun c _ => induction mk c

mutual

/-- The wires of a route, a node before its children. -/
def wires : RouteText → List String
  | ⟨w, cs⟩ => w :: wiresAll cs

def wiresAll : List RouteText → List String
  | [] => []
  | c :: cs => c.wires ++ wiresAll cs

end

mutual

/-- The first node with the wire `w`, a node before its children. -/
def find? (w : String) : RouteText → Option RouteText
  | ⟨v, cs⟩ => if v = w then some ⟨v, cs⟩ else findAll? w cs

def findAll? (w : String) : List RouteText → Option RouteText
  | [] => none
  | c :: cs =>
    match find? w c with
    | some t => some t
    | none => findAll? w cs

end

/-! ## Joining two routes -/

mutual

/-- Adds children to the first node with the wire `w`. -/
def graft? (w : String) (new : List RouteText) : RouteText → Option RouteText
  | ⟨v, cs⟩ => if v = w then some ⟨v, cs ++ new⟩ else (graftAll? w new cs).map (⟨v, ·⟩)

def graftAll? (w : String) (new : List RouteText) : List RouteText → Option (List RouteText)
  | [] => none
  | c :: cs =>
    match graft? w new c with
    | some d => some (d :: cs)
    | none => (graftAll? w new cs).map (c :: ·)

end

/-- Adds the children of `other` to the node of `t` that has the wire of its root. -/
def mergeFrom? (t other : RouteText) : Option RouteText := graft? other.wire other.children t

/-- Joins the route of the static part and that of a module at the node between them. The
route that is driven through the node has it as its root and goes below the other one. -/
def joinAt? (staticRoute moduleRoute : RouteText) (node : String) (moduleIsDriven : Bool) :
    Option RouteText :=
  let (driving, driven) :=
    if moduleIsDriven then (staticRoute, moduleRoute) else (moduleRoute, staticRoute)
  if driven.wire = node then driving.mergeFrom? driven else none

/-! ## Wires -/

theorem wires_eq_cons (t : RouteText) : t.wires = t.wire :: wiresAll t.children := by
  cases t
  rw [wires]

theorem wiresAll_eq_flatMap (cs : List RouteText) : wiresAll cs = cs.flatMap wires := by
  induction cs with
  | nil => rfl
  | cons c cs ih => rw [wiresAll, ih, List.flatMap_cons]

theorem mem_wiresAll {w : String} {cs : List RouteText} :
    w ∈ wiresAll cs ↔ ∃ c ∈ cs, w ∈ c.wires := by
  rw [wiresAll_eq_flatMap, List.mem_flatMap]

theorem wiresAll_append (as bs : List RouteText) :
    wiresAll (as ++ bs) = wiresAll as ++ wiresAll bs := by
  simp only [wiresAll_eq_flatMap, List.flatMap_append]

end RouteText

end Fabric
