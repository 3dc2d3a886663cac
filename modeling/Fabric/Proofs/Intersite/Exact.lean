import Fabric.Intersite
import Fabric.Proofs.Device.Wiring
import Fabric.Proofs.RouteTree.Search
/-!
# What a search between sites finds

The set of visited wires repeats the wires of the tree, and the callback only looks on. What
is left of the search is the breadth-first search over the connections that a route may use:
its tree holds exactly the wires that these lead to, each on a shortest way.
-/

namespace Fabric.Intersite

variable {d : Device} {pips : PipSet}

def Usable (d : Device) (pips : PipSet) (w : Wire) (c : Connection) : Prop :=
  c ∈ d.connections w ∧
    (c.kind = .wire ∨ pips.contains ⟨d.wireFullName c.source, d.wireFullName c.sink⟩)

def usable (d : Device) (pips : PipSet) (w : Wire) : List Connection :=
  (d.connections w).filter (admits d pips)

theorem isSwitched_eq_false {c : Connection} : c.isSwitched = false ↔ c.kind = .wire := by
  cases hk : c.kind <;> simp [Connection.isSwitched, ConnKind.isSwitched, hk]

theorem mem_usable {w : Wire} {c : Connection} : c ∈ usable d pips w ↔ Usable d pips w c := by
  simp [usable, Usable, admits, isSwitched_eq_false]

theorem source_of_mem_usable {w : Wire} {c : Connection} (hc : c ∈ usable d pips w) :
    c.source = w :=
  Device.source_of_mem_connections (mem_usable.1 hc).1

/-! ## The tree of the search -/

theorem follow_spec (d : Device) (pips : PipSet) {s : Search} (hs : s.tree.HasWires s.visited)
    (node : Nat) (c : Connection) :
    (follow d pips node s c).tree.HasWires (follow d pips node s c).visited ∧
      (follow d pips node s c).tree =
        if admits d pips c then s.tree.reach node c else s.tree := by
  unfold follow
  split
  next hnew => exact ⟨hs.grow node c, (hs.reach_of_new node hnew).symm⟩
  next hold => exact ⟨hs, (hs.reach_of_old node hold).symm⟩

theorem expand_spec (d : Device) (pips : PipSet) {s : Search} (hs : s.tree.HasWires s.visited)
    (node : Nat) (w : Wire) :
    (expand d pips node w s).tree.HasWires (expand d pips node w s).visited ∧
      (expand d pips node w s).tree =
        (usable d pips w).foldl (RouteTree.reach node) s.tree := by
  unfold expand usable
  rw [List.foldl_filter]
  induction d.connections w generalizing s with
  | nil => exact ⟨hs, rfl⟩
  | cons c cs ih =>
    obtain ⟨hnext, htree⟩ := follow_spec d pips hs node c
    rw [List.foldl_cons, List.foldl_cons, ← htree]
    exact ih hnext

/-! ## The callback -/

/-- The search with nobody to tell. -/
def settle (d : Device) (pips : PipSet) : Nat → Nat → Search → Search
  | 0, _, s => s
  | steps + 1, node, s =>
    match s.tree.wire? node with
    | none => s
    | some w => settle d pips steps (node + 1) (expand d pips node w s)

theorem expand_keeps {P : Search → Prop}
    (hfollow : ∀ node s c, P s → P (follow d pips node s c)) {s : Search} (hs : P s) (node : Nat)
    (w : Wire) : P (expand d pips node w s) := by
  unfold expand
  induction d.connections w generalizing s with
  | nil => exact hs
  | cons c cs ih => exact ih (hfollow node s c hs)

theorem settle_keeps {P : Search → Prop}
    (hfollow : ∀ node s c, P s → P (follow d pips node s c)) {s : Search} (hs : P s)
    (steps node : Nat) : P (settle d pips steps node s) := by
  induction steps generalizing node s with
  | zero => exact hs
  | succ steps ih =>
    unfold settle
    split
    · exact hs
    · exact ih (expand_keeps hfollow hs node _) _

def pinsMet (d : Device) (pips : PipSet) : Nat → Nat → Search → List SitePinId
  | 0, _, _ => []
  | steps + 1, node, s =>
    match s.tree.wire? node with
    | none => []
    | some w =>
      (d.pinAhead? w).toList ++ pinsMet d pips steps (node + 1) (expand d pips node w s)

/-- What the callback does has no influence on what is found. -/
theorem searchFrom_eq {m : Type → Type} [Monad m] [LawfulMonad m] (visit : SitePinId → m PUnit)
    (steps node : Nat) (s : Search) :
    searchFrom d pips visit steps node s =
      (do (pinsMet d pips steps node s).forM visit; pure (settle d pips steps node s)) := by
  induction steps generalizing node s with
  | zero => simp [searchFrom, pinsMet, settle]
  | succ steps ih =>
    unfold searchFrom pinsMet settle
    cases s.tree.wire? node with
    | none => simp
    | some w =>
      simp only [ih]
      cases d.pinAhead? w with
      | none => simp
      | some p => simp

theorem settle_spec {s : Search} (hs : s.tree.HasWires s.visited) (steps node : Nat) :
    (settle d pips steps node s).tree = RouteTree.sweep (usable d pips) steps node s.tree := by
  induction steps generalizing node s with
  | zero => rfl
  | succ steps ih =>
    unfold settle RouteTree.sweep
    cases s.tree.wire? node with
    | none => rfl
    | some w =>
      obtain ⟨hnext, htree⟩ := expand_spec d pips hs node w
      dsimp only
      rw [← htree]
      exact ih hnext (node + 1)

theorem settle_add {steps node : Nat} {s : Search}
    (hend : (settle d pips steps node s).tree.size ≤ node + steps) (more : Nat) :
    settle d pips (steps + more) node s = settle d pips steps node s ∧
      pinsMet d pips (steps + more) node s = pinsMet d pips steps node s := by
  induction steps generalizing node s with
  | zero =>
    have hnone : s.tree.wire? node = none := RouteTree.wire?_eq_none.2 hend
    cases more with
    | zero => exact ⟨rfl, rfl⟩
    | succ more => simp [settle, pinsMet, hnone]
  | succ steps ih =>
    rw [Nat.add_right_comm]
    unfold settle pinsMet
    unfold settle at hend
    cases hw : s.tree.wire? node with
    | none => exact ⟨rfl, rfl⟩
    | some w =>
      simp only [hw] at hend
      have hrest : (settle d pips steps (node + 1) (expand d pips node w s)).tree.size ≤
          node + 1 + steps := by omega
      obtain ⟨hsettle, hpins⟩ := ih hrest
      exact ⟨hsettle, congrArg _ hpins⟩

theorem exists_forM_eq_ok {σ ε : Type} {visit : SitePinId → StateT σ (Except ε) PUnit}
    (hvisit : ∀ p st, ∃ st', visit p st = .ok (⟨⟩, st')) (ps : List SitePinId) (st : σ) :
    ∃ st', ps.forM visit st = .ok (⟨⟩, st') := by
  induction ps generalizing st with
  | nil => exact ⟨st, rfl⟩
  | cons p ps ih =>
    obtain ⟨mid, hmid⟩ := hvisit p st
    obtain ⟨st', hst'⟩ := ih mid
    refine ⟨st', ?_⟩
    change (visit p st >>= fun r => ps.forM visit r.2) = _
    rw [hmid]
    exact hst'

/-! ## The route -/

def outcome (d : Device) (pips : PipSet) (start : Wire) : Search :=
  settle d pips (d.wireBound + 1) 0 (.start start)

def arrivals (d : Device) (pips : PipSet) (start : Wire) : List SitePinId :=
  pinsMet d pips (d.wireBound + 1) 0 (.start start)

theorem route_eq {m : Type → Type} [Monad m] [LawfulMonad m] (start : Wire)
    (visit : SitePinId → m PUnit) : route d pips start visit =
      (do (arrivals d pips start).forM visit; pure (outcome d pips start)) :=
  searchFrom_eq visit _ _ _

/-- On a loaded device the tree holds exactly the wires within reach, and the search has steps
left when it has followed all of them. -/
theorem outcome_isSearchTree {desc : DeviceDescription} (hd : Device.ofDescription desc = .ok d)
    (pips : PipSet) (start : Wire) :
    RouteTree.IsSearchTree (Usable d pips) start (outcome d pips start).tree ∧
      (outcome d pips start).tree.size < d.wireBound + 1 := by
  have hsource : ∀ w, ∀ c ∈ usable d pips w, c.source = w := fun _ _ => source_of_mem_usable
  have hall : ∀ w, ∀ c ∈ usable d pips w, c.sink ∈ d.allWires := fun _ _ hc =>
    (Device.wired_of_ofDescription hd).sink_mem_allWires (mem_usable.1 hc).1
  have hsteps : d.allWires.length + 2 ≤ d.wireBound + 1 := by
    have := d.length_allWires
    omega
  have hfound : (outcome d pips start).tree =
      RouteTree.sweep (usable d pips) (d.wireBound + 1) 0 (.ofRoot start) :=
    settle_spec (RouteTree.hasWires_ofRoot start) _ _
  have husable : (fun w c => c ∈ usable d pips w) = Usable d pips := by
    funext w c
    exact propext mem_usable
  rw [hfound, ← husable]
  exact RouteTree.sweep_spec hsource start hall hsteps

/-- On a loaded device a search that is not stopped by its callback comes to an end, with a
tree of exactly the wires within reach, and more steps would not change that. -/
theorem route_isSearchTree {desc : DeviceDescription} (hd : Device.ofDescription desc = .ok d)
    (pips : PipSet) (start : Wire) {σ ε : Type} {visit : SitePinId → StateT σ (Except ε) PUnit}
    (hvisit : ∀ p st, ∃ st', visit p st = .ok (⟨⟩, st')) (st : σ) :
    ∃ found st', route d pips start visit st = .ok (found, st') ∧
      (∀ more, searchFrom d pips visit (d.wireBound + 1 + more) 0 (.start start) st =
        .ok (found, st')) ∧
      RouteTree.IsSearchTree (Usable d pips) start found.tree := by
  obtain ⟨htree, hsize⟩ := outcome_isSearchTree hd pips start
  -- The callback sees a list of pins that is fixed, and the tree does not depend on it.
  obtain ⟨st', hst'⟩ := exists_forM_eq_ok hvisit (arrivals d pips start) st
  have hrun : ∀ more, searchFrom d pips visit (d.wireBound + 1 + more) 0 (.start start) st =
      .ok (outcome d pips start, st') := by
    intro more
    have hend : (outcome d pips start).tree.size ≤ 0 + (d.wireBound + 1) := by omega
    obtain ⟨hsettle, hpins⟩ := settle_add hend more
    rw [searchFrom_eq, hsettle, hpins]
    change ((arrivals d pips start).forM visit st >>= fun r =>
      .ok (outcome d pips start, r.2)) = _
    rw [hst']
    rfl
  exact ⟨_, st', hrun 0, hrun, htree⟩

/-- One tile whose wires run in circles, with a loop at `A`, two ways to `D` and a switch back. -/
def ring : DeviceDescription where
  name := "ring"
  family := .other
  tiles := [⟨"T", "INT", [
    ⟨"A", [⟨"A", none, .pip⟩, ⟨"B", none, .pip⟩, ⟨"C", none, .pip⟩]⟩,
    ⟨"B", [⟨"D", none, .wire⟩]⟩,
    ⟨"C", [⟨"D", none, .wire⟩, ⟨"C", none, .wire⟩]⟩,
    ⟨"D", [⟨"A", none, .wire⟩, ⟨"B", none, .pip⟩]⟩]⟩]
  siteTypes := []
  sites := []

def ringPips : PipSet :=
  [⟨"T/A", "T/A"⟩, ⟨"T/A", "T/B"⟩, ⟨"T/A", "T/C"⟩].foldl PipSet.add PipSet.empty

def note (p : SitePinId) : StateT (List SitePinId) (Except Unit) PUnit := fun ps =>
  .ok (⟨⟩, p :: ps)

theorem route_isSearchTree_ring : ∃ d, Device.ofDescription ring = .ok d ∧
    (∀ p ps, ∃ ps', note p ps = .ok (⟨⟩, ps')) ∧
    ∃ found ps', route d ringPips (.tile ⟨0⟩ ⟨0⟩) note [] = .ok (found, ps') ∧
      RouteTree.IsSearchTree (Usable d ringPips) (.tile ⟨0⟩ ⟨0⟩) found.tree ∧
      found.tree.wires = [.tile ⟨0⟩ ⟨0⟩, .tile ⟨0⟩ ⟨1⟩, .tile ⟨0⟩ ⟨2⟩, .tile ⟨0⟩ ⟨3⟩] := by
  have hd : Device.ofDescription ring = .ok ((Device.ofDescription ring).toOption.get rfl) := rfl
  have hnote : ∀ p ps, ∃ ps', note p ps = .ok (⟨⟩, ps') := fun p ps => ⟨p :: ps, rfl⟩
  obtain ⟨found, ps', hroute, -, htree⟩ :=
    route_isSearchTree hd ringPips (.tile ⟨0⟩ ⟨0⟩) hnote []
  have hwires : (route ((Device.ofDescription ring).toOption.get rfl) ringPips (.tile ⟨0⟩ ⟨0⟩)
      note []).toOption.map (fun r => r.1.tree.wires) =
        some [.tile ⟨0⟩ ⟨0⟩, .tile ⟨0⟩ ⟨1⟩, .tile ⟨0⟩ ⟨2⟩, .tile ⟨0⟩ ⟨3⟩] := by rfl
  rw [hroute] at hwires
  exact ⟨_, hd, hnote, found, ps', hroute, htree, Option.some.inj hwires⟩

end Fabric.Intersite
