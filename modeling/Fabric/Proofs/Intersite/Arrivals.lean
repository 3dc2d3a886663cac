import Fabric.Proofs.Device.Pins
import Fabric.Proofs.Intersite.Exact
/-!
# Where a search between sites arrives

The site pins that a search tells of lie at wires of its tree. Plain connections are followed
always, so a search that follows no switched one may have left its start as well. Then its tree
holds what the plain connections lead to, and it tells of the site pins there.
-/

namespace Fabric.Intersite

variable {d : Device} {pips : PipSet}

/-! ## The wires of the tree -/

theorem wires_prefix_follow (node : Nat) (s : Search) (c : Connection) :
    s.tree.wires <+: (follow d pips node s c).tree.wires := by
  unfold follow
  split
  · rw [RouteTree.wires_grow]
    exact List.prefix_append ..
  · exact List.prefix_refl _

theorem wires_prefix_expand (node : Nat) (w : Wire) (s : Search) :
    s.tree.wires <+: (expand d pips node w s).tree.wires :=
  expand_keeps (P := fun s' => s.tree.wires <+: s'.tree.wires)
    (fun _ _ _ h => h.trans (wires_prefix_follow ..)) (List.prefix_refl _) node w

theorem wires_prefix_settle (steps node : Nat) (s : Search) :
    s.tree.wires <+: (settle d pips steps node s).tree.wires :=
  settle_keeps (P := fun s' => s.tree.wires <+: s'.tree.wires)
    (fun _ _ _ h => h.trans (wires_prefix_follow ..)) (List.prefix_refl _) steps node

theorem pinsMet_eq {steps node : Nat} {s : Search}
    (hend : (settle d pips steps node s).tree.size ≤ node + steps) :
    pinsMet d pips steps node s =
      ((settle d pips steps node s).tree.wires.drop node).filterMap d.pinAhead? := by
  induction steps generalizing node s with
  | zero =>
    have hall : s.tree.wires.length ≤ node := by rw [RouteTree.length_wires]; exact hend
    simp only [pinsMet, settle, List.drop_eq_nil_of_le hall, List.filterMap_nil]
  | succ steps ih =>
    unfold pinsMet settle
    unfold settle at hend
    cases hw : s.tree.wire? node with
    | none =>
      have hall : s.tree.wires.length ≤ node := by
        rw [RouteTree.length_wires]
        exact RouteTree.wire?_eq_none.1 hw
      simp only [List.drop_eq_nil_of_le hall, List.filterMap_nil]
    | some w =>
      simp only [hw] at hend ⊢
      -- The wire that is followed keeps its place in all that the search finds later.
      have hplace : (settle d pips steps (node + 1) (expand d pips node w s)).tree.wires[node]? =
          some w := by
        have hhere : s.tree.wires[node]? = some w := by rw [RouteTree.getElem?_wires, hw]
        have hgrown : s.tree.wires <+:
            (settle d pips steps (node + 1) (expand d pips node w s)).tree.wires :=
          (wires_prefix_expand node w s).trans (wires_prefix_settle steps (node + 1) _)
        obtain ⟨later, hlater⟩ := hgrown
        rw [← hlater, List.getElem?_append_left (List.getElem?_eq_some_iff.1 hhere).1, hhere]
      rw [List.drop_eq_getElem?_toList_append, hplace, List.filterMap_append, ih (by omega)]
      cases hahead : d.pinAhead? w <;> simp [hahead]

/-- On a loaded device a search tells of the pins behind the wires of its tree, in the order
of the nodes. -/
theorem arrivals_eq {desc : DeviceDescription} (hd : Device.ofDescription desc = .ok d)
    (start : Wire) :
    arrivals d pips start = (outcome d pips start).tree.wires.filterMap d.pinAhead? := by
  have hsize := (outcome_isSearchTree hd pips start).2
  have hend : (outcome d pips start).tree.size ≤ 0 + (d.wireBound + 1) := by omega
  exact pinsMet_eq hend

theorem tile_of_trail {t : TileId} {v w : Wire} {name : WireName} {n : Nat}
    (hv : v = .tile t name) (h : RouteTree.Trail (Usable d pips) v n w) :
    ∃ t name, w = .tile t name := by
  induction h with
  | start => exact ⟨t, name, hv⟩
  | hop _ hc ih =>
    obtain ⟨t, name, rfl⟩ := ih
    obtain ⟨hop, -, rfl⟩ := List.mem_map.1 hc.1
    exact ⟨hop.tile, hop.wire, rfl⟩

theorem tile_of_mem_outcome {desc : DeviceDescription} (hd : Device.ofDescription desc = .ok d)
    {t : TileId} {name : WireName} {w : Wire}
    (hw : w ∈ (outcome d pips (.tile t name)).tree.wires) : ∃ t name, w = .tile t name := by
  obtain ⟨n, hn⟩ := ((outcome_isSearchTree hd pips _).1.wires w).1 hw
  exact tile_of_trail rfl hn

theorem externalWire_of_mem_arrivals {desc : DeviceDescription}
    (hd : Device.ofDescription desc = .ok d) {t : TileId} {name : WireName} {p : SitePinId}
    (hp : p ∈ arrivals d pips (.tile t name)) :
    d.externalWire p ∈ (outcome d pips (.tile t name)).tree.wires := by
  rw [arrivals_eq hd, List.mem_filterMap] at hp
  obtain ⟨w, hw, hahead⟩ := hp
  obtain ⟨t', name', rfl⟩ := tile_of_mem_outcome hd hw
  rw [(Device.pinsMatch_of_ofDescription hd).externalWire_of_pinAhead? hahead]
  exact hw

/-! ## Searches that use no PIP -/

def Search.Tells (s : Search) : Prop :=
  ∀ i c, s.tree.link? i = some c → c.isSwitched → s.pipUsed

theorem tells_follow {s : Search} (hs : s.Tells) (node : Nat) (c : Connection) :
    (follow d pips node s c).Tells := by
  unfold follow
  split
  · intro i c' hc' hswitched
    refine Bool.or_eq_true_iff.2 ?_
    rcases RouteTree.eq_or_of_link?_grow hc' with rfl | hold
    · exact .inr hswitched
    · exact .inl (hs i c' hold hswitched)
  · exact hs

theorem tells_start (w : Wire) : (Search.start w).Tells := by
  intro i c hc
  rw [Search.start, RouteTree.link?_ofRoot] at hc
  cases hc

theorem tells_outcome (start : Wire) : (outcome d pips start).Tells :=
  settle_keeps (P := Search.Tells) (fun node _ c hs => tells_follow hs node c)
    (tells_start start) _ _

def Plain (d : Device) (w : Wire) (c : Connection) : Prop := c ∈ d.connections w ∧ c.kind = .wire

/-- Without a PIP a search comes to what plain connections lead to. -/
theorem trail_of_not_pipUsed {desc : DeviceDescription} (hd : Device.ofDescription desc = .ok d)
    {start : Wire} (hunused : (outcome d pips start).pipUsed = false) {w : Wire}
    (hw : w ∈ (outcome d pips start).tree.wires) : ∃ n, RouteTree.Trail (Plain d) start n w := by
  refine (outcome_isSearchTree hd pips start).1.trail_of_hops (fun i u c hc husable => ?_) hw
  refine ⟨husable.1, isSwitched_eq_false.1 (Bool.eq_false_iff.2 fun hswitched => ?_)⟩
  rw [tells_outcome start i c hc hswitched] at hunused
  cases hunused

end Fabric.Intersite
