import Fabric.Device.Build
import Fabric.Proofs.RouteTree.Flattening
import Fabric.RouteText.OfTree
/-!
# Written trees as a plain recursion

Writing goes down a tree along last true children and puts the groups together from the end of
each run. What comes of it is the tree that has, below the wire of each node, what comes of the
true children, in order.
-/

namespace Fabric

namespace RouteText

/-- A node of a tree as it is written, with all its true children below. -/
def ofNode (name : Wire → String) (t : RouteTree) (n : Nat) : RouteText :=
  t.recurse (fun m below => ⟨((t.wire? m).map name).getD "", below⟩) n

/-- The walk from a node along last true children, without a bound on its length. It is over where
there are none, and the walks from the other ones give the groups beside it. -/
inductive Walks (name : Wire → String) (t : RouteTree) : Nat → Run → Prop
  | stop {n : Nat} (h : t.trueChildren n = []) :
      Walks name t n [(((t.wire? n).map name).getD "", [])]
  | on {n last : Nat} {others : List Nat} {branch : Nat → Run} {run : Run}
      (h : t.trueChildren n = others ++ [last]) (hothers : ∀ b ∈ others, Walks name t b (branch b))
      (hlast : Walks name t last run) :
      Walks name t n
        ((((t.wire? n).map name).getD "", others.map fun b => ofRun (branch b)) :: run)

/-! ## Runs -/

theorem ofRun_cons (wire : String) (branches : List RouteText) {run : Run} (h : run ≠ []) :
    ofRun ((wire, branches) :: run) = ⟨wire, branches ++ [ofRun run]⟩ := by
  cases run with
  | nil => exact absurd rfl h
  | cons step run => rfl

/-! ## The walk through a tree -/

variable {name : Wire → String} {t : RouteTree}

theorem Walks.ne_nil {n : Nat} {run : Run} (h : Walks name t n run) : run ≠ [] := by
  cases h <;> exact List.cons_ne_nil _ _

/-- True children have larger numbers, so a run that may have as many nodes as are left comes to
its end. -/
theorem walks_runFrom (ht : t.WellFormed) {depth n : Nat} (hn : n < t.size)
    (hdepth : t.size ≤ n + depth) : Walks name t n (runFrom name t depth n) := by
  induction depth generalizing n with
  | zero => omega
  | succ depth ih =>
    have hbelow : ∀ m ∈ t.trueChildren n, Walks name t m (runFrom name t depth m) := by
      intro m hm
      have hlt := RouteTree.lt_of_mem_trueChildren ht hm
      exact ih hlt.2 (by omega)
    unfold runFrom
    dsimp only
    split
    next hnone => exact .stop (List.getLast?_eq_none_iff.1 hnone)
    next last hlast =>
      obtain ⟨others, hothers⟩ := List.getLast?_eq_some_iff.1 hlast
      rw [hothers] at hbelow ⊢
      rw [List.dropLast_concat]
      exact .on hothers (fun b hb => hbelow b (List.mem_append_left _ hb)) (hbelow last (by simp))

theorem ofNode_eq (ht : t.WellFormed) (name : Wire → String) (n : Nat) :
    ofNode name t n =
      ⟨((t.wire? n).map name).getD "", (t.trueChildren n).map (ofNode name t)⟩ :=
  RouteTree.recurse_eq ht _ n

/-- A walk gives the plain recursion from its first node. -/
theorem Walks.ofRun_eq (ht : t.WellFormed) {n : Nat} {run : Run} (h : Walks name t n run) :
    ofRun run = ofNode name t n := by
  induction h with
  | stop h =>
    rw [ofNode_eq ht, h]
    rfl
  | @on n last others branch run h _ hlast ihothers ihlast =>
    have hbranches : others.map (fun b => ofRun (branch b)) = others.map (ofNode name t) :=
      List.map_congr_left ihothers
    rw [ofRun_cons _ _ hlast.ne_nil, ofNode_eq ht, h, ihlast, hbranches, List.map_append,
      List.map_singleton]

theorem ofTree_eq_ofNode (ht : t.WellFormed) (name : Wire → String) :
    ofTree name t = ofNode name t 0 :=
  (walks_runFrom ht ht.size_pos (by omega)).ofRun_eq ht

/-! ## The wires of a written tree -/

theorem wires_ofNode (ht : t.WellFormed) (name : Wire → String) (n : Nat) :
    (ofNode name t n).wires = (t.preorder n).map fun m => ((t.wire? m).map name).getD "" := by
  rw [RouteTree.map_preorder ht]
  refine RouteTree.map_recurse ht (fun m below => ?_) n
  rw [wires, wiresAll_eq_flatMap, List.flatMap_def]

theorem mem_wires_ofTree (ht : t.WellFormed) (name : Wire → String) {w : String} :
    w ∈ (ofTree name t).wires ↔ ∃ i v, (i = 0 ∨ t.isSwitched i) ∧ t.wire? i = some v ∧
      name v = w := by
  rw [ofTree_eq_ofNode ht, wires_ofNode ht, ((RouteTree.perm_preorder ht).map _).mem_iff,
    List.mem_map]
  simp only [List.mem_cons, List.mem_filter, List.mem_range]
  constructor
  · rintro ⟨i, hi, hw⟩
    have hlt : i < t.size := hi.elim (fun h0 => h0 ▸ ht.size_pos) And.left
    obtain ⟨v, hv⟩ := RouteTree.exists_wire hlt
    rw [hv] at hw
    exact ⟨i, v, hi.imp_right And.right, hv, hw⟩
  · rintro ⟨i, v, hi, hv, rfl⟩
    refine ⟨i, hi.imp_right fun hsw => ⟨RouteTree.lt_size_of_wire? hv, hsw⟩, ?_⟩
    rw [hv]
    rfl

end RouteText

/-! ## Writing the trees of a device -/

/-- Writing a tree comes to an end, and gives the plain recursion over true children from the root:
each node is the name of its wire with its true children below, in order. So there is a node for
the root and one for each switched hop, and the flat tree is written alike. -/
theorem Device.routeText_spec (d : Device) {t : RouteTree} (h : t.Built) :
    (∃ run, RouteText.Walks d.routeName t 0 run ∧ d.routeText t = .ofRun run) ∧
    d.routeText t = .ofNode d.routeName t 0 ∧
    (∀ n < t.size, ∃ w, t.wire? n = some w ∧ RouteText.ofNode d.routeName t n =
      ⟨d.routeName w, (t.trueChildren n).map (.ofNode d.routeName t)⟩) ∧
    (d.routeText t).wires.length = 1 + t.pipCount ∧
    d.routeText t.flattened = d.routeText t := by
  have ht := h.wellFormed
  obtain ⟨old, hcopied⟩ := ht.exists_copied
  have hnode : ∀ {u : RouteTree}, u.WellFormed → d.routeText u = .ofNode d.routeName u 0 :=
    fun hu => RouteText.ofTree_eq_ofNode hu d.routeName
  refine ⟨⟨_, RouteText.walks_runFrom ht ht.size_pos (Nat.le_add_left _ _), rfl⟩, hnode ht,
    fun n hn => ?_, ?_, ?_⟩
  · obtain ⟨w, hw⟩ := RouteTree.exists_wire hn
    refine ⟨w, hw, ?_⟩
    rw [RouteText.ofNode_eq ht, hw]
    rfl
  · rw [hnode ht, RouteText.wires_ofNode ht, List.length_map, RouteTree.length_preorder ht]
  · rw [hnode ht, hnode hcopied.wellFormed]
    refine hcopied.mirrors.recurse ht hcopied.wellFormed (fun n m below hnm => ?_) hcopied.root
    rw [hcopied.wire m n hnm]

def forkedDevice : DeviceDescription where
  name := "forked"
  family := .other
  tiles := [⟨"T", "INT", [⟨"A", [⟨"P", none, .wire⟩]⟩,
    ⟨"P", [⟨"B", none, .pip⟩, ⟨"C", none, .pip⟩]⟩]⟩]
  siteTypes := []
  sites := []

/-- The forked tree is written without the plain wire, be it flat or not. -/
theorem Device.routeText_spec_forked : ∃ d, ofDescription forkedDevice = .ok d ∧
    d.routeText RouteTree.forked = ⟨"T/A", [⟨"T/B", []⟩, ⟨"T/C", []⟩]⟩ ∧
    d.routeText RouteTree.forked.flattened = ⟨"T/A", [⟨"T/B", []⟩, ⟨"T/C", []⟩]⟩ ∧
    (RouteText.wires ⟨"T/A", [⟨"T/B", []⟩, ⟨"T/C", []⟩]⟩).length =
      1 + RouteTree.forked.pipCount := by
  obtain ⟨d, hd⟩ : ∃ d, ofDescription forkedDevice = .ok d := ⟨_, rfl⟩
  have hrun : (ofDescription forkedDevice).toOption.map (·.routeText RouteTree.forked) =
      some ⟨"T/A", [⟨"T/B", []⟩, ⟨"T/C", []⟩]⟩ := by
    decide +kernel
  rw [hd] at hrun
  have hwritten : d.routeText RouteTree.forked = _ := Option.some.inj hrun
  obtain ⟨-, -, -, hlength, hflat⟩ := d.routeText_spec RouteTree.grown_forked.built
  rw [hwritten] at hlength hflat
  exact ⟨d, hd, hwritten, hflat, hlength⟩

end Fabric
