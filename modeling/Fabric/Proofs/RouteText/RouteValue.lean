import Fabric.Device.Build
import Fabric.Netlist.Net
import Fabric.Proofs.RouteText.RoundTrip
import Fabric.Proofs.RouteText.OfTree
/-!
# Reading `ROUTE` values back

A written route names the root of its tree and the wires that switched connections lead to, and
no other wires. When these names can be read back, so can the whole value of a net.
-/

namespace Fabric

namespace RouteTree

/-- The wires that a written route names: that of the root and those of switched nodes. -/
def namedWires (t : RouteTree) : List Wire :=
  ((List.range t.size).filter fun i => i = 0 ∨ t.isSwitched i).filterMap t.wire?

theorem mem_namedWires {t : RouteTree} {w : Wire} :
    w ∈ t.namedWires ↔ ∃ i, (i = 0 ∨ t.isSwitched i) ∧ t.wire? i = some w := by
  simp only [namedWires, List.mem_filterMap, List.mem_filter, List.mem_range, decide_eq_true_eq]
  constructor
  · rintro ⟨i, ⟨-, hi⟩, hw⟩
    exact ⟨i, hi, hw⟩
  · rintro ⟨i, hi, hw⟩
    exact ⟨i, ⟨lt_size_of_wire? hw, hi⟩, hw⟩

end RouteTree

namespace RouteText

theorem exists_of_mem_ofTree {t : RouteTree} (ht : t.WellFormed) (name : Wire → String)
    {w : String} (hw : w ∈ (ofTree name t).wires) : ∃ v ∈ t.namedWires, name v = w := by
  obtain ⟨i, v, hi, hv, hname⟩ := (mem_wires_ofTree ht name).1 hw
  exact ⟨v, RouteTree.mem_namedWires.2 ⟨i, hi, hv⟩, hname⟩

theorem mem_ofTree {t : RouteTree} (ht : t.WellFormed) (name : Wire → String) {v : Wire}
    (hv : v ∈ t.namedWires) : name v ∈ (ofTree name t).wires := by
  obtain ⟨i, hi, hwire⟩ := RouteTree.mem_namedWires.1 hv
  exact (mem_wires_ofTree ht name).2 ⟨i, v, hi, hwire, rfl⟩

end RouteText

/-! ## The value of a net -/

namespace Device

/-- The value of a net with trees between sites is read back as their written forms, in order,
be it one tree or several in quotes. -/
theorem parseAll_routeValue_of_net (d : Device) (n : Net) (hne : n.intersite ≠ [])
    (hbuilt : ∀ t ∈ n.intersite, t.Built)
    (hnames : ∀ t ∈ n.intersite, ∀ w ∈ t.namedWires, RouteToken.IsName (d.routeName w)) :
    ∃ value, d.routeValue? n.intersite = some value ∧
      RouteText.parseAll value = .ok (n.intersite.map d.routeText) := by
  apply RouteText.parseAll_routeValue
  · simpa using hne
  · intro r hr w hw
    obtain ⟨t, ht, rfl⟩ := List.mem_map.1 hr
    obtain ⟨v, hv, rfl⟩ := RouteText.exists_of_mem_ofTree (hbuilt t ht).wellFormed d.routeName hw
    exact hnames t ht v hv

def clockDevice : DeviceDescription where
  name := "clock"
  family := .other
  tiles := [
    ⟨boundaryTile, "BOUNDARY", [⟨"clk", [⟨"A", some "T", .pip⟩]⟩]⟩,
    ⟨"T", "INT", [
      ⟨"A", [⟨"P", none, .wire⟩]⟩,
      ⟨"P", [⟨"B", none, .pip⟩, ⟨"C", none, .pip⟩]⟩,
      ⟨"D", []⟩]⟩]
  siteTypes := []
  sites := []

def clockTree : RouteTree :=
  let clk : Wire := .tile ⟨0⟩ ⟨0⟩
  let a : Wire := .tile ⟨1⟩ ⟨1⟩
  let p : Wire := .tile ⟨1⟩ ⟨2⟩
  (((((RouteTree.ofRoot clk).grow 0 ⟨clk, a, .pip⟩).grow 1 ⟨a, p, .wire⟩).grow 2
    ⟨p, .tile ⟨1⟩ ⟨3⟩, .pip⟩).grow 2 ⟨p, .tile ⟨1⟩ ⟨4⟩, .pip⟩)

def clockNet : Net where
  name := "clk"
  kind := .wire
  intersite := [clockTree, .ofRoot (.tile ⟨1⟩ ⟨5⟩)]

theorem built_clockTree : clockTree.Built := by
  have hroot := RouteTree.Built.root (.tile ⟨0⟩ ⟨0⟩)
  exact (((hroot.grow rfl).grow rfl).grow rfl).grow rfl

theorem parseAll_routeValue_of_clockNet : ∃ d, ofDescription clockDevice = .ok d ∧
    clockNet.intersite ≠ [] ∧ (∀ t ∈ clockNet.intersite, t.Built) ∧
    (∀ t ∈ clockNet.intersite, ∀ w ∈ t.namedWires, RouteToken.IsName (d.routeName w)) ∧
    d.routeValue? clockNet.intersite =
      some "\" ( \x7b clk T/A \x7b T/B \x7d T/C \x7d ) ( \x7b T/D \x7d ) \"" ∧
    RouteText.parseAll "\" ( \x7b clk T/A \x7b T/B \x7d T/C \x7d ) ( \x7b T/D \x7d ) \"" =
      .ok (clockNet.intersite.map d.routeText) := by
  obtain ⟨d, hd⟩ : ∃ d, ofDescription clockDevice = .ok d := ⟨_, rfl⟩
  have hne : clockNet.intersite ≠ [] := by simp [clockNet]
  have hbuilt : ∀ t ∈ clockNet.intersite, t.Built :=
    List.forall_mem_cons.2 ⟨built_clockTree, List.forall_mem_cons.2 ⟨.root _, by simp⟩⟩
  have hrun : ((ofDescription clockDevice).toOption.map fun d =>
      (decide (∀ t ∈ clockNet.intersite, ∀ w ∈ t.namedWires, RouteToken.IsName (d.routeName w)),
        d.routeValue? clockNet.intersite)) =
      some (true,
        some "\" ( \x7b clk T/A \x7b T/B \x7d T/C \x7d ) ( \x7b T/D \x7d ) \"") := by
    decide +kernel
  rw [hd] at hrun
  simp only [Except.toOption, Option.map_some, Option.some.injEq, Prod.mk.injEq,
    decide_eq_true_eq] at hrun
  obtain ⟨hnames, hvalue⟩ := hrun
  obtain ⟨value, hvalue', hread⟩ := parseAll_routeValue_of_net d clockNet hne hbuilt hnames
  obtain rfl : _ = value := Option.some.inj (hvalue.symm.trans hvalue')
  exact ⟨d, hd, hne, hbuilt, hnames, hvalue, hread⟩

end Device

end Fabric
