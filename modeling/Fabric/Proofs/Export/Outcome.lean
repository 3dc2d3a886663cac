import Fabric.Proofs.Export.Coverage
import Fabric.Proofs.Record.PartitionPins
/-!
# Whether the boundary can be exported

A partition pin with a wire needs a net that goes on in the static part. A port that is tied to the
ground needs nothing, as the ground never leaves. VCC does leave, so that a port that is tied to it
needs what other ports need.
-/

namespace Fabric.Export

variable {d : Device} {nl : Netlist}

/-- The net is mapped to a net of the static part whose route is written. If it has a tree, this
route is one and meets the tree at the node that is noted for the port of the pin. -/
def GoesOn (d : Device) (nl : Netlist) (net : Net) (pin : Pin) : Prop :=
  ∃ static written, nl.staticNetOf[net.name]? = some static ∧
    nl.staticRoutes[static]? = some written ∧
    ∀ tree, net.intersite.head? = some tree → ∀ cell, nl.cell? pin.cell = some cell →
      ∀ node, nl.portNodes[cell.name]? = some node →
      ∃ staticRoute joined, RouteText.parse written = .ok staticRoute ∧
        staticRoute.joinAt? (d.routeText tree) node (isEntering nl net) = some joined

theorem goesOn_iff {net : Net} {pin : Pin} {cell : Cell} (hcell : nl.cell? pin.cell = some cell)
    (hnode : (nl.portNodes[cell.name]?).isSome) : GoesOn d nl net pin ↔
      ∃ line, crossingLine d nl net cell.name (isEntering nl net) = .ok line := by
  obtain ⟨node, hnode⟩ := Option.isSome_iff_exists.1 hnode
  simp only [crossingLine_eq_ok, GoesOn, hcell, hnode, Option.some.injEq]
  cases net.intersite.head? with
  | none => simp
  | some tree => simp [hnode]

theorem exists_crossings {nets : BoundaryNets}
    (hentering : ∀ n ∈ nets.entering, ∃ net, nl.net? n = some net ∧
      ∀ p, net.source = some p → ∃ port, portOf nl p = .ok port)
    (hleaving : ∀ n ∈ nets.leaving, ∃ net, nl.net? n = some net ∧ ∀ p ∈ net.pins,
      ((nl.pin? p).any fun pin => pin.kind.isPartition) → ∃ port, portOf nl p = .ok port) :
    ∃ cs, crossings nl nets = .ok cs := by
  have hcross : ∀ (n : NetId) (moduleIsDriven : Bool) (ps : List PinId),
      (∀ p ∈ ps, ∃ port, portOf nl p = .ok port) →
      ∃ row, ps.mapM (fun p => do return (⟨n, ← portOf nl p, moduleIsDriven⟩ : Crossing)) =
        .ok row := by
    intro n moduleIsDriven ps hps
    refine Checked.exists_mapM_eq_ok fun p hp => ?_
    obtain ⟨port, hport⟩ := hps p hp
    exact ⟨_, Checked.bind_eq_ok.2 ⟨port, hport, rfl⟩⟩
  have hrows : ∃ rows, nets.entering.mapM (fun n => do
      (← nl.getNet n).source.toList.mapM fun p =>
        return (⟨n, ← portOf nl p, true⟩ : Crossing)) = .ok rows := by
    refine Checked.exists_mapM_eq_ok fun n hn => ?_
    obtain ⟨net, hnet, hports⟩ := hentering n hn
    obtain ⟨row, hrow⟩ := hcross n true net.source.toList (by simpa using hports)
    exact ⟨row, Checked.bind_eq_ok.2 ⟨net, Netlist.getNet_eq_ok.2 hnet, hrow⟩⟩
  have hrows' : ∃ rows, nets.leaving.mapM (fun n => do
      (← nl.partitionPins n).mapM fun p =>
        return (⟨n, ← portOf nl p, false⟩ : Crossing)) = .ok rows := by
    refine Checked.exists_mapM_eq_ok fun n hn => ?_
    obtain ⟨net, hnet, hports⟩ := hleaving n hn
    obtain ⟨row, hrow⟩ := hcross n false (net.pins.filter fun p =>
      (nl.pin? p).any fun pin => pin.kind.isPartition) (by simpa using hports)
    exact ⟨row, Checked.bind_eq_ok.2 ⟨_, partitionPins_eq_ok.2 ⟨net, hnet, rfl⟩, hrow⟩⟩
  obtain ⟨entering, hentering⟩ := hrows
  obtain ⟨leaving, hleaving⟩ := hrows'
  exact ⟨_, Checked.bind_eq_ok.2 ⟨entering, hentering, Checked.bind_eq_ok.2 ⟨leaving, hleaving, rfl⟩⟩⟩

section fenced

variable (hnl : nl.Fenced)

include hnl

theorem exists_port {p : PinId} {pin : Pin} (hp : nl.pin? p = some pin)
    (hpart : pin.kind.isPartition) : ∃ cell, nl.cell? pin.cell = some cell ∧
      (nl.portNodes[cell.name]?).isSome ∧ portOf nl p = .ok cell.name := by
  obtain ⟨cell, hcell, hnode⟩ := hnl.noted p pin hp hpart
  exact ⟨cell, hcell, hnode, portOf_eq_ok.2 ⟨pin, cell, hp, hcell, rfl⟩⟩

theorem exists_crossings_boundaryNets : ∃ cs, crossings nl (boundaryNets nl) = .ok cs := by
  refine exists_crossings (fun n hn => ?_) fun n hn => ?_
  · obtain ⟨net, hnet, hplace⟩ := mem_netsAt.1 hn
    obtain ⟨q, pin, hq, hpin, hpart⟩ := isEntering_iff.1 (place_eq_entering_iff.1 hplace).2
    refine ⟨net, hnet, fun p hp => ?_⟩
    obtain rfl := Option.some.inj (hp.symm.trans hq)
    obtain ⟨cell, -, -, hport⟩ := exists_port hnl hpin hpart
    exact ⟨cell.name, hport⟩
  · obtain ⟨net, hnet, -⟩ := mem_netsAt.1 hn
    refine ⟨net, hnet, fun p _ hp => ?_⟩
    obtain ⟨pin, hpin, hpart⟩ := (Option.any_eq_true _ _).1 hp
    obtain ⟨cell, -, -, hport⟩ := exists_port hnl hpin hpart
    exact ⟨cell.name, hport⟩

/-- The line of a crossing is there where the net goes on at a partition pin of its port. -/
theorem exists_line_of_crossing (hc : nl.Consistent) {c : Crossing}
    (h : CrossesAt nl (boundaryNets nl) c) : ∃ net p pin, nl.net? c.net = some net ∧
      p ∈ net.pins ∧ nl.pin? p = some pin ∧ pin.kind.isPartition ∧
      (place nl net = .entering ∧ net.source = some p ∨ place nl net = .leaving) ∧
      (GoesOn d nl net pin ↔
        ∃ line, crossingLine d nl net c.port c.moduleIsDriven = .ok line) := by
  cases h with
  | @entering n net p port hn hnet hp hport =>
    obtain ⟨net', hnet', hplace⟩ := mem_netsAt.1 hn
    obtain rfl := Option.some.inj (hnet'.symm.trans hnet)
    have hentering := (place_eq_entering_iff.1 hplace).2
    obtain ⟨q, pin, hq, hpin, hpart⟩ := isEntering_iff.1 hentering
    obtain rfl := Option.some.inj (hp.symm.trans hq)
    obtain ⟨cell, hcell, hnode, hport'⟩ := exists_port hnl hpin hpart
    obtain rfl := Except.ok.inj (hport.symm.trans hport')
    refine ⟨_, p, pin, hnet, hc.source n _ p hnet hp, hpin, hpart, .inl ⟨hplace, hp⟩, ?_⟩
    rw [goesOn_iff hcell hnode, hentering]
  | @leaving n net p port hn hnet hp hpin hport =>
    obtain ⟨net', hnet', hplace⟩ := mem_netsAt.1 hn
    obtain rfl := Option.some.inj (hnet'.symm.trans hnet)
    obtain ⟨pin, hpin, hpart⟩ := (Option.any_eq_true _ _).1 hpin
    obtain ⟨cell, hcell, hnode, hport'⟩ := exists_port hnl hpin hpart
    obtain rfl := Except.ok.inj (hport.symm.trans hport')
    refine ⟨_, p, pin, hnet, hp, hpin, hpart, .inr hplace, ?_⟩
    rw [goesOn_iff hcell hnode, Bool.eq_false_iff.2 (place_eq_leaving_iff.1 hplace).2.1]

/-- Where a net crosses the boundary at a port that is tied to a constant, VCC leaves. -/
theorem vcc_leaves_of_tie (hc : nl.Consistent) {n : NetId} {net : Net} {p : PinId} {pin : Pin}
    (hnet : nl.net? n = some net) (hp : p ∈ net.pins) (hpin : nl.pin? p = some pin)
    (hkind : pin.kind = .partition none)
    (hplace : place nl net = .entering ∧ net.source = some p ∨ place nl net = .leaving) :
    n = Netlist.vcc ∧ place nl net = .leaving := by
  have htie : nl.IsTie p := (Netlist.isTie_iff hpin).2 hkind
  rcases hplace with ⟨-, hsource⟩ | hplace
  · exact ((hnl.source n net p hnet hsource).not_isTie htie).elim
  · obtain ⟨isVcc, rfl⟩ := hnl.tied p n htie ((hc.mem_pins hnet p).1 hp)
    cases isVcc with
    | true => exact ⟨rfl, hplace⟩
    | false => exact absurd (hnl.ground net hnet) (place_eq_leaving_iff.1 hplace).2.2.1

end fenced

/-- When every net with a partition pin that has a wire goes on there, the text for the boundary can
be written, unless VCC leaves the module at a port that is tied to it and does not go on there. -/
theorem boundaryConstraints_succeeds_iff {desc : NetlistDescription} {loaded : Netlist}
    (hload : Netlist.ofDescription d desc = .ok loaded) {text : String} {im : Importer}
    (hreaches : (Importer.ofNetlist loaded).Reaches d text im)
    (hwired : ∀ n net p pin wire, im.netlist.net? n = some net → p ∈ net.pins →
      im.netlist.pin? p = some pin → pin.kind = .partition (some wire) →
      GoesOn d im.netlist net pin) :
    (∃ written, boundaryConstraints d im.netlist (boundaryNets im.netlist) =
      .ok (written, none)) ↔
    ∀ net p pin, im.netlist.net? Netlist.vcc = some net → place im.netlist net = .leaving →
      p ∈ net.pins → im.netlist.pin? p = some pin → pin.kind = .partition none →
      GoesOn d im.netlist net pin := by
  obtain ⟨hc, hnl⟩ := Record.fenced_of_reaches hload hreaches
  obtain ⟨cs, hcs⟩ := exists_crossings_boundaryNets hnl
  rw [exists_boundaryConstraints_iff hcs]
  constructor
  · intro hall net p pin hnet hplace hp hpin hkind
    have hpart : pin.kind.isPartition := by rw [hkind]; rfl
    obtain ⟨cell, hcell, hnode, hport⟩ := exists_port hnl hpin hpart
    obtain ⟨port, hport', hmem⟩ := exists_crossing_of_leaving hcs
      (mem_netsAt.2 ⟨net, hnet, hplace⟩) hnet hp (by simpa [hpin] using hpart)
    obtain rfl := Except.ok.inj (hport.symm.trans hport')
    obtain ⟨net', line, hnet', hline⟩ := hall _ hmem
    obtain rfl := Option.some.inj (hnet.symm.trans hnet')
    rw [goesOn_iff hcell hnode, Bool.eq_false_iff.2 (place_eq_leaving_iff.1 hplace).2.1]
    exact ⟨line, hline⟩
  · intro hvcc c hmem
    obtain ⟨net, p, pin, hnet, hp, hpin, hpart, hplace, hgoes⟩ :=
      exists_line_of_crossing hnl hc (crossesAt_of_mem hcs hmem)
    suffices hgoesOn : GoesOn d im.netlist net pin by
      obtain ⟨line, hline⟩ := hgoes.1 hgoesOn
      exact ⟨net, line, hnet, hline⟩
    cases hkind : pin.kind with
    | regular => rw [hkind] at hpart; cases hpart
    | pseudo => rw [hkind] at hpart; cases hpart
    | partition wire =>
      cases wire with
      | some wire => exact hwired c.net net p pin wire hnet hp hpin hkind
      | none =>
        obtain ⟨hconstant, hleaves⟩ := vcc_leaves_of_tie hnl hc hnet hp hpin hkind hplace
        exact hvcc net p pin (hconstant ▸ hnet) hleaves hp hpin hkind

def spareInput : NetlistDescription where
  name := "top"
  mode := .reconfigModule
  cells := [
    ⟨"src", "LUT1", some "S/SRC", false, ∅, [⟨"O", .output, ["O"]⟩]⟩,
    ⟨"dout", "OBUF", none, true, ∅, [⟨"I", .input, []⟩]⟩,
    ⟨"din", "IBUF", none, true, ∅, [⟨"O", .output, []⟩]⟩]
  nets := [⟨"n", .wire, ["src/O", "dout/I"]⟩]
  staticNetOf := .ofList [("n", "s")]
  staticRoutes := .ofList [("s", "\x7b T/P T/Z \x7d")]

def spareText (isVcc : Bool) : String :=
  (if isVcc then "VCC" else "GND") ++
    "_PART_PINS din\nPART_PIN dout T/P IN\nINTERSITE n S/P\nROUTE n T/INT.OA->P"

def spareOutcome (isVcc : Bool) : String × Option ExportError :=
  if isVcc then ("", some (.missingStaticRoute "VCC"))
  else ("set_property ROUTE \x7b T/OA T/P T/Z \x7d [get_nets \x7bs\x7d]\n", none)

theorem exists_export_spareInput (isVcc : Bool) : ∃ d nl im,
    Device.ofDescription twinDriver = .ok d ∧ Netlist.ofDescription d spareInput = .ok nl ∧
    (Importer.ofNetlist nl).Reaches d (spareText isVcc) im ∧
    im.netlist.IsTie ⟨3⟩ ∧ im.netlist.netOf? ⟨3⟩ = some (Netlist.staticNet isVcc) ∧
    (∀ n net p pin wire, im.netlist.net? n = some net → p ∈ net.pins →
      im.netlist.pin? p = some pin → pin.kind = .partition (some wire) →
      GoesOn d im.netlist net pin) ∧
    (∀ n net p pin, im.netlist.net? n = some net → p ∈ net.pins →
      im.netlist.pin? p = some pin → pin.kind = .partition none → n = Netlist.staticNet isVcc) ∧
    boundaryConstraints d im.netlist (boundaryNets im.netlist) = .ok (spareOutcome isVcc) := by
  have hrun : (do
      let d ← (Device.ofDescription twinDriver).toOption
      let nl ← (Netlist.ofDescription d spareInput).toOption
      let (_, im) ← ((Importer.ofNetlist nl).importText d (spareText isVcc)).toOption
      let net ← im.netlist.net? ⟨2⟩
      let line ← (crossingLine d im.netlist net "dout" (isEntering im.netlist net)).toOption
      let written ←
        (boundaryConstraints d im.netlist (boundaryNets im.netlist)).toOption
      return (line.isSome, written,
        decide (∀ m ∈ im.netlist.liveNets, ∀ p ∈ m.2.pins, ∀ pin ∈ im.netlist.pin? p,
          pin.kind.isPartition →
            pin.kind = .partition none ∧ m.1 = Netlist.staticNet isVcc ∨
              pin.kind ≠ .partition none ∧ m.1 = ⟨2⟩ ∧
                (im.netlist.cell? pin.cell).map Cell.name = some "dout"),
        decide (im.netlist.kindOf? ⟨3⟩ = some (.partition none) ∧
          im.netlist.netOf? ⟨3⟩ = some (Netlist.staticNet isVcc) ∧
          (im.netlist.portNodes["dout"]?).isSome))) =
      some (true, spareOutcome isVcc, true, true) := by
    revert isVcc
    decide +kernel
  simp only [Option.bind_eq_bind, Option.bind_eq_some_iff, Checked.toOption_eq_some,
    Option.pure_def, Option.some.injEq, Prod.mk.injEq, decide_eq_true_eq] at hrun
  obtain ⟨d, hd, nl, hnl, ⟨r, im⟩, hrun, net, hnet, line, hline, written, hwritten, -, rfl, hpins,
    htie, hon, hnode⟩ := hrun
  refine ⟨d, nl, im, hd, hnl, .text hrun, htie, hon, ?_, ?_, hwritten⟩
  · intro n net' p pin wire hn hp hpin hkind
    have hpart : pin.kind.isPartition := by rw [hkind]; rfl
    rcases hpins (n, net') (Netlist.mem_liveNets.2 hn) p hp pin hpin hpart with
      ⟨hnone, -⟩ | ⟨-, rfl, hname⟩
    · rw [hkind] at hnone
      cases hnone
    · obtain rfl := Option.some.inj (hnet.symm.trans hn)
      obtain ⟨cell, hcell, hname⟩ := Option.map_eq_some_iff.1 hname
      exact (goesOn_iff hcell (hname ▸ hnode)).2 ⟨line, hname ▸ hline⟩
  · intro n net' p pin hn hp hpin hkind
    have hpart : pin.kind.isPartition := by rw [hkind]; rfl
    rcases hpins (n, net') (Netlist.mem_liveNets.2 hn) p hp pin hpin hpart with
      ⟨-, hconstant⟩ | ⟨hwired, -⟩
    · exact hconstant
    · exact (hwired hkind).elim

/-- A port that is tied to the ground is not in the way. -/
theorem boundaryConstraints_succeeds_iff_grounded : ∃ d nl im,
    Device.ofDescription twinDriver = .ok d ∧ Netlist.ofDescription d spareInput = .ok nl ∧
    (Importer.ofNetlist nl).Reaches d (spareText false) im ∧
    im.netlist.IsTie ⟨3⟩ ∧ im.netlist.netOf? ⟨3⟩ = some Netlist.gnd ∧
    (∀ n net p pin wire, im.netlist.net? n = some net → p ∈ net.pins →
      im.netlist.pin? p = some pin → pin.kind = .partition (some wire) →
      GoesOn d im.netlist net pin) ∧
    ∃ written, boundaryConstraints d im.netlist (boundaryNets im.netlist) =
      .ok (written, none) := by
  obtain ⟨d, nl, im, hd, hnl, hreaches, htie, hon, hwired, hties, -⟩ :=
    exists_export_spareInput false
  refine ⟨d, nl, im, hd, hnl, hreaches, htie, hon, hwired, ?_⟩
  refine (boundaryConstraints_succeeds_iff hnl hreaches hwired).2 ?_
  intro net p pin hnet _ hp hpin hkind
  cases hties _ net p pin hnet hp hpin hkind

/-- The same port tied to VCC is: VCC leaves, and no net of the static part is there for it. -/
theorem boundaryConstraints_blocked_vcc : ∃ d nl im,
    Device.ofDescription twinDriver = .ok d ∧ Netlist.ofDescription d spareInput = .ok nl ∧
    (Importer.ofNetlist nl).Reaches d (spareText true) im ∧
    im.netlist.IsTie ⟨3⟩ ∧ im.netlist.netOf? ⟨3⟩ = some Netlist.vcc ∧
    (∀ n net p pin wire, im.netlist.net? n = some net → p ∈ net.pins →
      im.netlist.pin? p = some pin → pin.kind = .partition (some wire) →
      GoesOn d im.netlist net pin) ∧
    boundaryConstraints d im.netlist (boundaryNets im.netlist) =
      .ok ("", some (.missingStaticRoute "VCC")) := by
  obtain ⟨d, nl, im, hd, hnl, hreaches, htie, hon, hwired, -, hwritten⟩ :=
    exists_export_spareInput true
  exact ⟨d, nl, im, hd, hnl, hreaches, htie, hon, hwired, hwritten⟩

end Fabric.Export
