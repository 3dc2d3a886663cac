import Fabric.Export.Boundary
import Fabric.Proofs.Netlist.Views
import Mathlib.Data.List.ReduceOption
/-!
# Crossings of the boundary

An entering net crosses the boundary at the port of its source, and a leaving net at the ports of
all its partition pins. The text for the boundary has a line for each crossing of a routed net.
-/

namespace Fabric

namespace Netlist

variable {nl : Netlist}

theorem mem_liveNets {n : NetId} {net : Net} :
    (n, net) ∈ nl.liveNets ↔ nl.net? n = some net := by
  simp only [liveNets, List.mem_filterMap, Prod.exists, Option.map_eq_some_iff, Prod.mk.injEq,
    List.mk_mem_zipIdx_iff_getElem?, Array.getElem?_toList, net?, Option.join_eq_some_iff]
  constructor
  · rintro ⟨o, i, hi, net', rfl, rfl, rfl⟩
    exact hi
  · intro hn
    exact ⟨some net, n.index, hn, net, rfl, rfl, rfl⟩

theorem nodup_liveNets : (nl.liveNets.map Prod.fst).Nodup := by
  have hplaces : (nl.nets.toList.zipIdx.map Prod.snd).Nodup := by
    rw [List.zipIdx_map_snd]
    exact List.nodup_range'
  rw [List.Nodup, List.pairwise_map] at hplaces ⊢
  refine hplaces.filterMap _ fun a b hne x hx y hy => ?_
  obtain ⟨net, -, rfl⟩ := Option.map_eq_some_iff.1 hx
  obtain ⟨net', -, rfl⟩ := Option.map_eq_some_iff.1 hy
  simpa [Key.ext_iff] using hne

end Netlist

namespace Export

variable {d : Device} {nl : Netlist}

theorem mem_netsAt {p : NetPlace} {n : NetId} :
    n ∈ netsAt nl p ↔ ∃ net, nl.net? n = some net ∧ place nl net = p := by
  simp only [netsAt, List.mem_map, List.mem_filter, Prod.exists, Netlist.mem_liveNets,
    decide_eq_true_eq]
  constructor
  · rintro ⟨m, net, ⟨hnet, hp⟩, rfl⟩
    exact ⟨net, hnet, hp⟩
  · rintro ⟨net, hnet, hp⟩
    exact ⟨n, net, ⟨hnet, hp⟩, rfl⟩

theorem place_eq_entering_iff {net : Net} :
    place nl net = .entering ↔ nl.mode = .reconfigModule ∧ isEntering nl net := by
  unfold place
  split
  next hmode => simp [hmode]
  next hmode =>
    split
    next h => simpa [h] using hmode
    next h => split <;> simp [h]

theorem place_eq_leaving_iff {net : Net} : place nl net = .leaving ↔
    nl.mode = .reconfigModule ∧ ¬ isEntering nl net ∧ net.kind ≠ .gnd ∧ hasPartitionPin nl net := by
  unfold place
  split
  next hmode => simp [hmode]
  next hmode =>
    split
    next h => simp [h]
    next h =>
      split
      next hout => simpa [h] using ⟨not_not.1 hmode, by simpa using hout⟩
      next hout => simpa [h] using fun _ => by simpa using hout

theorem isEntering_iff {net : Net} : isEntering nl net ↔
    ∃ p pin, net.source = some p ∧ nl.pin? p = some pin ∧ pin.kind.isPartition := by
  simp [isEntering, Option.any_eq_true]

theorem hasPartitionPin_iff {net : Net} : hasPartitionPin nl net ↔
    ∃ p ∈ net.pins, ∃ pin, nl.pin? p = some pin ∧ pin.kind.isPartition := by
  simp [hasPartitionPin, Option.any_eq_true]

/-! ## Which crossings there are -/

theorem portOf_eq_ok {p : PinId} {port : String} : portOf nl p = .ok port ↔
    ∃ pin cell, nl.pin? p = some pin ∧ nl.cell? pin.cell = some cell ∧ port = cell.name := by
  simp only [portOf, Checked.bind_eq_ok, Netlist.getPin_eq_ok, Netlist.getCell_eq_ok,
    Checked.pure_eq_ok, exists_and_left]

theorem partitionPins_eq_ok {n : NetId} {ps : List PinId} : nl.partitionPins n = .ok ps ↔
    ∃ net, nl.net? n = some net ∧
      ps = net.pins.filter fun p => (nl.pin? p).any fun pin => pin.kind.isPartition := by
  rw [Netlist.partitionPins, Checked.bind_eq_ok]
  simp only [Netlist.getNet_eq_ok, Checked.pure_eq_ok]

inductive CrossesAt (nl : Netlist) (nets : BoundaryNets) : Crossing → Prop
  | entering {n : NetId} {net : Net} {p : PinId} {port : String} (hn : n ∈ nets.entering)
      (hnet : nl.net? n = some net) (hp : net.source = some p) (hport : portOf nl p = .ok port) :
      CrossesAt nl nets ⟨n, port, true⟩
  | leaving {n : NetId} {net : Net} {p : PinId} {port : String} (hn : n ∈ nets.leaving)
      (hnet : nl.net? n = some net) (hp : p ∈ net.pins)
      (hpin : (nl.pin? p).any fun pin => pin.kind.isPartition) (hport : portOf nl p = .ok port) :
      CrossesAt nl nets ⟨n, port, false⟩

section Crossings

variable {nets : BoundaryNets} {cs : List Crossing} (h : crossings nl nets = .ok cs)

include h

theorem crossesAt_of_mem {c : Crossing} (hc : c ∈ cs) : CrossesAt nl nets c := by
  obtain ⟨entering, hentering, h⟩ := Checked.bind_eq_ok.1 h
  obtain ⟨leaving, hleaving, h⟩ := Checked.bind_eq_ok.1 h
  obtain rfl := Checked.pure_eq_ok.1 h
  rcases List.mem_append.1 hc with hc | hc
  · obtain ⟨row, hrow, hc⟩ := List.mem_flatten.1 hc
    obtain ⟨n, hn, hrow⟩ := Checked.exists_of_mem_mapM hentering hrow
    obtain ⟨net, hnet, hrow⟩ := Checked.bind_eq_ok.1 hrow
    obtain ⟨p, hp, hc⟩ := Checked.exists_of_mem_mapM hrow hc
    obtain ⟨port, hport, hc⟩ := Checked.bind_eq_ok.1 hc
    obtain rfl := Checked.pure_eq_ok.1 hc
    exact .entering hn (Netlist.getNet_eq_ok.1 hnet) (by simpa using hp) hport
  · obtain ⟨row, hrow, hc⟩ := List.mem_flatten.1 hc
    obtain ⟨n, hn, hrow⟩ := Checked.exists_of_mem_mapM hleaving hrow
    obtain ⟨pins, hpins, hrow⟩ := Checked.bind_eq_ok.1 hrow
    obtain ⟨p, hp, hc⟩ := Checked.exists_of_mem_mapM hrow hc
    obtain ⟨port, hport, hc⟩ := Checked.bind_eq_ok.1 hc
    obtain rfl := Checked.pure_eq_ok.1 hc
    obtain ⟨net, hnet, rfl⟩ := partitionPins_eq_ok.1 hpins
    obtain ⟨hp, hpin⟩ := List.mem_filter.1 hp
    exact .leaving hn hnet hp hpin hport

theorem exists_crossing_of_entering {n : NetId} {net : Net} {p : PinId} (hn : n ∈ nets.entering)
    (hnet : nl.net? n = some net) (hp : net.source = some p) :
    ∃ port, portOf nl p = .ok port ∧ ⟨n, port, true⟩ ∈ cs := by
  obtain ⟨entering, hentering, h⟩ := Checked.bind_eq_ok.1 h
  obtain ⟨leaving, -, h⟩ := Checked.bind_eq_ok.1 h
  obtain rfl := Checked.pure_eq_ok.1 h
  obtain ⟨row, hrow, hn⟩ := Checked.exists_mem_of_mapM hentering hn
  obtain ⟨net', hnet', hn⟩ := Checked.bind_eq_ok.1 hn
  obtain rfl := Option.some.inj ((Netlist.getNet_eq_ok.1 hnet').symm.trans hnet)
  have hmem : p ∈ net'.source.toList := by simpa using hp
  obtain ⟨c, hc, hpc⟩ := Checked.exists_mem_of_mapM hn hmem
  obtain ⟨port, hport, hpc⟩ := Checked.bind_eq_ok.1 hpc
  obtain rfl := Checked.pure_eq_ok.1 hpc
  exact ⟨port, hport, List.mem_append_left _ (List.mem_flatten.2 ⟨row, hrow, hc⟩)⟩

theorem exists_crossing_of_leaving {n : NetId} {net : Net} {p : PinId} (hn : n ∈ nets.leaving)
    (hnet : nl.net? n = some net) (hp : p ∈ net.pins)
    (hpin : (nl.pin? p).any fun pin => pin.kind.isPartition) :
    ∃ port, portOf nl p = .ok port ∧ ⟨n, port, false⟩ ∈ cs := by
  obtain ⟨entering, -, h⟩ := Checked.bind_eq_ok.1 h
  obtain ⟨leaving, hleaving, h⟩ := Checked.bind_eq_ok.1 h
  obtain rfl := Checked.pure_eq_ok.1 h
  obtain ⟨row, hrow, hn⟩ := Checked.exists_mem_of_mapM hleaving hn
  obtain ⟨pins, hpins, hn⟩ := Checked.bind_eq_ok.1 hn
  obtain ⟨net', hnet', rfl⟩ := partitionPins_eq_ok.1 hpins
  obtain rfl := Option.some.inj (hnet'.symm.trans hnet)
  obtain ⟨c, hc, hpc⟩ := Checked.exists_mem_of_mapM hn (List.mem_filter.2 ⟨hp, hpin⟩)
  obtain ⟨port, hport, hpc⟩ := Checked.bind_eq_ok.1 hpc
  obtain rfl := Checked.pure_eq_ok.1 hpc
  exact ⟨port, hport, List.mem_append_right _ (List.mem_flatten.2 ⟨row, hrow, hc⟩)⟩

end Crossings

/-! ## The text for the crossings -/

/-- A crossing needs the node of its port, a net of the static part and the route of that net. It has
a line if its net has a tree, and then both routes have to meet at the node. -/
theorem crossingLine_eq_ok {net : Net} {port : String} {moduleIsDriven : Bool}
    {line : Option String} : crossingLine d nl net port moduleIsDriven = .ok line ↔
      ∃ node static written, nl.portNodes[port]? = some node ∧
        nl.staticNetOf[net.name]? = some static ∧ nl.staticRoutes[static]? = some written ∧
        match net.intersite.head? with
        | none => line = none
        | some tree => ∃ staticRoute joined, RouteText.parse written = .ok staticRoute ∧
            staticRoute.joinAt? (d.routeText tree) node moduleIsDriven = some joined ∧
            line = some (routeLine joined.text static) := by
  unfold crossingLine
  cases nl.portNodes[port]? with
  | none => simp
  | some node =>
    cases nl.staticNetOf[net.name]? with
    | none => simp
    | some static =>
      cases hwritten : nl.staticRoutes[static]? with
      | none => simp [hwritten]
      | some written =>
        cases net.intersite.head? with
        | none => simp [hwritten, Checked.pure_eq_ok]
        | some tree =>
          cases hparse : RouteText.parse written with
          | error e => simp [hwritten, hparse, Except.mapError, bind, Except.bind]
          | ok staticRoute =>
            have hstep : ∀ f : RouteText → Except ExportError (Option String),
                ((.ok staticRoute : Except RouteTextError RouteText).mapError .routeText >>= f) =
                  f staticRoute := fun _ => rfl
            cases hjoin : staticRoute.joinAt? (d.routeText tree) node moduleIsDriven with
            | none => simp [hwritten, hparse, hstep, hjoin]
            | some joined => simp [hwritten, hparse, hstep, hjoin, Checked.pure_eq_ok]

theorem join_cons_reduceOption (line : Option String) (lines : List (Option String)) :
    String.join (line :: lines).reduceOption = line.getD "" ++ String.join lines.reduceOption := by
  cases line with
  | none => rw [List.reduceOption_cons_of_none, Option.getD_none, String.empty_append]
  | some text => rw [List.reduceOption_cons_of_some, String.join_cons, Option.getD_some]

theorem crossingLines_eq_ok {cs : List Crossing} {text : String} :
    crossingLines d nl cs = .ok (text, none) ↔ ∃ lines : List (Option String),
      List.Forall₂ (fun c line => ∃ net, nl.net? c.net = some net ∧
        crossingLine d nl net c.port c.moduleIsDriven = .ok line) cs lines ∧
      text = String.join lines.reduceOption := by
  induction cs generalizing text with
  | nil =>
    simp only [crossingLines, Checked.pure_eq_ok, Prod.mk.injEq, and_true]
    constructor
    · rintro rfl
      exact ⟨[], .nil, rfl⟩
    · rintro ⟨lines, hlines, rfl⟩
      cases hlines
      rfl
  | cons c cs ih =>
    rw [crossingLines, Checked.bind_eq_ok]
    constructor
    · rintro ⟨net, hnet, h⟩
      split at h
      next => cases Checked.pure_eq_ok.1 h
      next line hline =>
        obtain ⟨⟨rest, e⟩, hrest, h⟩ := Checked.bind_eq_ok.1 h
        obtain ⟨rfl, rfl⟩ := Prod.mk.inj (Checked.pure_eq_ok.1 h)
        obtain ⟨lines, hlines, rfl⟩ := ih.1 hrest
        exact ⟨line :: lines, .cons ⟨net, Netlist.getNet_eq_ok.1 hnet, hline⟩ hlines,
          (join_cons_reduceOption line lines).symm⟩
    · rintro ⟨lines, hlines, rfl⟩
      cases hlines with
      | @cons _ line _ lines hc hlines =>
        obtain ⟨net, hnet, hline⟩ := hc
        refine ⟨net, Netlist.getNet_eq_ok.2 hnet, ?_⟩
        rw [hline, join_cons_reduceOption]
        exact Checked.bind_eq_ok.2 ⟨_, ih.2 ⟨lines, hlines, rfl⟩, rfl⟩

/-- The text can be written when every crossing can be joined. -/
theorem exists_boundaryConstraints_iff {nets : BoundaryNets} {cs : List Crossing}
    (hcs : crossings nl nets = .ok cs) :
    (∃ text, boundaryConstraints d nl nets = .ok (text, none)) ↔
      ∀ c ∈ cs, ∃ net line, nl.net? c.net = some net ∧
        crossingLine d nl net c.port c.moduleIsDriven = .ok line := by
  have hlines : (∃ text, boundaryConstraints d nl nets = .ok (text, none)) ↔
      ∃ lines, List.Forall₂ (fun c line => ∃ net, nl.net? c.net = some net ∧
        crossingLine d nl net c.port c.moduleIsDriven = .ok line) cs lines := by
    rw [boundaryConstraints, hcs]
    simp only [Checked.ok_bind, crossingLines_eq_ok]
    rw [exists_comm]
    simp
  rw [hlines]
  clear hlines hcs
  induction cs with
  | nil => simp
  | cons c cs ih =>
    constructor
    · rintro ⟨_, _ | ⟨⟨net, hnet, hline⟩, hlines⟩⟩
      exact List.forall_mem_cons.2 ⟨⟨net, _, hnet, hline⟩, ih.1 ⟨_, hlines⟩⟩
    · intro hall
      obtain ⟨⟨net, line, hnet, hline⟩, hrest⟩ := List.forall_mem_cons.1 hall
      obtain ⟨lines, hlines⟩ := ih.2 hrest
      exact ⟨line :: lines, .cons ⟨net, hnet, hline⟩ hlines⟩

end Export

end Fabric
