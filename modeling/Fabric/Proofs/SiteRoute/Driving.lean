import Fabric.Proofs.SiteRoute.Entering
/-!
# What drives a net

The net that a port brings into a module is driven by the pin of the port, and the port has a node
noted for it. Routes that are entered take no source from a net and leave ports and their nodes
as they are, so a net that was driven like this stays so.
-/

namespace Fabric

open Relation (ReflTransGen)

namespace Netlist

variable {nl nl' nl'' : Netlist}

/-- The net is driven from a port, for which the node is noted. A constant is no node. -/
def BroughtIn (nl : Netlist) (n : NetId) (node : String) : Prop :=
  ∃ net p pin cell, nl.net? n = some net ∧ net.source = some p ∧ nl.pin? p = some pin ∧
    nl.cell? pin.cell = some cell ∧ cell.isPort ∧ nl.portNodes[cell.name]? = some node ∧
    node ≠ vccName ∧ node ≠ gndName

structure Steers (nl nl' : Netlist) : Prop where
  source : ∀ n net p, nl.net? n = some net → net.source = some p →
    ∃ net', nl'.net? n = some net' ∧ net'.source = some p
  cell : ∀ c cell, nl.cell? c = some cell →
    ∃ cell', nl'.cell? c = some cell' ∧ cell'.name = cell.name ∧ cell'.isPort = cell.isPort
  nodes : nl'.portNodes = nl.portNodes

namespace Steers

theorem of_eq (hnets : ∀ n, nl'.net? n = nl.net? n) (hcells : ∀ c, nl'.cell? c = nl.cell? c)
    (hnodes : nl'.portNodes = nl.portNodes) : nl.Steers nl' where
  source n net _ hn hp := ⟨net, (hnets n).trans hn, hp⟩
  cell c cell hc := ⟨cell, (hcells c).trans hc, rfl, rfl⟩
  nodes := hnodes

theorem refl (nl : Netlist) : nl.Steers nl := of_eq (fun _ => rfl) (fun _ => rfl) rfl

theorem trans (h : nl.Steers nl') (h' : nl'.Steers nl'') : nl.Steers nl'' where
  source n net p hn hp := by
    obtain ⟨net', hn', hp'⟩ := h.source n net p hn hp
    exact h'.source n net' p hn' hp'
  cell c cell hc := by
    obtain ⟨cell', hc', hname, hport⟩ := h.cell c cell hc
    obtain ⟨cell'', hc'', hname', hport'⟩ := h'.cell c cell' hc'
    exact ⟨cell'', hc'', hname'.trans hname, hport'.trans hport⟩
  nodes := h'.nodes.trans h.nodes

theorem modifyNet (nl : Netlist) (n : NetId) {f : Net → Net}
    (hf : ∀ net, (f net).source = net.source) : nl.Steers (nl.modifyNet n f) where
  source m net p hm hp := by
    rw [net?_modifyNet, hm]
    split
    · exact ⟨f net, rfl, (hf net).trans hp⟩
    · exact ⟨net, rfl, hp⟩
  cell c cell hc := ⟨cell, hc, rfl, rfl⟩
  nodes := rfl

theorem attach_of_off {n : NetId} {p : PinId} (hoff : nl.netOf? p = none) :
    nl.Steers (nl.attach n p) := by
  cases hp : nl.pin? p with
  | none =>
    rw [attach_of_no_pin hp]
    exact refl nl
  | some pin =>
    refine ⟨fun m net q hm hq => ?_, fun c cell hc => ⟨cell, ?_, rfl, rfl⟩, ?_⟩
    · rw [net?_attach_of_off hp hoff, hm]
      split
      · refine ⟨net.addPin p pin.dir, rfl, ?_⟩
        rw [Net.addPin, if_neg (by simp [hq])]
        exact hq
      · exact ⟨net, rfl, hq⟩
    · rwa [cell?_attach]
    · rw [Netlist.attach_of_off hp hoff]
      rfl

theorem addPseudoPin (nl : Netlist) (c : CellId) (name : String) (dir : PinDir) :
    nl.Steers (nl.addPseudoPin c name dir) where
  source n net p hn hp := ⟨net, hn, hp⟩
  cell e cell he := by
    unfold Netlist.addPseudoPin
    rw [cell?_modifyCell, cell?_addPin, he]
    split <;> exact ⟨_, rfl, rfl, rfl⟩
  nodes := rfl

theorem broughtIn (h : nl.Steers nl') (hgrows : nl.Extends nl') {n : NetId} {node : String}
    (hnode : nl.BroughtIn n node) : nl'.BroughtIn n node := by
  obtain ⟨net, p, pin, cell, hn, hsource, hp, hc, hport, hnoted, hsignal⟩ := hnode
  obtain ⟨net', hn', hsource'⟩ := h.source n net p hn hsource
  obtain ⟨pin', hp', hext⟩ := hgrows.pin_stays p pin hp
  obtain ⟨cell', hc', hname, hport'⟩ := h.cell pin.cell cell hc
  refine ⟨net', p, pin', cell', hn', hsource', hp', ?_, hport'.trans hport, ?_, hsignal⟩
  · rw [hext.cell, hc']
  · rw [h.nodes, hname, hnoted]

end Steers

theorem broughtIn_modifyNet {n m : NetId} {f : Net → Net}
    (hf : ∀ net, (f net).source = net.source) {node : String} :
    (nl.modifyNet m f).BroughtIn n node ↔ nl.BroughtIn n node := by
  constructor
  · rintro ⟨net', p, pin, cell, hn', hsource, hrest⟩
    obtain ⟨net, hn, rfl⟩ := exists_of_ite_map (net?_modifyNet .. ▸ hn')
    refine ⟨net, p, pin, cell, hn, ?_, hrest⟩
    split at hsource
    · exact (hf net).symm.trans hsource
    · exact hsource
  · rintro ⟨net, p, pin, cell, hn, hsource, hrest⟩
    obtain ⟨net', hn', hsource'⟩ := (Steers.modifyNet nl m hf).source n net p hn hsource
    exact ⟨net', p, pin, cell, hn', hsource', hrest⟩

end Netlist

namespace SiteRoute

variable {d : Device} {r : SiteRoute} {nl nl' : Netlist}

theorem Entering.steers (h : Entering d r nl nl') : nl.Steers nl' := by
  cases h with
  | register _ hnote =>
    exact .modifyNet nl _ fun net => congrArg Prod.snd (hnote.registers net _).joins
  | join _ _ hoff => exact .attach_of_off hoff
  | @tie n c _ b name =>
    have hoff : (nl.addPseudoPin c name (d.belPinDir b)).netOf? nl.nextPin = none := by
      rw [Netlist.netOf?_addPseudoPin, Netlist.netOf?, Netlist.pin?_nextPin]
      rfl
    have hadded := Netlist.Steers.addPseudoPin nl c name (d.belPinDir b)
    exact (hadded.trans (.attach_of_off hoff)).trans (.of_eq (fun _ => rfl) (fun _ => rfl) rfl)

theorem steers_of_enters (h : ReflTransGen (Entering d r) nl nl') : nl.Steers nl' := by
  induction h with
  | refl => exact .refl nl
  | tail _ hstep ih => exact ih.trans hstep.steers

theorem steers_of_markRouted (h : r.markRouted nl = .ok nl') : nl.Steers nl' := by
  obtain ⟨-, rfl⟩ := markRouted_eq_ok.1 h
  refine .modifyNet nl _ fun net => ?_
  obtain ⟨routedSinks, hsinks⟩ := exists_foldl_addRoutedSink (r.sinkPins nl) net
  rw [hsinks]

end SiteRoute

end Fabric
