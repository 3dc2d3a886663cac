import Fabric.Proofs.Netlist.Loading
import Fabric.Proofs.Record.Lines
/-!
# Pins and nets agree in every netlist

However a netlist comes about, its pins, the lists of its nets and their sources say the same.
-/

namespace Fabric

namespace Record

theorem maintains_consistent (d : Device) : Maintains d fun im => im.netlist.Consistent where
  consistent _ him := him
  adds _ _ him hadds := hadds.consistent him
  bounds _ _ him hbounds := hbounds.consistent him
  ties _ _ _ _ him hties := hties.consistent him

end Record

namespace Netlist

/-- Netlists that are made or loaded, then changed step by step and by imports. -/
inductive Built : Netlist → Prop
  | empty (name : String) (mode : Mode) : Built (.empty name mode)
  | loaded {d : Device} {desc : NetlistDescription} {nl : Netlist}
      (hload : ofDescription d desc = .ok nl) : Built nl
  | addCell {nl : Netlist} (h : Built nl) (name type : String) : Built (nl.addCell name type)
  | newPin {nl nl' : Netlist} (h : Built nl) {c : CellId} {name : String} {dir : PinDir}
      {kind : PinKind} (hstep : nl.newPin c name dir kind = .ok nl') : Built nl'
  | newPseudoPin {nl nl' : Netlist} (h : Built nl) {c : CellId} {name : String} {dir : PinDir}
      (hstep : nl.newPseudoPin c name dir = .ok nl') : Built nl'
  | addNet {nl : Netlist} (h : Built nl) (name : String) (kind : NetKind) :
      Built (nl.addNet name kind)
  | rename {nl nl' : Netlist} (h : Built nl) {n : NetId} {name : String}
      (hstep : nl.rename n name = .ok nl') : Built nl'
  | removeNet {nl : Netlist} (h : Built nl) (n : NetId) : Built (nl.removeNet n)
  | connect {nl nl' : Netlist} (h : Built nl) {n : NetId} {p : PinId}
      (hstep : nl.connect n p = .ok nl') : Built nl'
  | disconnect {nl nl' : Netlist} (h : Built nl) {n : NetId} {p : PinId}
      (hstep : nl.disconnect n p = .ok nl') : Built nl'
  | connectSource {nl nl' : Netlist} (h : Built nl) {n : NetId} {p : PinId}
      (hstep : nl.connectSource n p = .ok nl') : Built nl'
  | imported {d : Device} {text : String} {im im' : Importer} (h : Built im.netlist)
      (hreaches : im.Reaches d text im') : Built im'.netlist

theorem Built.consistent {nl : Netlist} (h : Built nl) : nl.Consistent := by
  induction h with
  | empty name mode => exact consistent_empty name mode
  | loaded hload => exact (closed_of_ofDescription hload).toConsistent
  | addCell _ name type ih => exact ih.addCell name type
  | newPin _ hstep ih =>
    obtain ⟨-, rfl⟩ := newPin_eq_ok.1 hstep
    exact ih.addPin _ _ _ _
  | newPseudoPin _ hstep ih =>
    obtain ⟨-, rfl⟩ := newPseudoPin_eq_ok.1 hstep
    exact ih.addPseudoPin _ _ _
  | addNet _ name kind ih => exact ih.addNet name kind
  | rename _ hstep ih =>
    obtain ⟨-, rfl⟩ := rename_eq_ok.1 hstep
    exact ih.renameNet _ _
  | removeNet _ n ih => exact ih.removeNet n
  | connect _ hstep ih =>
    obtain ⟨hn, -, rfl⟩ := ih.connect_iff.1 hstep
    exact ih.attach hn _
  | disconnect _ hstep ih =>
    obtain ⟨-, -, rfl⟩ := disconnect_eq_ok.1 hstep
    exact ih.detach _ _
  | connectSource _ hstep ih =>
    obtain ⟨hn, hp, rfl⟩ := ih.connectSource_iff.1 hstep
    exact ih.attachSource hn hp
  | imported _ hreaches ih => exact (Record.maintains_consistent _).reaches ih hreaches

/-- A pin names the net that lists it, no list names a pin twice, no two lists share a pin, and
a source is listed by its net. -/
theorem pins_agree_with_nets {nl : Netlist} (h : Built nl) :
    (∀ p n, nl.netOf? p = some n ↔ ∃ net, nl.net? n = some net ∧ p ∈ net.pins) ∧
    (∀ n net, nl.net? n = some net → net.pins.Nodup) ∧
    (∀ n m net net' p, nl.net? n = some net → nl.net? m = some net' → p ∈ net.pins →
      p ∈ net'.pins → n = m) ∧
    ∀ n net p, nl.net? n = some net → net.source = some p → p ∈ net.pins := by
  have hc := h.consistent
  exact ⟨hc.on_net, hc.once, fun n m net net' p hn hm hp hp' => hc.apart hn hm hp hp', hc.source⟩

/-- A pin joins a net, goes over to another one as its source, is taken off the net that it is no
longer on, and the first net is removed. -/
def handedOver : Except Fault Netlist := do
  let nl := (((empty "top" .regular).addCell "ff" "FDRE").addNet "a" .wire).addNet "b" .wire
  let nl ← nl.newPin ⟨0⟩ "Q" .output .regular
  let nl ← nl.newPseudoPin ⟨0⟩ "D" .input
  let nl ← nl.connect ⟨2⟩ ⟨0⟩
  let nl ← nl.connect ⟨2⟩ ⟨1⟩
  let nl ← nl.connectSource ⟨3⟩ ⟨1⟩
  let nl ← nl.disconnect ⟨2⟩ ⟨1⟩
  let nl ← nl.rename ⟨3⟩ "c"
  return nl.removeNet ⟨2⟩

theorem built_of_handedOver {nl : Netlist} (h : handedOver = .ok nl) : Built nl := by
  have hbare : Built
      ((((empty "top" .regular).addCell "ff" "FDRE").addNet "a" .wire).addNet "b" .wire) :=
    (((Built.empty "top" .regular).addCell "ff" "FDRE").addNet "a" .wire).addNet "b" .wire
  unfold handedOver at h
  simp only [Checked.bind_eq_ok] at h
  obtain ⟨_, h₁, _, h₂, _, h₃, _, h₄, _, h₅, _, h₆, _, h₇, h₈⟩ := h
  cases Checked.pure_eq_ok.1 h₈
  have hjoined := (((hbare.newPin h₁).newPseudoPin h₂).connect h₃).connect h₄
  exact (((hjoined.connectSource h₅).disconnect h₆).rename h₇).removeNet _

theorem pins_agree_with_nets_handedOver : ∃ nl, handedOver = .ok nl ∧ Built nl ∧
    nl.netOf? ⟨0⟩ = none ∧ nl.netOf? ⟨1⟩ = some ⟨3⟩ ∧
    ∃ net, nl.net? ⟨3⟩ = some net ∧ ⟨1⟩ ∈ net.pins ∧ net.source = some ⟨1⟩ := by
  obtain ⟨nl, hnl⟩ : ∃ nl, handedOver = .ok nl := ⟨_, rfl⟩
  have hbuilt := built_of_handedOver hnl
  have hrun : (handedOver.toOption.map fun nl =>
      (nl.netOf? ⟨0⟩, nl.netOf? ⟨1⟩, (nl.net? ⟨3⟩).bind Net.source)) =
      some (none, some ⟨3⟩, some ⟨1⟩) := by
    decide +kernel
  rw [hnl] at hrun
  simp only [Except.toOption, Option.map_some, Option.some.injEq, Prod.mk.injEq] at hrun
  obtain ⟨hoff, hon, hsource⟩ := hrun
  obtain ⟨hof, -, -, -⟩ := pins_agree_with_nets hbuilt
  obtain ⟨net, hnet, hmem⟩ := (hof ⟨1⟩ ⟨3⟩).1 hon
  rw [hnet] at hsource
  exact ⟨nl, hnl, hbuilt, hoff, hon, net, hnet, hmem, hsource⟩

end Netlist

end Fabric
