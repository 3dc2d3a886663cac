import Fabric.Proofs.Device.Bels
import Fabric.Proofs.Netlist.PseudoPins
import Fabric.Proofs.Record.Lines
import Fabric.Proofs.Record.Progress
/-!
# The mapping of BEL pins while records are taken in

Records change the placement of a design as loading does. So what holds of every placement that
such changes lead to holds in every state of an import.
-/

namespace Fabric

open Relation (ReflTransGen)
open Netlist (Mounts Still)

namespace SiteRoute

theorem still_of_markRouted {C : Prop} {r : SiteRoute} {nl nl' : Netlist}
    (h : r.markRouted nl = .ok nl') : Still C nl nl' := by
  obtain ⟨-, rfl⟩ := markRouted_eq_ok.1 h
  exact .modifyNet nl _ _

end SiteRoute

namespace Record

variable {d : Device} {desc : DeviceDescription} {C : Prop} {im im' : Importer}

theorem mem_pinsOfBel_of_found (hd : Device.ofDescription desc = .ok d) (im : Importer)
    (n : NetId) (source : SiteRoute.Source) :
    ∀ b ∈ (im.found d n source).belPinSinks, b ∈ d.pinsOfBel (d.belPinBel b) := by
  intro b hb
  obtain ⟨w, -, hterminal, -⟩ := sink_of_found hd im n source hb
  have hpin := (Device.pinsMatch_of_ofDescription hd).isSome_belPin?_of_terminal? hterminal
  exact (Device.ownsPins_of_ofDescription hd).mem_pinsOfBel hpin

/-! ## Records as changes of the placement -/

theorem Adds.mounts {S : NetId → Prop} (hd : Device.ofDescription desc = .ok d)
    (h : Adds d S C im im') : ReflTransGen (Mounts d C) im.netlist im'.netlist := by
  cases h with
  | enter _ _ happly hmark =>
    have henters := SiteRoute.mounts_of_enters (C := C) (mem_pinsOfBel_of_found hd im _ _)
      (SiteRoute.enters_of_apply happly)
    exact henters.tail (.still (SiteRoute.still_of_markRouted hmark))
  | await _ happly =>
    exact SiteRoute.mounts_of_enters (mem_pinsOfBel_of_found hd im _ _)
      (SiteRoute.enters_of_apply happly)
  | arrive _ hmark => exact (SiteRoute.still_of_markRouted hmark).mounts
  | note _ _ => exact (Still.modifyNet _ _ _).mounts
  | choose hC => exact Still.mounts (.of_eq rfl rfl rfl rfl (.inl hC))
  | pass => exact .refl
  | tieOff isVcc => cases isVcc <;> exact .refl
  | portNode => exact Still.mounts (.of_eq rfl rfl rfl rfl (.inr rfl))

theorem Bounds.mounts (h : Bounds im im') :
    ReflTransGen (Mounts d C) im.netlist im'.netlist := by
  cases h with
  | intro _ _ hadd =>
    exact (Netlist.mounts_of_addPartitionPin hadd).tail (.still (.of_eq rfl rfl rfl rfl (.inr rfl)))

theorem Ties.mounts {isVcc : Bool} {port : CellId} (h : Ties isVcc port im im') :
    ReflTransGen (Mounts d C) im.netlist im'.netlist := by
  cases h with
  | intro _ _ htie => exact Netlist.mounts_of_tiePort htie

theorem maintains_mounts (hd : Device.ofDescription desc = .ok d) (nl : Netlist) :
    Maintains d fun im => im.netlist.Consistent ∧ ReflTransGen (Mounts d True) nl im.netlist where
  consistent _ h := h.1
  adds _ _ h hadds := ⟨hadds.consistent h.1, h.2.trans (hadds.mounts hd)⟩
  bounds _ _ h hbounds := ⟨hbounds.consistent h.1, h.2.trans hbounds.mounts⟩
  ties _ _ _ _ h hties := ⟨hties.consistent h.1, h.2.trans hties.mounts⟩

/-! ## States of an import -/

section changes

variable (hd : Device.ofDescription desc = .ok d) {netlist : NetlistDescription} {nl : Netlist}
  (hnl : Netlist.ofDescription d netlist = .ok nl)
  (hchanges : ReflTransGen (Change d) (Importer.ofNetlist nl) im)

include hd hnl hchanges

theorem mounts_of_changes : im.netlist.Consistent ∧
    ReflTransGen (Mounts d True) (Netlist.empty netlist.name netlist.mode) im.netlist := by
  have hloaded : (Importer.ofNetlist nl).netlist.Consistent :=
    (Netlist.closed_of_ofDescription hnl).toConsistent
  obtain ⟨hc, himported⟩ := (maintains_mounts hd nl).changes ⟨hloaded, .refl⟩ hchanges
  exact ⟨hc, (Netlist.mounts_of_ofDescription hnl).trans himported⟩

theorem mapped_of_changes : im.netlist.Mapped d :=
  Netlist.mapped_of_mounts (mounts_of_changes hd hnl hchanges).2 (Netlist.mapped_empty d _ _)

theorem numbered_of_changes : im.netlist.Numbered :=
  Netlist.numbered_of_mounts (mounts_of_changes hd hnl hchanges).2 (Netlist.mapped_empty d _ _)
    (Netlist.numbered_empty _ _)

end changes

section reaches

variable (hd : Device.ofDescription desc = .ok d) {netlist : NetlistDescription} {nl : Netlist}
  (hnl : Netlist.ofDescription d netlist = .ok nl) {text : String}
  (hreaches : (Importer.ofNetlist nl).Reaches d text im)

include hd hnl hreaches

theorem mapped_of_reaches : im.netlist.Mapped d :=
  mapped_of_changes hd hnl
    (changes_of_reaches (Netlist.closed_of_ofDescription hnl).toConsistent hreaches)

theorem numbered_of_reaches : im.netlist.Numbered :=
  numbered_of_changes hd hnl
    (changes_of_reaches (Netlist.closed_of_ofDescription hnl).toConsistent hreaches)

/-- The table leads from a BEL pin to the one pin that is mapped to it, and the BEL pin is on the
BEL that the cell of the pin is placed on. -/
theorem mapping_bijective (b : BelPinId) (p : PinId) :
    (im.netlist.pinAt? b = some p ↔ ∃ pin, im.netlist.pin? p = some pin ∧ b ∈ pin.belPins) ∧
    ∀ pin, im.netlist.pin? p = some pin → b ∈ pin.belPins →
      pin.belPins.count b = 1 ∧
      (∀ q other, im.netlist.pin? q = some other → b ∈ other.belPins → q = p) ∧
      ∃ cell bel, im.netlist.cell? pin.cell = some cell ∧ cell.bel = some bel ∧
        b ∈ d.pinsOfBel bel ∧ d.belPinBel b = bel := by
  have hmapped := mapped_of_reaches hd hnl hreaches
  refine ⟨hmapped.mapped b p, fun pin hp hb => ⟨?_, fun q other hq hother => ?_, ?_⟩⟩
  · exact List.count_eq_one_of_mem (hmapped.once p pin hp) hb
  · have hatp := (hmapped.mapped b p).2 ⟨pin, hp, hb⟩
    have hatq := (hmapped.mapped b q).2 ⟨other, hq, hother⟩
    exact Option.some.inj (hatq.symm.trans hatp)
  · obtain ⟨bel, hbel, hmem⟩ := hmapped.onBel p pin b hp hb
    obtain ⟨cell, hcell, hcellBel⟩ := Option.bind_eq_some_iff.1 hbel
    have howner := (Device.ownsPins_of_ofDescription hd).belPinBel_eq hmem
    exact ⟨cell, bel, hcell, hcellBel, hmem, howner⟩

end reaches

/-! ## A LUT with two free inputs -/

def twoInputs : DeviceDescription where
  name := "inputs"
  family := .other
  tiles := [
    ⟨"INT", "SWITCH", [⟨"N", [⟨"P", none, .pip⟩]⟩, ⟨"P", [⟨"I", some "CLB", .wire⟩]⟩]⟩,
    ⟨"CLB", "LOGIC", []⟩]
  siteTypes := [⟨"SLICE", [⟨"A", [⟨"L", none, .wire⟩, ⟨"M", none, .wire⟩]⟩],
    [⟨"LUT", [⟨"A1", .input, "L"⟩, ⟨"A2", .input, "M"⟩]⟩], [⟨"A", .input, "A", "I"⟩]⟩]
  sites := [⟨"S", "SLICE", "CLB"⟩]

def bareLut : NetlistDescription where
  name := "top"
  mode := .regular
  cells := [⟨"lut", "LUT1", some "S/LUT", false, ∅, [⟨"O", .output, []⟩]⟩]
  nets := []
  staticNetOf := ∅
  staticRoutes := ∅

def vccText : String := "VCC INT/SWITCH.N->P\nSTART_WIRES INT/N"

theorem mapping_bijective_bareLut : ∃ d nl im pin, Device.ofDescription twoInputs = .ok d ∧
    Netlist.ofDescription d bareLut = .ok nl ∧ (Importer.ofNetlist nl).Reaches d vccText im ∧
    im.netlist.pin? ⟨1⟩ = some pin ∧ im.netlist.pinAt? ⟨0⟩ = some ⟨1⟩ ∧
    (⟨0⟩ : BelPinId) ∈ pin.belPins ∧ pin.belPins.count (⟨0⟩ : BelPinId) = 1 := by
  have hrun : (do
      let d ← (Device.ofDescription twoInputs).toOption
      let nl ← (Netlist.ofDescription d bareLut).toOption
      let (_, im) ← ((Importer.ofNetlist nl).importText d vccText).toOption
      return im.netlist.pinAt? ⟨0⟩) = some (some (⟨1⟩ : PinId)) := by
    decide +kernel
  simp only [Option.bind_eq_bind, Option.bind_eq_some_iff, Checked.toOption_eq_some,
    Option.pure_def, Option.some.injEq] at hrun
  obtain ⟨d, hd, nl, hnl, ⟨r, im⟩, hrun, hat⟩ := hrun
  have hreaches : (Importer.ofNetlist nl).Reaches d vccText im := .text hrun
  obtain ⟨hiff, hmapped⟩ := mapping_bijective hd hnl hreaches ⟨0⟩ ⟨1⟩
  obtain ⟨pin, hp, hmem⟩ := hiff.1 hat
  exact ⟨d, nl, im, pin, hd, hnl, hreaches, hp, hat, hmem, (hmapped pin hp hmem).1⟩

end Record

end Fabric
