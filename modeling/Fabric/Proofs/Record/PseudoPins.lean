import Fabric.Proofs.Record.Mapping
import Fabric.Proofs.Record.Repetition
/-!
# Pseudo pins while records are taken in

A constant that comes to a site pin gets pseudo pins at what the pin leads to. It gets them once:
when it comes again, they are there.
-/

namespace Fabric

open Netlist (IsPseudoName)

namespace Record

variable {d : Device} {desc : DeviceDescription} {im im' : Importer} {n : NetId} {p : SitePinId}

/-! ## Sinks that no record names -/

theorem run_implicitSinks_eq_ok : (implicitSinks d n p).run.run im = .ok (.ok (), im') ↔
    if (im.found d n (.sitePin p true)).isValid then
      ∃ m, (enterRouted d (im.found d n (.sitePin p true))).run.run im = .ok (.ok m, im')
    else im' = im := by
  have hrun : (implicitSinks d n p).run.run im =
      (if (im.found d n (.sitePin p true)).isValid then
        discard <| enterRouted d (im.found d n (.sitePin p true))
      else pure () : RecordM Unit).run.run im := rfl
  rw [hrun]
  split
  · exact run_discard_eq_ok
  · constructor
    · intro h
      cases h
      rfl
    · rintro rfl
      rfl

/-- The search finds the same route when it comes again, and this changes nothing. -/
theorem implicitSinks_again (h : (implicitSinks d n p).run.run im = .ok (.ok (), im')) :
    (implicitSinks d n p).run.run im' = .ok (.ok (), im') := by
  rw [run_implicitSinks_eq_ok] at h
  split at h
  next hvalid =>
    obtain ⟨m, henter⟩ := h
    obtain ⟨mid, nl, happly, hmark, rfl⟩ := run_enterRouted_eq_ok.1 henter
    have hsource : (im.found d n (.sitePin p true)).source = .sitePin p true :=
      (im.origin_found d n _).2
    obtain ⟨hused, mid', happly', hmark'⟩ := SiteRoute.entering_repeats hsource happly hmark
    have hunseen : SiteRoute.Unseen (.sitePin p true) im.netlist nl := ⟨nofun, .inl ⟨p, rfl⟩⟩
    have hfound : ({ im with netlist := nl } : Importer).found d n (.sitePin p true) =
        im.found d n (.sitePin p true) := by
      refine Importer.found_congr hused ?_ n hunseen
      rfl
    rw [run_implicitSinks_eq_ok, hfound, if_pos hvalid]
    exact ⟨m, run_enterRouted_eq_ok.2 ⟨mid', nl, happly', hmark', rfl⟩⟩
  next hvalid =>
    subst h
    rw [run_implicitSinks_eq_ok, if_neg hvalid]

theorem run_twice {act : RecordM Unit}
    (hagain : ∀ im', act.run.run im = .ok (.ok (), im') → act.run.run im' = .ok (.ok (), im')) :
    (do act; act).run.run im = act.run.run im := by
  rw [run_bind]
  rcases hact : act.run.run im with fault | ⟨refusal | ⟨⟩, im'⟩
  · rfl
  · rfl
  · exact hagain im' hact

/-- Where everything is there that a netlist names, a constant comes to its sinks. -/
theorem exists_implicitSinks (h : im.netlist.Closed) (d : Device) (isVcc : Bool) (p : SitePinId) :
    ∃ im', (implicitSinks d (Netlist.staticNet isVcc) p).run.run im = .ok (.ok (), im') := by
  let r := im.found d (Netlist.staticNet isVcc) (.sitePin p true)
  have hnet : r.net = Netlist.staticNet isVcc := (im.origin_found d _ _).1
  by_cases hvalid : r.isValid
  · have hlive : (im.netlist.net? r.net).isSome := hnet ▸ h.constants isVcc
    obtain ⟨m, mid, happly, hm⟩ := SiteRoute.exists_apply (d := d) h hlive
    obtain ⟨nl, hmark⟩ : ∃ nl, { r with net := m }.markRouted mid = .ok nl :=
      ⟨_, SiteRoute.markRouted_eq_ok.2 ⟨.inr hm, rfl⟩⟩
    refine ⟨{ im with netlist := nl }, run_implicitSinks_eq_ok.2 ?_⟩
    rw [if_pos hvalid]
    exact ⟨m, run_enterRouted_eq_ok.2 ⟨mid, nl, happly, hmark, rfl⟩⟩
  · refine ⟨im, run_implicitSinks_eq_ok.2 ?_⟩
    rw [if_neg hvalid]

/-! ## States of an import -/

section reaches

variable (hd : Device.ofDescription desc = .ok d) {netlist : NetlistDescription} {nl : Netlist}
  (hnl : Netlist.ofDescription d netlist = .ok nl) {text : String}
  (hreaches : (Importer.ofNetlist nl).Reaches d text im)

include hd hnl hreaches

/-- A cell counts its pseudo pins, and they are numbered in the order in which they are made. Each
is mapped to one BEL pin, on the BEL of its cell, and no other pin is mapped to this one. What a
constant gets at a site pin it gets once. -/
theorem pseudoPins_of_reaches :
    (∀ c cell, im.netlist.cell? c = some cell →
      cell.pseudoPinCount = (im.netlist.pseudoPins c).length ∧
      cell.pins.filter im.netlist.isPseudo = im.netlist.pseudoPins c ∧
      ∀ (i : Nat) q, (im.netlist.pseudoPins c)[i]? = some q →
        ∃ pin, im.netlist.pin? q = some pin ∧ IsPseudoName i pin.name) ∧
    (∀ q pin, im.netlist.pin? q = some pin → pin.kind = .pseudo →
      ∃ b cell bel, pin.belPins = [b] ∧ im.netlist.pinAt? b = some q ∧
        im.netlist.cell? pin.cell = some cell ∧ cell.bel = some bel ∧ b ∈ d.pinsOfBel bel ∧
        ∀ q' pin', im.netlist.pin? q' = some pin' → b ∈ pin'.belPins → q' = q) ∧
    ∀ isVcc p,
      (do
        implicitSinks d (Netlist.staticNet isVcc) p
        implicitSinks d (Netlist.staticNet isVcc) p).run.run im =
          (implicitSinks d (Netlist.staticNet isVcc) p).run.run im ∧
      (im.netlist.Closed →
        ∃ im', (implicitSinks d (Netlist.staticNet isVcc) p).run.run im = .ok (.ok (), im')) := by
  have hmapped := mapped_of_reaches hd hnl hreaches
  have hnumbered := numbered_of_reaches hd hnl hreaches
  refine ⟨fun c cell hc => ⟨?_, ?_, hnumbered.named c⟩, fun q pin hq hkind => ?_, fun isVcc p => ?_⟩
  · exact hnumbered.counted c cell hc
  · exact hnumbered.listed c cell hc
  · obtain ⟨b, hb⟩ := hnumbered.single q pin hq hkind
    have hmem : b ∈ pin.belPins := by rw [hb]; exact List.mem_singleton_self b
    obtain ⟨bel, hbel, hon⟩ := hmapped.onBel q pin b hq hmem
    obtain ⟨cell, hcell, hcellBel⟩ := Option.bind_eq_some_iff.1 hbel
    have hat := (hmapped.mapped b q).2 ⟨pin, hq, hmem⟩
    refine ⟨b, cell, bel, hb, hat, hcell, hcellBel, hon, fun q' pin' hq' hmem' => ?_⟩
    have hat' := (hmapped.mapped b q').2 ⟨pin', hq', hmem'⟩
    exact Option.some.inj (hat'.symm.trans hat)
  · exact ⟨run_twice fun _ => implicitSinks_again, fun h => exists_implicitSinks h d isVcc p⟩

end reaches

/-- Both inputs of the LUT get a pseudo pin, and they keep it when VCC comes to the site pin
again. -/
theorem pseudoPins_of_reaches_bareLut : ∃ d nl im cell pin,
    Device.ofDescription twoInputs = .ok d ∧ Netlist.ofDescription d bareLut = .ok nl ∧
    (Importer.ofNetlist nl).Reaches d vccText im ∧
    im.netlist.cell? ⟨0⟩ = some cell ∧ cell.pseudoPinCount = 2 ∧
    im.netlist.pseudoPins ⟨0⟩ = [⟨1⟩, ⟨2⟩] ∧
    im.netlist.pin? ⟨2⟩ = some pin ∧ IsPseudoName 1 pin.name ∧
    (im.found d Netlist.vcc (.sitePin ⟨0⟩ true)).belPinSinks.length = 2 ∧
    (do implicitSinks d Netlist.vcc ⟨0⟩; implicitSinks d Netlist.vcc ⟨0⟩).run.run im =
      (implicitSinks d Netlist.vcc ⟨0⟩).run.run im := by
  have hrun : (do
      let d ← (Device.ofDescription twoInputs).toOption
      let nl ← (Netlist.ofDescription d bareLut).toOption
      let (_, im) ← ((Importer.ofNetlist nl).importText d vccText).toOption
      return (im.netlist.pseudoPins ⟨0⟩, (im.netlist.cell? ⟨0⟩).isSome,
        (im.found d Netlist.vcc (.sitePin ⟨0⟩ true)).belPinSinks.length)) =
      some ([⟨1⟩, ⟨2⟩], true, 2) := by
    decide +kernel
  simp only [Option.bind_eq_bind, Option.bind_eq_some_iff, Checked.toOption_eq_some,
    Option.pure_def, Option.some.injEq, Prod.mk.injEq] at hrun
  obtain ⟨d, hd, nl, hnl, ⟨r, im⟩, hrun, hpins, hsome, hsinks⟩ := hrun
  have hreaches : (Importer.ofNetlist nl).Reaches d vccText im := .text hrun
  obtain ⟨hcells, -, hagain⟩ := pseudoPins_of_reaches hd hnl hreaches
  obtain ⟨cell, hcell⟩ := Option.isSome_iff_exists.1 hsome
  obtain ⟨hcount, -, hnamed⟩ := hcells ⟨0⟩ cell hcell
  rw [hpins] at hcount hnamed
  obtain ⟨pin, hpin, hname⟩ := hnamed 1 ⟨2⟩ rfl
  exact ⟨d, nl, im, cell, pin, hd, hnl, hreaches, hcell, hcount, hpins, hpin, hname, hsinks,
    (hagain true ⟨0⟩).1⟩

end Record

end Fabric
