import Fabric.Proofs.Netlist.Loading
import Fabric.Proofs.SiteRoute.Entering
/-!
# Pins and BEL pins

The pins know the BEL pins that they are mapped to, and a table leads from each BEL pin to its pin.
The two agree in every netlist that the changes of a placement lead to. A pseudo pin is made for
one BEL pin, and the pseudo pins of a cell are numbered in the order in which they are made.
-/

namespace Fabric

open Relation (ReflTransGen)

variable {d : Device} {C : Prop} {nl nl' : Netlist}

namespace Netlist

/-! ## Loading and entering as changes of the placement -/

theorem Loading.mounts (h : Loading d nl nl') : ReflTransGen (Mounts d C) nl nl' := by
  cases h with
  | cell name type isPort properties =>
    exact .tail (.single (.cell name type)) (.still (.modifyCell _ nl.nextCell fun _ => rfl))
  | place hc hbel hpins s b => exact .single (.place hc hbel hpins s b)
  | pin hc name dir => exact .single (.pin hc name dir nofun)
  | map hp hkind hbel hpin hb =>
    refine .single (.map hbel hpin (fun pin hp' => ?_) hb)
    obtain rfl := Option.some.inj (hp.symm.trans hp')
    rw [hkind]
    exact nofun
  | rename isVcc name => exact (Still.renameNet nl _ name).mounts
  | net name => exact Still.mounts (.of_eq rfl rfl rfl rfl (.inr rfl))
  | join _ p => exact (Still.attach nl _ p).mounts
  | tables => exact Still.mounts (.of_eq rfl rfl rfl rfl (.inr rfl))

theorem mounts_of_ofDescription {desc : NetlistDescription} (h : ofDescription d desc = .ok nl) :
    ReflTransGen (Mounts d C) (empty desc.name desc.mode) nl := by
  have hloads := loads_of_ofDescription h
  clear h
  induction hloads with
  | refl => exact .refl
  | tail _ hstep ih => exact ih.trans hstep.mounts

end Netlist

namespace SiteRoute

open Netlist (Mounts Still)

theorem Entering.mounts {r : SiteRoute}
    (hsinks : ∀ b ∈ r.belPinSinks, b ∈ d.pinsOfBel (d.belPinBel b)) (h : Entering d r nl nl') :
    ReflTransGen (Mounts d C) nl nl' := by
  cases h with
  | register => exact (Still.modifyNet nl _ _).mounts
  | join => exact (Still.attach nl _ _).mounts
  | tie hn hsink hc hcell hb hname =>
    exact .tail (.single (.tie hc hcell (hsinks _ hsink) hb hname))
      (.still ((Still.attach _ _ _).mapPin _ _))

theorem mounts_of_enters {r : SiteRoute}
    (hsinks : ∀ b ∈ r.belPinSinks, b ∈ d.pinsOfBel (d.belPinBel b))
    (h : ReflTransGen (Entering d r) nl nl') : ReflTransGen (Mounts d C) nl nl' := by
  induction h with
  | refl => exact .refl
  | tail _ hstep ih => exact ih.trans (hstep.mounts hsinks)

end SiteRoute

namespace Netlist

/-! ## The mapping of BEL pins -/

section mapPin

variable {p q : PinId} {b : BelPinId} {pin pin' : Pin}

theorem exists_pin?_mapPin (p : PinId) (b : BelPinId) (hq : nl.pin? q = some pin) :
    ∃ pin', (nl.mapPin p b).pin? q = some pin' ∧
      pin'.belPins = pin.belPins ++ if q = p then [b] else [] := by
  rw [pin?_mapPin, hq]
  split
  · exact ⟨_, rfl, rfl⟩
  · exact ⟨pin, rfl, (List.append_nil _).symm⟩

theorem exists_of_pin?_mapPin (hq : (nl.mapPin p b).pin? q = some pin') :
    ∃ pin, nl.pin? q = some pin ∧ pin'.cell = pin.cell ∧
      pin'.belPins = pin.belPins ++ if q = p then [b] else [] := by
  obtain ⟨pin, hpin, rfl⟩ := exists_of_ite_map (pin?_mapPin .. ▸ hq)
  refine ⟨pin, hpin, ?_⟩
  split
  · exact ⟨rfl, rfl⟩
  · exact ⟨rfl, (List.append_nil _).symm⟩

end mapPin

/-- The table of BEL pins leads to the pins that are mapped to them, and these pins are on the
BELs that their cells are placed on. -/
structure Mapped (d : Device) (nl : Netlist) : Prop where
  home : ∀ p pin, nl.pin? p = some pin → (nl.cell? pin.cell).isSome
  placed : ∀ bel c, nl.cellAt? bel = some c → nl.belOf? c = some bel
  mapped : ∀ b p, nl.pinAt? b = some p ↔ ∃ pin, nl.pin? p = some pin ∧ b ∈ pin.belPins
  once : ∀ p pin, nl.pin? p = some pin → pin.belPins.Nodup
  onBel : ∀ p pin b, nl.pin? p = some pin → b ∈ pin.belPins →
    ∃ bel, nl.belOf? pin.cell = some bel ∧ b ∈ d.pinsOfBel bel

namespace Mapped

theorem congr (h : nl.Mapped d)
    (hpins : ∀ p, (nl'.pin? p).map Pin.offNet = (nl.pin? p).map Pin.offNet)
    (hcells : ∀ c, (nl'.cell? c).isSome = (nl.cell? c).isSome)
    (hbels : ∀ c, nl'.belOf? c = nl.belOf? c) (hcellOfBel : nl'.cellOfBel = nl.cellOfBel)
    (hpinOfBelPin : nl'.pinOfBelPin = nl.pinOfBelPin) : nl'.Mapped d := by
  have back : ∀ p pin', nl'.pin? p = some pin' →
      ∃ pin, nl.pin? p = some pin ∧ pin.cell = pin'.cell ∧ pin.belPins = pin'.belPins := by
    intro p pin' hp
    have hmap := hpins p
    rw [hp, Option.map_some, eq_comm] at hmap
    obtain ⟨pin, hpin, heq⟩ := Option.map_eq_some_iff.1 hmap
    have hcell := congrArg Pin.cell heq
    have hmapped := congrArg Pin.belPins heq
    exact ⟨pin, hpin, hcell, hmapped⟩
  have onto : ∀ p pin, nl.pin? p = some pin →
      ∃ pin', nl'.pin? p = some pin' ∧ pin'.belPins = pin.belPins := by
    intro p pin hp
    have hmap := hpins p
    rw [hp, Option.map_some] at hmap
    obtain ⟨pin', hpin', heq⟩ := Option.map_eq_some_iff.1 hmap
    have hmapped := congrArg Pin.belPins heq
    exact ⟨pin', hpin', hmapped⟩
  constructor
  · intro p pin' hp
    obtain ⟨pin, hpin, hcell, -⟩ := back p pin' hp
    rw [← hcell, hcells]
    exact h.home p pin hpin
  · intro bel c hc
    rw [hbels]
    unfold cellAt? at hc
    rw [hcellOfBel] at hc
    exact h.placed bel c hc
  · intro b p
    have hat : nl'.pinAt? b = nl.pinAt? b := congrArg (fun pins => pins[b]?) hpinOfBelPin
    rw [hat, h.mapped]
    constructor
    · rintro ⟨pin, hp, hb⟩
      obtain ⟨pin', hp', heq⟩ := onto p pin hp
      exact ⟨pin', hp', heq ▸ hb⟩
    · rintro ⟨pin', hp', hb⟩
      obtain ⟨pin, hp, -, heq⟩ := back p pin' hp'
      exact ⟨pin, hp, heq ▸ hb⟩
  · intro p pin' hp
    obtain ⟨pin, hpin, -, heq⟩ := back p pin' hp
    rw [← heq]
    exact h.once p pin hpin
  · intro p pin' b hp hb
    obtain ⟨pin, hpin, hcell, heq⟩ := back p pin' hp
    rw [← hcell, hbels]
    exact h.onBel p pin b hpin (heq ▸ hb)

theorem addCell (h : nl.Mapped d) (name type : String) : (nl.addCell name type).Mapped d := by
  have hbels : ∀ c, (nl.addCell name type).belOf? c = nl.belOf? c := by
    intro c
    unfold belOf?
    rw [cell?_addCell]
    split
    next hc => rw [hc, cell?_nextCell]; rfl
    next => rfl
  exact {
    home := fun p pin hp => isSome_cell?_addCell nl (h.home p pin hp) name type
    placed := fun bel c hc => (hbels c).trans (h.placed bel c hc)
    mapped := h.mapped
    once := h.once
    onBel := fun p pin b hp hb => by
      rw [hbels]
      exact h.onBel p pin b hp hb }

theorem place (h : nl.Mapped d) {c : CellId} (hlive : (nl.cell? c).isSome)
    (hbel : nl.belOf? c = none) (hpins : ∀ p pin, nl.pin? p = some pin → pin.cell ≠ c) (s : SiteId)
    (b : BelId) : (nl.place c s b).Mapped d := by
  have hbels : ∀ e, (nl.place c s b).belOf? e = if e = c then some b else nl.belOf? e := by
    intro e
    unfold belOf?
    rw [cell?_place]
    split
    next he =>
      obtain ⟨cell, hcell⟩ := Option.isSome_iff_exists.1 hlive
      rw [he, hcell]
      rfl
    next => rfl
  constructor
  · intro p pin hp
    rw [cell?_place, isSome_ite_map]
    exact h.home p pin hp
  · intro bel e he
    rw [cellAt?_place] at he
    rw [hbels]
    split at he
    next heq =>
      cases he
      rw [if_pos rfl, heq]
    next =>
      have hold := h.placed bel e he
      rw [if_neg, hold]
      rintro rfl
      rw [hbel] at hold
      cases hold
  · exact h.mapped
  · exact h.once
  · intro p pin b' hp hb'
    rw [hbels, if_neg (hpins p pin hp)]
    exact h.onBel p pin b' hp hb'

theorem addPin (h : nl.Mapped d) {c : CellId} (hlive : (nl.cell? c).isSome) (name : String)
    (dir : PinDir) (kind : PinKind) : (nl.addPin c name dir kind).Mapped d := by
  -- a new pin is mapped to nothing
  have hcases : ∀ p pin, (nl.addPin c name dir kind).pin? p = some pin →
      nl.pin? p = some pin ∨ pin.cell = c ∧ pin.belPins = [] := by
    intro p pin hp
    rw [pin?_addPin] at hp
    split at hp
    · cases hp
      exact .inr ⟨rfl, rfl⟩
    · exact .inl hp
  constructor
  · intro p pin hp
    rw [cell?_addPin, isSome_ite_map]
    rcases hcases p pin hp with hold | ⟨rfl, -⟩
    · exact h.home p pin hold
    · exact hlive
  · intro bel e he
    rw [belOf?_addPin]
    exact h.placed bel e he
  · intro b p
    refine (h.mapped b p).trans ⟨?_, ?_⟩
    · rintro ⟨pin, hp, hb⟩
      exact ⟨pin, pin?_addPin_of_some nl hp c name dir kind, hb⟩
    · rintro ⟨pin, hp, hb⟩
      rcases hcases p pin hp with hold | ⟨-, hnone⟩
      · exact ⟨pin, hold, hb⟩
      · rw [hnone] at hb
        cases hb
  · intro p pin hp
    rcases hcases p pin hp with hold | ⟨-, hnone⟩
    · exact h.once p pin hold
    · rw [hnone]
      exact .nil
  · intro p pin b hp hb
    rw [belOf?_addPin]
    rcases hcases p pin hp with hold | ⟨-, hnone⟩
    · exact h.onBel p pin b hold hb
    · rw [hnone] at hb
      cases hb

theorem mapPin (h : nl.Mapped d) {p : PinId} {b : BelPinId} {bel : BelId}
    (hp : nl.pinBel? p = some bel) (hb : b ∈ d.pinsOfBel bel) (hfree : nl.pinAt? b = none) :
    (nl.mapPin p b).Mapped d := by
  obtain ⟨old, hold, hbel⟩ := Option.bind_eq_some_iff.1 hp
  -- nothing was mapped to the BEL pin before
  have hfresh : ∀ q pin, nl.pin? q = some pin → b ∉ pin.belPins := by
    intro q pin hq hmem
    rw [(h.mapped b q).2 ⟨pin, hq, hmem⟩] at hfree
    cases hfree
  constructor
  · intro q pin' hq
    obtain ⟨pin, hpin, hcell, -⟩ := exists_of_pin?_mapPin hq
    rw [hcell]
    exact h.home q pin hpin
  · exact h.placed
  · intro b' q
    rw [pinAt?_mapPin]
    constructor
    · intro hat
      split at hat
      next heq =>
        obtain rfl : p = q := Option.some.inj hat
        obtain ⟨pin', hq, hpins⟩ := exists_pin?_mapPin p b hold
        refine ⟨pin', hq, ?_⟩
        rw [hpins, if_pos rfl, heq]
        exact List.mem_append_right _ (List.mem_singleton_self b)
      next =>
        obtain ⟨pin, hpin, hmem⟩ := (h.mapped b' q).1 hat
        obtain ⟨pin', hq, hpins⟩ := exists_pin?_mapPin p b hpin
        exact ⟨pin', hq, hpins ▸ List.mem_append_left _ hmem⟩
    · rintro ⟨pin', hq, hmem⟩
      obtain ⟨pin, hpin, -, hpins⟩ := exists_of_pin?_mapPin hq
      rw [hpins, List.mem_append, List.mem_ite_nil_right, List.mem_singleton] at hmem
      rcases hmem with hmem | ⟨rfl, rfl⟩
      · have hne : b' ≠ b := by
          rintro rfl
          exact hfresh q pin hpin hmem
        rw [if_neg hne]
        exact (h.mapped b' q).2 ⟨pin, hpin, hmem⟩
      · rw [if_pos rfl]
  · intro q pin' hq
    obtain ⟨pin, hpin, -, hpins⟩ := exists_of_pin?_mapPin hq
    rw [hpins]
    split
    next =>
      refine List.nodup_append.2 ⟨h.once q pin hpin, by simp, ?_⟩
      rintro x hx y hy rfl
      exact hfresh q pin hpin (List.mem_singleton.1 hy ▸ hx)
    next =>
      rw [List.append_nil]
      exact h.once q pin hpin
  · intro q pin' b' hq hmem
    obtain ⟨pin, hpin, hcell, hpins⟩ := exists_of_pin?_mapPin hq
    rw [hpins, List.mem_append, List.mem_ite_nil_right, List.mem_singleton] at hmem
    rw [hcell]
    rcases hmem with hmem | ⟨rfl, rfl⟩
    · exact h.onBel q pin b' hpin hmem
    · cases hold.symm.trans hpin
      exact ⟨bel, hbel, hb⟩

theorem addPseudoPin (h : nl.Mapped d) {c : CellId} (hlive : (nl.cell? c).isSome) (name : String)
    (dir : PinDir) : (nl.addPseudoPin c name dir).Mapped d := by
  have hcount : ∀ e, ((nl.addPseudoPin c name dir).cell? e).map Cell.bel =
      ((nl.addPin c name dir .pseudo).cell? e).map Cell.bel := by
    intro e
    unfold Netlist.addPseudoPin
    rw [cell?_modifyCell]
    split
    · rw [Option.map_map]
      rfl
    · rfl
  refine (h.addPin hlive name dir .pseudo).congr (fun _ => rfl) (fun e => ?_) (fun e => ?_) rfl rfl
  · have hsome := congrArg Option.isSome (hcount e)
    simpa only [Option.isSome_map] using hsome
  · have hbel := congrArg (fun o => o.bind id) (hcount e)
    simp only [Option.bind_map] at hbel
    exact hbel

theorem mounts (h : nl.Mapped d) (hstep : Mounts d C nl nl') : nl'.Mapped d := by
  cases hstep with
  | still hstill =>
    exact h.congr hstill.pins hstill.isSome_cell? hstill.belOf? hstill.cellOfBel hstill.pinOfBelPin
  | cell name type => exact h.addCell name type
  | place hlive hbel hpins s b => exact h.place hlive hbel hpins s b
  | pin hlive name dir => exact h.addPin hlive name dir _
  | map hp hb _ hfree => exact h.mapPin hp hb hfree
  | @tie c cell b name hc hcell hb hfree =>
    have hlive : (nl.cell? c).isSome := Option.isSome_iff_exists.2 ⟨cell, hcell⟩
    have hadded := h.addPseudoPin hlive name (d.belPinDir b)
    have hnew : (nl.addPseudoPin c name (d.belPinDir b)).pin? nl.nextPin =
        some { name, cell := c, dir := d.belPinDir b, kind := .pseudo } := by
      change (nl.addPin c name (d.belPinDir b) .pseudo).pin? nl.nextPin = _
      rw [pin?_addPin, if_pos rfl]
    refine hadded.mapPin ?_ hb hfree
    rw [pinBel?_eq hnew]
    exact hadded.placed _ c hc

end Mapped

theorem mapped_of_mounts (h : ReflTransGen (Mounts d C) nl nl') (hnl : nl.Mapped d) :
    nl'.Mapped d := by
  induction h with
  | refl => exact hnl
  | tail _ hstep ih => exact ih.mounts hstep

theorem mapped_empty (d : Device) (name : String) (mode : Mode) :
    (empty name mode).Mapped d := by
  constructor <;> simp [empty, Netlist.addNet, pin?, cellAt?, pinAt?]

end Netlist

end Fabric
