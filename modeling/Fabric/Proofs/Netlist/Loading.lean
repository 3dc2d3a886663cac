import Mathlib.Logic.Relation
import Fabric.Proofs.Netlist.Closed
import Fabric.Proofs.Netlist.Placement
import Fabric.Proofs.Netlist.Repinning
/-!
# Loading as a chain of changes

A description is loaded change by change. Whatever the empty netlist has and no such change
takes away, a loaded netlist has.
-/

namespace Fabric.Netlist

open Relation (ReflTransGen)

inductive Loading (d : Device) (nl : Netlist) : Netlist → Prop
  | cell (name type : String) (isPort : Bool) (properties : Table String String) :
      Loading d nl ((nl.addCell name type).modifyCell nl.nextCell fun old =>
        { old with isPort, properties })
  | place {c : CellId} (hc : (nl.cell? c).isSome) (hbel : nl.belOf? c = none)
      (hpins : ∀ p pin, nl.pin? p = some pin → pin.cell ≠ c) (s : SiteId) (b : BelId) :
      Loading d nl (nl.place c s b)
  | pin {c : CellId} (hc : (nl.cell? c).isSome) (name : String) (dir : PinDir) :
      Loading d nl (nl.addPin c name dir .regular)
  | map {p : PinId} {pin : Pin} {b : BelPinId} {bel : BelId} (hp : nl.pin? p = some pin)
      (hkind : pin.kind = .regular) (hbel : nl.pinBel? p = some bel) (hpin : b ∈ d.pinsOfBel bel)
      (hb : nl.pinAt? b = none) : Loading d nl (nl.mapPin p b)
  | rename (isVcc : Bool) (name : String) : Loading d nl (nl.renameNet (staticNet isVcc) name)
  | net (name : String) : Loading d nl (nl.addNet name .wire)
  | join {n : NetId} (hn : (nl.net? n).isSome) (p : PinId) : Loading d nl (nl.attach n p)
  | tables (staticNetOf staticRoutes : Table String String) :
      Loading d nl { nl with staticNetOf, staticRoutes }

variable {d : Device} {nl nl' : Netlist}

namespace Loading

theorem cell_stays (h : Loading d nl nl') {c : CellId} (hc : (nl.cell? c).isSome) :
    (nl'.cell? c).isSome := by
  cases h with
  | cell =>
    rw [cell?_modifyCell, isSome_ite_map]
    exact isSome_cell?_addCell nl hc ..
  | place =>
    change ((nl.modifyCell _ _).cell? c).isSome
    rw [cell?_modifyCell, isSome_ite_map]
    exact hc
  | pin =>
    rw [cell?_addPin, isSome_ite_map]
    exact hc
  | map => exact hc
  | rename isVcc name =>
    unfold renameNet
    split
    · exact hc
    · exact hc
  | net => exact hc
  | join =>
    rw [cell?_attach]
    exact hc
  | tables => exact hc

theorem closed (h : Loading d nl nl') (hnl : nl.Closed) : nl'.Closed := by
  cases h with
  | cell => exact (hnl.addCell _ _).modifyCell _ fun _ _ hp => hp
  | place hc => exact hnl.place hc _ _
  | pin hc => exact hnl.addPin hc _ _ _
  | map hp => exact hnl.mapPin (Option.isSome_iff_exists.2 ⟨_, hp⟩) _
  | rename isVcc name => exact hnl.renameNet isVcc name
  | net => exact hnl.addNet _ _
  | join hn => exact hnl.attach hn _
  | tables =>
    exact hnl.rejoin (hnl.toConsistent.congr (fun _ => rfl) (fun _ => rfl) hnl.pin_of_cell)
      ⟨rfl, rfl, rfl, rfl, rfl, fun _ => rfl, fun _ => rfl⟩

end Loading

/-! ## The parts of a description -/

def IsMountable (nl : Netlist) (p : PinId) (bel : BelId) : Prop :=
  (∃ pin, nl.pin? p = some pin ∧ pin.kind = .regular) ∧ nl.pinBel? p = some bel

theorem IsMountable.mapPin {p : PinId} {bel : BelId} (h : nl.IsMountable p bel) (b : BelPinId) :
    (nl.mapPin p b).IsMountable p bel := by
  obtain ⟨⟨pin, hp, hkind⟩, hbel⟩ := h
  refine ⟨⟨{ pin with belPins := pin.belPins ++ [b] }, ?_, hkind⟩, ?_⟩
  · rw [pin?_mapPin, if_pos rfl, hp]
    rfl
  · rw [pinBel?_mapPin]
    exact hbel

theorem isMountable_addPin {c : CellId} {bel : BelId} (hbel : nl.belOf? c = some bel)
    (name : String) (dir : PinDir) :
    (nl.addPin c name dir .regular).IsMountable nl.nextPin bel := by
  have hnew : (nl.addPin c name dir .regular).pin? nl.nextPin =
      some { name, cell := c, dir, kind := .regular } := by rw [pin?_addPin, if_pos rfl]
  refine ⟨⟨_, hnew, rfl⟩, ?_⟩
  rw [pinBel?_eq hnew, belOf?_addPin]
  exact hbel

theorem loads_of_addMapping {cell : CellDescription} {bel : BelId} {p : PinId} {name : String}
    (hp : nl.IsMountable p bel) (h : addMapping d cell bel p nl name = .ok nl') :
    Loading d nl nl' ∧ nl'.IsMountable p bel ∧ ∀ c, nl'.belOf? c = nl.belOf? c := by
  unfold addMapping at h
  split at h
  · cases h
  next b hnamed =>
    split at h
    · cases h
    next hb =>
      cases h
      have hfree : nl.pinAt? b = none := by
        simpa [isUsed, pinAt?] using hb
      obtain ⟨⟨pin, hpin, hkind⟩, hbel⟩ := hp
      have hmem : b ∈ d.pinsOfBel bel := List.mem_of_find?_eq_some hnamed
      exact ⟨.map hpin hkind hbel hmem hfree, IsMountable.mapPin ⟨⟨pin, hpin, hkind⟩, hbel⟩ b,
        fun _ => rfl⟩

theorem loads_of_addDescribedPin {cell : CellDescription} {c : CellId} {bel : Option BelId}
    {pin : PinDescription} (hc : (nl.cell? c).isSome) (hbel : nl.belOf? c = bel)
    (h : addDescribedPin d cell c bel nl pin = .ok nl') :
    ReflTransGen (Loading d) nl nl' ∧ nl'.belOf? c = bel := by
  have hadd : ReflTransGen (Loading d) nl (nl.addPin c pin.name pin.dir .regular) :=
    .single (.pin hc _ _)
  have hbel' : (nl.addPin c pin.name pin.dir .regular).belOf? c = bel := by
    rw [belOf?_addPin]
    exact hbel
  unfold addDescribedPin at h
  split at h
  · cases h
    exact ⟨hadd, hbel'⟩
  · split at h
    · cases h
    next bel =>
      have hkept := Checked.foldlM_keeps
        (fun nl' => ReflTransGen (Loading d) nl nl' ∧ nl'.IsMountable nl.nextPin bel ∧
          nl'.belOf? c = some bel)
        (fun nl₁ name _ nl₂ hkeeps hmap => ?_) ⟨hadd, isMountable_addPin hbel _ _, hbel'⟩ h
      · exact ⟨hkept.1, hkept.2.2⟩
      · obtain ⟨hstep, hpin, hbels⟩ := loads_of_addMapping hkeeps.2.1 hmap
        exact ⟨hkeeps.1.tail hstep, hpin, (hbels c).trans hkeeps.2.2⟩

theorem cell_stays_of_loads (h : ReflTransGen (Loading d) nl nl') {c : CellId}
    (hc : (nl.cell? c).isSome) : (nl'.cell? c).isSome := by
  induction h with
  | refl => exact hc
  | tail _ hstep ih => exact hstep.cell_stays ih

theorem loads_of_pins {cell : CellDescription} {c : CellId} {bel : Option BelId}
    {pins : List PinDescription} (hc : (nl.cell? c).isSome) (hbel : nl.belOf? c = bel)
    (h : pins.foldlM (addDescribedPin d cell c bel) nl = .ok nl') :
    ReflTransGen (Loading d) nl nl' := by
  refine (Checked.foldlM_keeps
    (fun nl' => ReflTransGen (Loading d) nl nl' ∧ nl'.belOf? c = bel)
    (fun nl₁ pin _ nl₂ hkeeps hpin => ?_) ⟨.refl, hbel⟩ h).1
  obtain ⟨hstep, hbel'⟩ :=
    loads_of_addDescribedPin (cell_stays_of_loads hkeeps.1 hc) hkeeps.2 hpin
  exact ⟨hkeeps.1.trans hstep, hbel'⟩

theorem loads_of_addDescribedCell {cell : CellDescription} (hnl : nl.Closed)
    (h : addDescribedCell d nl cell = .ok nl') : ReflTransGen (Loading d) nl nl' := by
  unfold addDescribedCell at h
  split at h
  · cases h
  · dsimp only at h
    let added := (nl.addCell cell.name cell.type).modifyCell nl.nextCell fun old =>
      { old with isPort := cell.isPort, properties := cell.properties }
    have hcell : Loading d nl added := .cell cell.name cell.type cell.isPort cell.properties
    have hcell? : added.cell? nl.nextCell = some
        { name := cell.name, type := cell.type, isPort := cell.isPort,
          properties := cell.properties } := by
      rw [cell?_modifyCell, if_pos rfl, cell?_addCell, if_pos rfl]
      rfl
    have hnew : (added.cell? nl.nextCell).isSome := Option.isSome_iff_exists.2 ⟨_, hcell?⟩
    have hbel : added.belOf? nl.nextCell = none := belOf?_eq hcell?
    split at h
    · exact .head hcell (loads_of_pins hnew hbel h)
    · split at h
      · cases h
      next s b _ =>
        -- no pin can be in a cell that was not there
        have hpins : ∀ p pin, added.pin? p = some pin → pin.cell ≠ nl.nextCell := by
          intro p pin hp heq
          have hlive := hnl.cell_of_pin p pin hp
          rw [heq, cell?_nextCell] at hlive
          cases hlive
        have hplace : Loading d added _ := .place hnew hbel hpins s b
        refine .head hcell (.head hplace (loads_of_pins (hplace.cell_stays hnew) ?_ h))
        rw [belOf?, cell?_place, if_pos rfl, hcell?]
        rfl

theorem net_stays_of_attach {n m : NetId} {p : PinId} (hm : (nl.net? m).isSome) :
    ((nl.attach n p).net? m).isSome := by
  rw [(Rejoins.attach nl n p).isSome_net?]
  exact hm

theorem loads_of_openNet {net : NetDescription} {n : NetId} (hnl : nl.Closed)
    (h : nl.openNet net = .ok (n, nl')) : Loading d nl nl' ∧ (nl'.net? n).isSome := by
  have hconstant : ∀ isVcc, ((nl.renameNet (staticNet isVcc) net.name).net?
      (staticNet isVcc)).isSome := by
    intro isVcc
    rw [net?_renameNet, isSome_ite_map]
    exact hnl.constants isVcc
  unfold openNet at h
  split at h
  · cases h
    exact ⟨.rename true net.name, hconstant true⟩
  · cases h
    exact ⟨.rename false net.name, hconstant false⟩
  · split at h
    · cases h
    · cases h
      exact ⟨.net net.name, isSome_net?_addNet_new nl net.name .wire⟩

theorem loads_of_addDescribedNet {seen seen' : KeySet String} {net : NetDescription}
    (hnl : nl.Closed) (h : addDescribedNet (seen, nl) net = .ok (seen', nl')) :
    ReflTransGen (Loading d) nl nl' := by
  unfold addDescribedNet at h
  dsimp only at h
  split at h
  · cases h
  · obtain ⟨⟨n, opened⟩, hopen, h⟩ := Checked.bind_eq_ok.1 h
    obtain ⟨joined, hjoin, h⟩ := Checked.bind_eq_ok.1 h
    cases Checked.pure_eq_ok.1 h
    obtain ⟨hstep, hn⟩ := loads_of_openNet hnl hopen
    refine (Checked.foldlM_keeps
      (fun nl' => ReflTransGen (Loading d) nl nl' ∧ (nl'.net? n).isSome)
      (fun nl₁ path _ nl₂ hkeeps hsink => ?_) ⟨.single hstep, hn⟩ hjoin).1
    unfold addDescribedSink at hsink
    split at hsink
    · cases hsink
    next p _ =>
      cases hsink
      exact ⟨hkeeps.1.tail (.join hkeeps.2 p), net_stays_of_attach hkeeps.2⟩

/-! ## Whole descriptions -/

theorem closed_of_loads (h : ReflTransGen (Loading d) nl nl') (hnl : nl.Closed) : nl'.Closed := by
  induction h with
  | refl => exact hnl
  | tail _ hstep ih => exact hstep.closed ih

theorem consistent_empty (name : String) (mode : Mode) : (empty name mode).Consistent := by
  have hbare : ({ name, mode : Netlist }).Consistent := by
    constructor <;> simp [netOf?, pin?, net?, cell?]
  exact (hbare.addNet vccName .vcc).addNet gndName .gnd

theorem closed_empty (name : String) (mode : Mode) : (empty name mode).Closed where
  toConsistent := consistent_empty name mode
  constants isVcc := by
    cases isVcc <;> rfl
  named_cell := by simp [cellNamed?, empty, Netlist.addNet]
  placed_cell := by simp [cellAt?, empty, Netlist.addNet]
  cell_of_pin := by simp [pin?, empty, Netlist.addNet]
  mapped_pin := by simp [pinAt?, empty, Netlist.addNet]
  named_net name' n hname := by
    have hconstant : n = staticNet false ∨ n = staticNet true := by
      simp only [netNamed?, empty, Netlist.addNet, Std.ExtTreeMap.getElem?_insert] at hname
      split at hname
      · exact .inl (Option.some.inj hname).symm
      · split at hname
        · exact .inr (Option.some.inj hname).symm
        · simp at hname
    rcases hconstant with rfl | rfl
    · exact ⟨_, rfl, .inr ⟨false, rfl⟩⟩
    · exact ⟨_, rfl, .inr ⟨true, rfl⟩⟩

theorem loads_of_addDescribedCells {cells : List CellDescription} {name : String} {mode : Mode}
    (h : cells.foldlM (addDescribedCell d) (empty name mode) = .ok nl) :
    ReflTransGen (Loading d) (empty name mode) nl :=
  Checked.foldlM_keeps (fun mid => ReflTransGen (Loading d) (empty name mode) mid)
    (fun _ _ _ _ hkeeps hcell => hkeeps.trans
      (loads_of_addDescribedCell (closed_of_loads hkeeps (closed_empty _ _)) hcell)) .refl h

theorem loads_of_ofDescription {desc : NetlistDescription} (h : ofDescription d desc = .ok nl) :
    ReflTransGen (Loading d) (empty desc.name desc.mode) nl := by
  unfold ofDescription at h
  obtain ⟨placed, hplaced, h⟩ := Checked.bind_eq_ok.1 h
  obtain ⟨⟨seen, joined⟩, hjoined, h⟩ := Checked.bind_eq_ok.1 h
  cases Checked.pure_eq_ok.1 h
  have hcells := loads_of_addDescribedCells hplaced
  have hnets : ReflTransGen (Loading d) (empty desc.name desc.mode) joined := by
    refine Checked.foldlM_keeps
      (fun state : KeySet String × Netlist =>
        ReflTransGen (Loading d) (empty desc.name desc.mode) state.2)
      (fun state₁ net _ state₂ hkeeps hnet => ?_) hcells hjoined
    have hclosed : state₁.2.Closed := closed_of_loads hkeeps (closed_empty _ _)
    exact hkeeps.trans (loads_of_addDescribedNet hclosed hnet)
  exact hnets.tail (.tables desc.staticNetOf desc.staticRoutes)

theorem closed_of_ofDescription {desc : NetlistDescription} (h : ofDescription d desc = .ok nl) :
    nl.Closed :=
  closed_of_loads (loads_of_ofDescription h) (closed_empty _ _)

/-! ## Nets before any record -/

def Bare (nl : Netlist) : Prop :=
  ∀ n net, nl.net? n = some net → ∃ name kind pins source, net = { name, kind, pins, source }

theorem Bare.addNet (h : nl.Bare) (name : String) (kind : NetKind) :
    (nl.addNet name kind).Bare := by
  intro n net hn
  rw [net?_addNet] at hn
  split at hn
  · cases hn
    exact ⟨name, kind, _, _, rfl⟩
  · exact h n net hn

theorem Bare.attach (h : nl.Bare) {n : NetId} (hn : (nl.net? n).isSome) (p : PinId) :
    (nl.attach n p).Bare := by
  intro m net' hm
  obtain ⟨net, hnet⟩ := Option.isSome_iff_exists.1 ((Rejoins.attach nl n p).isSome_net? m ▸
    Option.isSome_iff_exists.2 ⟨net', hm⟩)
  obtain ⟨pins, source, routedSinks, rfl⟩ := (Repins.attach hn p).of_old hnet hm
  obtain ⟨name, kind, _, _, rfl⟩ := h m net hnet
  -- Rewiring credits no sinks, and none were credited before.
  have hnone : routedSinks = ∅ := by
    refine Std.ExtTreeSet.ext_mem fun q => ⟨fun hq => ?_, fun hq => by simp at hq⟩
    rcases (Rewires.attach hn p).old_or_new m _ hm with ⟨old, hold, hcarries⟩ | ⟨-, hnew⟩
    · cases hold.symm.trans hnet
      exact hcarries.routedSinks q hq
    · exact (hnew q hq).elim
  subst hnone
  exact ⟨name, kind, pins, source, rfl⟩

theorem Bare.load (h : nl.Bare) (hstep : Loading d nl nl') : nl'.Bare := by
  cases hstep with
  | cell => exact h
  | place => exact h
  | pin => exact h
  | map => exact h
  | rename isVcc name =>
    intro n net' hn'
    obtain ⟨net, hn, rfl⟩ := exists_of_ite_map (net?_renameNet .. ▸ hn')
    obtain ⟨old, kind, pins, source, rfl⟩ := h n net hn
    split
    · exact ⟨name, kind, pins, source, rfl⟩
    · exact ⟨old, kind, pins, source, rfl⟩
  | net name => exact h.addNet name .wire
  | join hlive p => exact h.attach hlive p
  | tables => exact h

theorem bare_of_ofDescription {desc : NetlistDescription} (h : ofDescription d desc = .ok nl) :
    nl.Bare := by
  have hbare : Bare { name := desc.name, mode := desc.mode } := by
    intro n net hn
    simp [net?] at hn
  have hempty : (empty desc.name desc.mode).Bare :=
    (hbare.addNet vccName .vcc).addNet gndName .gnd
  have hloads := loads_of_ofDescription h
  clear h
  induction hloads with
  | refl => exact hempty
  | tail _ hstep ih => exact ih.load hstep

end Fabric.Netlist
