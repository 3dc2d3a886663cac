import Mathlib.Logic.Relation
import Fabric.Proofs.Netlist.Views
import Fabric.Record.Ports
/-!
# What changes of a netlist do to its placement

Where cells are placed, which pins they have, which BEL pins these are mapped to and which site
PIPs are chosen: few of the changes touch this. Each of them that touches cells or pins is one case
of `Mounts`, and all others are `still`.
-/

namespace Fabric

open Relation (ReflTransGen)

def Pin.offNet (pin : Pin) : Pin := { pin with net := none }

def Cell.fitting (cell : Cell) : Option BelId × List PinId × Nat :=
  (cell.bel, cell.pins, cell.pseudoPinCount)

namespace Netlist

def IsPseudoName (i : Nat) (name : String) : Prop :=
  name = "VCC_pseudo" ++ toString i ∨ name = "GND_pseudo" ++ toString i

def belOf? (nl : Netlist) (c : CellId) : Option BelId := (nl.cell? c).bind Cell.bel

def pinBel? (nl : Netlist) (p : PinId) : Option BelId :=
  (nl.pin? p).bind fun pin => nl.belOf? pin.cell

def sitePips (nl : Netlist) : Table SiteId (KeySet WireName) × Table SiteId (Table String String) :=
  (nl.usedSitePips, nl.sitePipValues)

variable {d : Device} {C : Prop} {nl nl' nl'' : Netlist}

theorem belOf?_eq {c : CellId} {cell : Cell} (hc : nl.cell? c = some cell) :
    nl.belOf? c = cell.bel := by
  rw [belOf?, hc, Option.bind_some]

theorem pinBel?_eq {p : PinId} {pin : Pin} (hp : nl.pin? p = some pin) :
    nl.pinBel? p = nl.belOf? pin.cell := by
  rw [pinBel?, hp, Option.bind_some]

section

variable (nl)

theorem pin?_mapPin (p : PinId) (b : BelPinId) (q : PinId) :
    (nl.mapPin p b).pin? q =
      if q = p then (nl.pin? q).map fun pin => { pin with belPins := pin.belPins ++ [b] }
      else nl.pin? q :=
  pin?_modifyPin ..

@[simp] theorem belOf?_addPin (c : CellId) (name : String) (dir : PinDir) (kind : PinKind)
    (e : CellId) : (nl.addPin c name dir kind).belOf? e = nl.belOf? e := by
  unfold belOf?
  rw [cell?_addPin]
  split
  · cases nl.cell? e with
    | none => rfl
    | some cell => cases kind <;> rfl
  · rfl

@[simp] theorem pinBel?_mapPin (p : PinId) (b : BelPinId) (q : PinId) :
    (nl.mapPin p b).pinBel? q = nl.pinBel? q := by
  unfold pinBel?
  rw [pin?_mapPin]
  split
  · cases nl.pin? q <;> rfl
  · rfl

theorem cell?_place (c : CellId) (s : SiteId) (b : BelId) (e : CellId) :
    (nl.place c s b).cell? e =
      if e = c then (nl.cell? e).map fun cell => { cell with bel := some b, site := some s }
      else nl.cell? e :=
  cell?_modifyCell ..

theorem cellAt?_place (c : CellId) (s : SiteId) (b b' : BelId) :
    (nl.place c s b).cellAt? b' = if b' = b then some c else nl.cellAt? b' := by
  simp only [place, cellAt?, modifyCell, Std.ExtTreeMap.getElem?_insert,
    Std.LawfulEqCmp.compare_eq_iff_eq, @eq_comm _ b' b]

end

/-! ## Changes that leave the placement alone -/

structure Still (C : Prop) (nl nl' : Netlist) : Prop where
  size : nl'.pins.size = nl.pins.size
  pins : ∀ p, (nl'.pin? p).map Pin.offNet = (nl.pin? p).map Pin.offNet
  cells : ∀ c, (nl'.cell? c).map Cell.fitting = (nl.cell? c).map Cell.fitting
  cellOfBel : nl'.cellOfBel = nl.cellOfBel
  pinOfBelPin : nl'.pinOfBelPin = nl.pinOfBelPin
  sitePips : C ∨ nl'.sitePips = nl.sitePips

namespace Still

theorem refl (nl : Netlist) : Still C nl nl :=
  ⟨rfl, fun _ => rfl, fun _ => rfl, rfl, rfl, .inr rfl⟩

theorem trans (h : Still C nl nl') (h' : Still C nl' nl'') : Still C nl nl'' where
  size := h'.size.trans h.size
  pins p := (h'.pins p).trans (h.pins p)
  cells c := (h'.cells c).trans (h.cells c)
  cellOfBel := h'.cellOfBel.trans h.cellOfBel
  pinOfBelPin := h'.pinOfBelPin.trans h.pinOfBelPin
  sitePips := h'.sitePips.elim .inl fun heq' => h.sitePips.imp_right fun heq => heq'.trans heq

theorem of_eq (hpins : nl'.pins = nl.pins) (hcells : nl'.cells = nl.cells)
    (hbels : nl'.cellOfBel = nl.cellOfBel) (hbelPins : nl'.pinOfBelPin = nl.pinOfBelPin)
    (hsitePips : C ∨ nl'.sitePips = nl.sitePips) : Still C nl nl' where
  size := congrArg Array.size hpins
  pins p := by
    unfold pin?
    rw [hpins]
  cells c := by
    unfold cell?
    rw [hcells]
  cellOfBel := hbels
  pinOfBelPin := hbelPins
  sitePips := hsitePips

theorem modifyNet (nl : Netlist) (n : NetId) (f : Net → Net) : Still C nl (nl.modifyNet n f) :=
  of_eq rfl rfl rfl rfl (.inr rfl)

theorem setPinNet (nl : Netlist) (p : PinId) (n : Option NetId) :
    Still C nl (nl.setPinNet p n) where
  size := Array.size_modify
  pins q := by
    rw [pin?_setPinNet]
    split
    · rw [Option.map_map]
      rfl
    · rfl
  cells _ := rfl
  cellOfBel := rfl
  pinOfBelPin := rfl
  sitePips := .inr rfl

theorem detach (nl : Netlist) (n : NetId) (p : PinId) : Still C nl (nl.detach n p) := by
  unfold Netlist.detach
  split
  · exact (setPinNet nl p none).trans (modifyNet _ n _)
  · exact modifyNet nl n _

theorem attach (nl : Netlist) (n : NetId) (p : PinId) : Still C nl (nl.attach n p) := by
  unfold Netlist.attach
  split
  · exact refl nl
  next pin _ =>
    split
    · exact refl nl
    · refine trans ?_ ((setPinNet _ p (some n)).trans (modifyNet _ n _))
      cases pin.net with
      | none => exact refl nl
      | some m => exact detach nl m p

theorem attachSource (nl : Netlist) (n : NetId) (p : PinId) : Still C nl (nl.attachSource n p) :=
  (attach nl n p).trans (modifyNet _ n _)

theorem foldl_setPinNet (ps : List PinId) (nl : Netlist) :
    Still C nl (ps.foldl (fun nl p => nl.setPinNet p none) nl) := by
  induction ps generalizing nl with
  | nil => exact refl nl
  | cons p ps ih => exact (setPinNet nl p none).trans (ih _)

theorem removeNet (nl : Netlist) (n : NetId) : Still C nl (nl.removeNet n) := by
  unfold Netlist.removeNet
  split
  · exact refl nl
  next net _ => exact (foldl_setPinNet net.pins nl).trans (of_eq rfl rfl rfl rfl (.inr rfl))

theorem renameNet (nl : Netlist) (n : NetId) (name : String) :
    Still C nl (nl.renameNet n name) := by
  unfold Netlist.renameNet
  split
  · exact refl nl
  · exact of_eq rfl rfl rfl rfl (.inr rfl)

theorem modifyCell (nl : Netlist) (c : CellId) {f : Cell → Cell}
    (hf : ∀ cell, (f cell).fitting = cell.fitting) : Still C nl (nl.modifyCell c f) where
  size := rfl
  pins _ := rfl
  cells e := by
    rw [cell?_modifyCell]
    split
    · rw [Option.map_map, show Cell.fitting ∘ f = Cell.fitting from funext hf]
    · rfl
  cellOfBel := rfl
  pinOfBelPin := rfl
  sitePips := .inr rfl

theorem mapPin (h : Still C nl nl') (p : PinId) (b : BelPinId) :
    Still C (nl.mapPin p b) (nl'.mapPin p b) where
  size := by
    unfold Netlist.mapPin Netlist.modifyPin
    simpa using h.size
  pins q := by
    have hq := h.pins q
    rw [pin?_mapPin, pin?_mapPin]
    split
    · have hmap := congrArg (Option.map fun pin => { pin with belPins := pin.belPins ++ [b] }) hq
      rw [Option.map_map, Option.map_map] at hmap ⊢
      exact hmap
    · exact hq
  cells := h.cells
  cellOfBel := h.cellOfBel
  pinOfBelPin := congrArg (fun pins => pins.insert b p) h.pinOfBelPin
  sitePips := h.sitePips

/-! ## What stays -/

theorem exists_pin (h : Still C nl nl') {p : PinId} {pin' : Pin} (hp : nl'.pin? p = some pin') :
    ∃ pin, nl.pin? p = some pin ∧ pin.offNet = pin'.offNet := by
  have hmap := h.pins p
  rw [hp, Option.map_some, eq_comm] at hmap
  exact Option.map_eq_some_iff.1 hmap

theorem cellAt? (h : Still C nl nl') (b : BelId) : nl'.cellAt? b = nl.cellAt? b := by
  unfold Netlist.cellAt?
  rw [h.cellOfBel]

theorem isSome_cell? (h : Still C nl nl') (c : CellId) :
    (nl'.cell? c).isSome = (nl.cell? c).isSome := by
  have hmap := congrArg Option.isSome (h.cells c)
  simpa only [Option.isSome_map] using hmap

theorem belOf? (h : Still C nl nl') (c : CellId) : nl'.belOf? c = nl.belOf? c := by
  have hmap := congrArg (fun o => o.bind Prod.fst) (h.cells c)
  simp only [Option.bind_map] at hmap
  exact hmap

end Still

/-! ## Changes of the placement -/

inductive Mounts (d : Device) (C : Prop) (nl : Netlist) : Netlist → Prop
  | still {nl' : Netlist} (h : Still C nl nl') : Mounts d C nl nl'
  | cell (name type : String) : Mounts d C nl (nl.addCell name type)
  /-- A cell is placed before it has any pins. -/
  | place {c : CellId} (hlive : (nl.cell? c).isSome) (hbel : nl.belOf? c = none)
      (hpins : ∀ p pin, nl.pin? p = some pin → pin.cell ≠ c) (s : SiteId) (b : BelId) :
      Mounts d C nl (nl.place c s b)
  | pin {c : CellId} (hlive : (nl.cell? c).isSome) (name : String) (dir : PinDir) {kind : PinKind}
      (hkind : kind ≠ .pseudo) : Mounts d C nl (nl.addPin c name dir kind)
  | map {p : PinId} {b : BelPinId} {bel : BelId} (hp : nl.pinBel? p = some bel)
      (hb : b ∈ d.pinsOfBel bel) (hkind : ∀ pin, nl.pin? p = some pin → pin.kind ≠ .pseudo)
      (hfree : nl.pinAt? b = none) : Mounts d C nl (nl.mapPin p b)
  | tie {c : CellId} {cell : Cell} {b : BelPinId} {name : String}
      (hc : nl.cellAt? (d.belPinBel b) = some c) (hcell : nl.cell? c = some cell)
      (hb : b ∈ d.pinsOfBel (d.belPinBel b)) (hfree : nl.pinAt? b = none)
      (hname : IsPseudoName cell.pseudoPinCount name) :
      Mounts d C nl ((nl.addPseudoPin c name (d.belPinDir b)).mapPin nl.nextPin b)

/-! ## Pins at the boundary of a module -/

theorem Still.mounts (h : Still C nl nl') : ReflTransGen (Mounts d C) nl nl' := .single (.still h)

theorem mounts_addBuffer (nl : Netlist) (name : String) :
    ReflTransGen (Mounts d C) nl (nl.addBuffer name) := by
  let bare := nl.addCell name "LUT1"
  let fed := bare.addPin nl.nextCell "I0" .input .regular
  let driving := fed.addPin nl.nextCell "O" .output .regular
  have hbare : (bare.cell? nl.nextCell).isSome := isSome_cell?_addCell_new nl name "LUT1"
  have hfed : (fed.cell? nl.nextCell).isSome := by
    rw [cell?_addPin, isSome_ite_map]
    exact hbare
  have hinput : Mounts d C bare fed := .pin hbare "I0" .input nofun
  have houtput : Mounts d C fed driving := .pin hfed "O" .output nofun
  have hinit : Still C driving (nl.addBuffer name) := .modifyCell driving nl.nextCell fun _ => rfl
  exact (((ReflTransGen.single (.cell name "LUT1")).tail hinput).tail houtput).tail (.still hinit)

variable {n : NetId} {p q : PinId}

theorem still_of_connect (h : nl.connect n p = .ok nl') : Still C nl nl' := by
  obtain ⟨-, -, rfl⟩ := connect_eq_ok.1 h
  exact .attach nl n p

theorem still_of_connectSource (h : nl.connectSource n p = .ok nl') : Still C nl nl' := by
  obtain ⟨-, -, -, rfl⟩ := connectSource_eq_ok.1 h
  exact .attachSource nl n p

theorem mounts_of_newPin {c : CellId} {name : String} {dir : PinDir} {kind : PinKind}
    (h : nl.newPin c name dir kind = .ok nl') (hkind : kind ≠ .pseudo) : Mounts d C nl nl' := by
  obtain ⟨hc, rfl⟩ := newPin_eq_ok.1 h
  exact .pin hc name dir hkind

theorem mounts_of_driveFromBoundary {port : String} {old : Option NetId}
    (h : nl.driveFromBoundary port old q = .ok nl') : ReflTransGen (Mounts d C) nl nl' := by
  -- the net of the port, or one that is made for it
  have drive : ∀ {mid : Netlist} {n : NetId}, (do
      let nl ← mid.connectSource n q
      if (← nl.getNet n).fanOut = 0 then
        let buffer := nl.insertBuffer ("IN_BUF_Inserted_" ++ port)
        buffer.2.2.connect n buffer.1
      else return nl) = .ok nl' → ReflTransGen (Mounts d C) mid nl' := by
    intro mid n h
    obtain ⟨joined, hjoined, h⟩ := Checked.bind_eq_ok.1 h
    have hjoins : ReflTransGen (Mounts d C) mid joined := (still_of_connectSource hjoined).mounts
    obtain ⟨net, -, h⟩ := Checked.bind_eq_ok.1 h
    split at h
    · exact (hjoins.trans (mounts_addBuffer joined _)).trans (still_of_connect h).mounts
    · cases h
      exact hjoins
  unfold driveFromBoundary at h
  cases old with
  | some n => exact drive h
  | none =>
    have hnet : Still C nl (nl.addNet port .wire) := .of_eq rfl rfl rfl rfl (.inr rfl)
    exact hnet.mounts.trans (drive h)

theorem mounts_of_sinkAtBoundary {multiPortNets : KeySet NetId} {port : String}
    {old : Option NetId} (h : nl.sinkAtBoundary multiPortNets port old q = .ok nl') :
    ReflTransGen (Mounts d C) nl nl' := by
  unfold sinkAtBoundary at h
  obtain ⟨net, -, h⟩ := Checked.bind_eq_ok.1 h
  obtain ⟨driven, -, h⟩ := Checked.bind_eq_ok.1 h
  split at h
  · obtain ⟨fed, hfed, h⟩ := Checked.bind_eq_ok.1 h
    obtain ⟨led, hled, h⟩ := Checked.bind_eq_ok.1 h
    have hnet : Still C fed (fed.addNet (net.name ++ "_InsertedNet_" ++ port) .wire) :=
      .of_eq rfl rfl rfl rfl (.inr rfl)
    exact (mounts_addBuffer nl _).tail (.still (((still_of_connect hfed).trans hnet).trans
      ((still_of_connect hled).trans (still_of_connect h))))
  · exact (still_of_connect h).mounts

theorem mounts_of_addPartitionPin {multiPortNets : KeySet NetId} {port : CellId} {wire : Wire}
    {isSource : Bool} (h : nl.addPartitionPin multiPortNets port p wire isSource = .ok (q, nl')) :
    ReflTransGen (Mounts d C) nl nl' := by
  unfold addPartitionPin at h
  obtain ⟨cell, -, h⟩ := Checked.bind_eq_ok.1 h
  obtain ⟨pin, -, h⟩ := Checked.bind_eq_ok.1 h
  obtain ⟨added, hadded, h⟩ := Checked.bind_eq_ok.1 h
  obtain ⟨off, hoff, h⟩ := Checked.bind_eq_ok.1 h
  have htaken : Still C added off := by
    cases hnet : pin.net with
    | none =>
      rw [hnet] at hoff
      cases hoff
      exact .refl added
    | some n =>
      rw [hnet] at hoff
      obtain ⟨-, -, rfl⟩ := disconnect_eq_ok.1 hoff
      exact .detach added n p
  have hready : ReflTransGen (Mounts d C) nl off :=
    .tail (.single (mounts_of_newPin hadded nofun)) (.still htaken)
  dsimp only at h
  split at h
  · obtain ⟨put, hput, heq⟩ := Checked.bind_eq_ok.1 h
    cases Checked.pure_eq_ok.1 heq
    exact hready.trans (mounts_of_driveFromBoundary hput)
  · obtain ⟨put, hput, heq⟩ := Checked.bind_eq_ok.1 h
    cases Checked.pure_eq_ok.1 heq
    exact hready.trans (mounts_of_sinkAtBoundary hput)

theorem still_of_dissolve {m : NetId} (h : nl.dissolve n m = .ok nl') : Still C nl nl' := by
  unfold dissolve at h
  obtain ⟨net, -, h⟩ := Checked.bind_eq_ok.1 h
  obtain ⟨moved, hmoved, h⟩ := Checked.bind_eq_ok.1 h
  cases Checked.pure_eq_ok.1 h
  have hmoves : Still C nl moved := Checked.foldlM_keeps (fun mid => Still C nl mid)
    (fun _ _ _ _ hkeeps hstep => hkeeps.trans (still_of_connect hstep)) (.refl nl) hmoved
  exact hmoves.trans (.removeNet moved n)

theorem mounts_of_tiePort {static : NetId} {port : CellId}
    (h : nl.tiePort static port p = .ok nl') : ReflTransGen (Mounts d C) nl nl' := by
  unfold tiePort at h
  obtain ⟨pin, -, h⟩ := Checked.bind_eq_ok.1 h
  have tie : ∀ {off : Netlist}, Still C nl off →
      (do
        let nl ← off.newPin port pin.name .input (.partition none)
        nl.connect static off.nextPin) = .ok nl' → ReflTransGen (Mounts d C) nl nl' := by
    intro off htaken h
    obtain ⟨added, hadded, h⟩ := Checked.bind_eq_ok.1 h
    exact .tail (.tail htaken.mounts (mounts_of_newPin hadded nofun)) (.still (still_of_connect h))
  dsimp only at h
  split at h
  · exact tie (.refl nl) h
  next n _ =>
    obtain ⟨freed, hfreed, h⟩ := Checked.bind_eq_ok.1 h
    obtain ⟨-, -, rfl⟩ := disconnect_eq_ok.1 hfreed
    have hfreed : Still C nl (nl.detach n p) := .detach nl n p
    split at h
    · exact tie hfreed h
    · obtain ⟨merged, hmerged, h⟩ := Checked.bind_eq_ok.1 h
      exact tie (hfreed.trans (still_of_dissolve hmerged)) h

end Netlist

end Fabric
