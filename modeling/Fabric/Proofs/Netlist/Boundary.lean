import Fabric.Proofs.Netlist.Closed
import Fabric.Proofs.Netlist.Repinning
import Fabric.Record.Ports
/-!
# Pins at the boundary of a module

What it takes to give a port a partition pin, or to tie it to a constant, and what this does to
the nets: only the pin of the port goes off its net, unless the net is removed altogether.
-/

namespace Fabric.Netlist

open Checked (Yields)

/-- Rewiring that removes no net and, where no fault is allowed, leaves the netlist closed. -/
structure Reworks (F : Prop) (lost : PinId → NetId → Prop) (nl nl' : Netlist) : Prop where
  rewires : Rewires lost nl nl'
  repins : nl.Repins nl'
  closed : F ∨ nl'.Closed
  net_stays : ∀ n, (nl.net? n).isSome → (nl'.net? n).isSome
  pin_stays : ∀ p, (nl.pin? p).isSome → (nl'.pin? p).isSome

variable {F : Prop} {nl nl' nl'' : Netlist} {lost lost' : PinId → NetId → Prop}

namespace Reworks

theorem refl (h : F ∨ nl.Closed) : Reworks F lost nl nl :=
  ⟨.refl nl, .refl nl, h, fun _ hn => hn, fun _ hp => hp⟩

theorem trans (h : Reworks F lost nl nl') (h' : Reworks F lost nl' nl'') :
    Reworks F lost nl nl'' where
  rewires := h.rewires.trans h'.rewires
  repins := h.repins.trans h'.repins
  closed := h'.closed
  net_stays n hn := h'.net_stays n (h.net_stays n hn)
  pin_stays p hp := h'.pin_stays p (h.pin_stays p hp)

theorem of_rejoins (hr : nl.Rejoins nl') (hrewires : Rewires lost nl nl') (hrepins : nl.Repins nl')
    (h : F ∨ nl'.Closed) : Reworks F lost nl nl' where
  rewires := hrewires
  repins := hrepins
  closed := h
  net_stays n hn := (hr.isSome_net? n).trans hn
  pin_stays p hp := (hr.isSome_pin? p).trans hp

theorem addPin (h : F ∨ nl.Closed) {c : CellId} (hc : (nl.cell? c).isSome) (name : String)
    (dir : PinDir) (kind : PinKind) : Reworks F lost nl (nl.addPin c name dir kind) where
  rewires := .addPin c name dir kind
  repins := .of_eq rfl
  closed := h.imp_right fun h => h.addPin hc name dir kind
  net_stays _ hn := hn
  pin_stays _ hp := isSome_pin?_addPin nl hp c name dir kind

theorem addBuffer (h : F ∨ nl.Closed) (name : String) : Reworks F lost nl (nl.addBuffer name) where
  rewires := .addBuffer name
  repins := .of_eq rfl
  closed := h.imp_right fun h => h.addBuffer name
  net_stays _ hn := hn
  pin_stays p hp := by
    rw [pin?_addBuffer]
    split
    · rfl
    · split
      · rfl
      · exact hp

theorem addNet (h : F ∨ nl.Closed) (name : String) (kind : NetKind) :
    Reworks F lost nl (nl.addNet name kind) where
  rewires := .addNet name kind
  repins := .addNet nl name kind
  closed := h.imp_right fun h => h.addNet name kind
  net_stays _ hn := isSome_net?_addNet nl hn name kind
  pin_stays _ hp := hp

theorem attach_of_off (h : F ∨ nl.Closed) {n : NetId} (hn : (nl.net? n).isSome) {p : PinId}
    (hoff : nl.netOf? p = none) : Reworks F lost nl (nl.attach n p) :=
  of_rejoins (.attach nl n p) (.attach_of_off hn hoff) (.attach hn p)
    (h.imp_right fun h => h.attach hn p)

theorem attachSource (h : F ∨ nl.Closed) {n : NetId} (hn : (nl.net? n).isSome) {p : PinId}
    (hp : (nl.pin? p).isSome) (hoff : nl.netOf? p = none) :
    Reworks F lost nl (nl.attachSource n p) :=
  of_rejoins (.attachSource nl n p) (.attachSource hn hp hoff) (.attachSource hn p)
    (h.imp_right fun h => h.attachSource hn hp)

theorem detach (h : F ∨ nl.Closed) (n : NetId) (p : PinId) :
    Reworks F (fun q k => q = p ∧ k = n) nl (nl.detach n p) :=
  of_rejoins (.detach nl n p) (.detach n p) (.detach nl n p) (h.imp_right fun h => h.detach n p)

theorem mono (h : Reworks F lost nl nl') (hlost : ∀ p n, lost p n → lost' p n) :
    Reworks F lost' nl nl' :=
  { h with rewires := h.rewires.mono fun p n hl => .inl (hlost p n hl) }

end Reworks

/-! ## Checked changes -/

section checked

variable {n : NetId} {p : PinId}

theorem yields_connect (lost : PinId → NetId → Prop) (h : F ∨ nl.Closed)
    (hn : F ∨ (nl.net? n).isSome) (hp : (nl.pin? p).isSome) (hoff : nl.netOf? p = none) :
    Yields F (nl.connect n p) fun nl' =>
      Reworks F lost nl nl' ∧ (nl.net? n).isSome ∧ nl' = nl.attach n p := by
  refine .of_eq ?_ fun nl' hok => ?_
  · rcases h with hF | h
    · exact .inl hF
    · exact hn.imp_right fun hn => ⟨_, h.connect_iff.2 ⟨hn, hp, rfl⟩⟩
  · obtain ⟨-, hnets, rfl⟩ := connect_eq_ok.1 hok
    have hlive : (nl.net? n).isSome := by
      rcases hnets with hon | ⟨-, hlive⟩
      · rw [hoff] at hon
        cases hon
      · exact hlive
    exact ⟨.attach_of_off h hlive hoff, hlive, rfl⟩

theorem yields_connectSource (lost : PinId → NetId → Prop) (h : F ∨ nl.Closed)
    (hn : F ∨ (nl.net? n).isSome) (hp : (nl.pin? p).isSome) (hoff : nl.netOf? p = none) :
    Yields F (nl.connectSource n p) fun nl' =>
      Reworks F lost nl nl' ∧ nl' = nl.attachSource n p := by
  refine .of_eq ?_ fun nl' hok => ?_
  · rcases h with hF | h
    · exact .inl hF
    · exact hn.imp_right fun hn => ⟨_, h.connectSource_iff.2 ⟨hn, hp, rfl⟩⟩
  · obtain ⟨joined, hjoined, hlive, rfl⟩ := connectSource_eq_ok.1 hok
    obtain ⟨-, -, rfl⟩ := connect_eq_ok.1 hjoined
    rw [(Rejoins.attach nl n p).isSome_net?] at hlive
    exact ⟨.attachSource h hlive hp hoff, rfl⟩

end checked

/-! ## Partition pins -/

theorem netOf?_of_new {p : PinId} (hp : nl.pin? p = none) : nl.netOf? p = none := by
  rw [netOf?, hp]
  rfl

theorem insertBuffer_pins {name : String} {input output : PinId}
    (h : nl.insertBuffer name = (input, output, nl')) :
    nl' = nl.addBuffer name ∧ input ≠ output ∧ (∀ p ∈ [input, output],
      (nl'.pin? p).isSome ∧ nl'.netOf? p = none ∧ nl.pin? p = none) := by
  unfold insertBuffer at h
  cases h
  have hinput : ((nl.addBuffer name).pin? nl.nextPin).isSome := by
    rw [pin?_addBuffer, if_neg (by simp [Key.ext_iff]), if_pos rfl]
    rfl
  have houtput : ((nl.addBuffer name).pin? ⟨nl.nextPin.index + 1⟩).isSome := by
    rw [pin?_addBuffer, if_pos rfl]
    rfl
  have hbeyond : nl.pin? ⟨nl.nextPin.index + 1⟩ = none := by simp [pin?, nextPin]
  refine ⟨rfl, by simp [Key.ext_iff], ?_⟩
  simp only [List.mem_cons, List.not_mem_nil, or_false, forall_eq_or_imp, forall_eq,
    netOf?_addBuffer]
  exact ⟨⟨hinput, netOf?_of_new (pin?_nextPin nl), pin?_nextPin nl⟩, houtput,
    netOf?_of_new hbeyond, hbeyond⟩

variable {q : PinId}

theorem yields_drive (h : F ∨ nl.Closed) {n : NetId} (hn : F ∨ (nl.net? n).isSome)
    (hq : (nl.pin? q).isSome) (hoff : nl.netOf? q = none) (cellName : String) :
    Yields F (do
      let nl ← nl.connectSource n q
      if (← nl.getNet n).fanOut = 0 then
        let (input, _, nl) := nl.insertBuffer cellName
        nl.connect n input
      else return nl) fun nl' => Reworks F lost nl nl' := by
  refine (yields_connectSource lost h hn hq hoff).bind fun joined hjoined => ?_
  obtain ⟨hjoins, rfl⟩ := hjoined
  have hn' := hn.imp_right (hjoins.net_stays n)
  refine (yields_getNet hn').bind fun net _ => ?_
  split
  · split
    next input output buffered hbuffer =>
      obtain ⟨rfl, -, hpins⟩ := insertBuffer_pins hbuffer
      obtain ⟨hinput, hfree, -⟩ := hpins input (by simp)
      have hbuffered : Reworks F lost _ _ := .addBuffer hjoins.closed cellName
      refine (yields_connect lost hbuffered.closed (hn'.imp_right (hbuffered.net_stays n)) hinput
        hfree).mono fun nl' hnl' => ?_
      exact (hjoins.trans hbuffered).trans hnl'.1
  · exact hjoins

theorem yields_driveFromBoundary (h : F ∨ nl.Closed) {old : Option NetId}
    (hold : ∀ n, old = some n → F ∨ (nl.net? n).isSome) (hq : (nl.pin? q).isSome)
    (hoff : nl.netOf? q = none) (port : String) :
    Yields F (nl.driveFromBoundary port old q) fun nl' => Reworks F lost nl nl' := by
  unfold driveFromBoundary
  cases old with
  | some n => exact yields_drive h (hold n rfl) hq hoff _
  | none =>
    have hadded : Reworks F lost nl (nl.addNet port .wire) := .addNet h port .wire
    exact (yields_drive hadded.closed (.inr (isSome_net?_addNet_new nl port .wire)) hq hoff _).mono
      fun _ hdriven => hadded.trans hdriven

theorem netOf?_attach_of_ne {n : NetId} {p p' : PinId} (h : p' ≠ p) (hp : (nl.pin? p).isSome) :
    (nl.attach n p).netOf? p' = nl.netOf? p' := by
  obtain ⟨pin, hpin⟩ := Option.isSome_iff_exists.1 hp
  rw [netOf?_attach hpin, if_neg h]

theorem yields_isDrivenByBoundary (h : F ∨ nl.Closed) {n : NetId} {net : Net}
    (hn : nl.net? n = some net) : Yields F (nl.isDrivenByBoundary net) fun _ => True := by
  unfold isDrivenByBoundary
  split
  · exact .of_ok trivial
  next p hsource =>
    have hp : F ∨ (nl.pin? p).isSome :=
      h.imp_right fun hc => hc.live_pin hn (hc.source n net p hn hsource)
    refine (yields_getPin hp).bind fun pin hpin => ?_
    split
    · exact .of_ok trivial
    · have hc : F ∨ (nl.cell? pin.cell).isSome := h.imp_right fun hc => hc.cell_of_pin p pin hpin
      exact (yields_getCell hc).bind fun _ _ => .of_ok trivial

theorem yields_leadThrough (h : F ∨ nl.Closed) {n : NetId} (hn : F ∨ (nl.net? n).isSome)
    (hq : (nl.pin? q).isSome) (hoff : nl.netOf? q = none) (cellName netName : String) :
    Yields F (do
      let (input, output, nl) := nl.insertBuffer cellName
      let nl ← nl.connect n input
      let m := nl.nextNet
      let nl := nl.addNet netName .wire
      let nl ← nl.connect m output
      nl.connect m q) fun nl' => Reworks F lost nl nl' := by
  have hold : ∀ p, nl.pin? p = none → q ≠ p := by
    rintro p hp rfl
    rw [hp] at hq
    cases hq
  split
  next input output buffered hbuffer =>
    obtain ⟨rfl, hne, hpins⟩ := insertBuffer_pins hbuffer
    obtain ⟨hinput, hinputOff, hinputNew⟩ := hpins input (by simp)
    obtain ⟨houtput, houtputOff, houtputNew⟩ := hpins output (by simp)
    have hbuffered : Reworks F lost nl (nl.addBuffer cellName) := .addBuffer h cellName
    refine (yields_connect lost hbuffered.closed (hn.imp_right (hbuffered.net_stays n)) hinput
      hinputOff).bind fun fed hfed => ?_
    obtain ⟨hfeeds, -, hfedEq⟩ := hfed
    have hfedOff : ∀ p, p ≠ input → (nl.addBuffer cellName).netOf? p = none →
        fed.netOf? p = none := by
      intro p hp hfree
      rw [hfedEq, netOf?_attach_of_ne hp hinput]
      exact hfree
    have hnet : Reworks F lost fed (fed.addNet netName .wire) := .addNet hfeeds.closed netName .wire
    have hm : F ∨ ((fed.addNet netName .wire).net? fed.nextNet).isSome :=
      .inr (isSome_net?_addNet_new fed netName .wire)
    have houtput' : ((fed.addNet netName .wire).pin? output).isSome :=
      hfeeds.pin_stays output houtput
    refine (yields_connect lost hnet.closed hm houtput' (hfedOff output hne.symm houtputOff)).bind
      fun driven hdriven => ?_
    obtain ⟨hdrives, -, hdrivenEq⟩ := hdriven
    have hall : Reworks F lost nl driven := ((hbuffered.trans hfeeds).trans hnet).trans hdrives
    have hqOff : driven.netOf? q = none := by
      rw [hdrivenEq, netOf?_attach_of_ne (hold output houtputNew) houtput']
      refine hfedOff q (hold input hinputNew) ?_
      rw [netOf?_addBuffer]
      exact hoff
    exact (yields_connect lost hdrives.closed (hm.imp_right (hdrives.net_stays _))
      (hall.pin_stays q hq) hqOff).mono fun nl' hnl' => hall.trans hnl'.1

theorem yields_sinkAtBoundary (h : F ∨ nl.Closed) {old : Option NetId}
    (hold : ∀ n, old = some n → F ∨ (nl.net? n).isSome) (hq : (nl.pin? q).isSome)
    (hoff : nl.netOf? q = none) (multiPortNets : KeySet NetId) (port : String) :
    Yields F (nl.sinkAtBoundary multiPortNets port old q) fun nl' => Reworks F lost nl nl' := by
  have hn : F ∨ (nl.net? (old.getD gnd)).isSome := by
    cases old with
    | none => exact h.imp_right fun h => h.constants false
    | some n => exact hold n rfl
  unfold sinkAtBoundary
  refine (yields_getNet hn).bind fun net hnet => ?_
  refine (yields_isDrivenByBoundary h hnet).bind fun driven _ => ?_
  split
  · exact yields_leadThrough h hn hq hoff _ _
  · exact (yields_connect lost h hn hq hoff).mono fun nl' hnl' => hnl'.1

theorem replaced_addPin {c : CellId} {cell : Cell} {p : PinId} (hcell : nl.cell? c = some cell)
    (hp : p ∈ cell.pins) (name : String) (dir : PinDir) (wire : Option Wire) :
    (nl.addPin c name dir (.partition wire)).Replaced p := by
  refine ⟨c, { cell with partitionPin := some nl.nextPin }, ?_, hp, rfl⟩
  rw [cell?_addPin, if_pos rfl, hcell]
  rfl

theorem new_addPin (nl : Netlist) (c : CellId) (name : String) (dir : PinDir) (kind : PinKind) :
    ((nl.addPin c name dir kind).pin? nl.nextPin).isSome ∧
      (nl.addPin c name dir kind).netOf? nl.nextPin = none := by
  rw [netOf?_addPin]
  exact ⟨isSome_pin?_addPin_new nl c name dir kind, netOf?_of_new (pin?_nextPin nl)⟩

theorem yields_takeOff (h : F ∨ nl.Closed) {p : PinId} {pin : Pin} (hp : nl.pin? p = some pin)
    {old : Option NetId} (hold : old = pin.net) :
    Yields F (old.elim (pure nl) fun n => nl.disconnect n p) fun nl' =>
      Reworks F (fun p' _ => p' = p) nl nl' ∧ ∀ q, nl.netOf? q = none → nl'.netOf? q = none := by
  cases old with
  | none => exact ⟨.refl h, fun _ hq => hq⟩
  | some n =>
    have hon : nl.netOf? p = some n := (netOf?_eq hp).trans hold.symm
    refine (yields_disconnect (h.imp_right fun h => h.live_net hon)
      (.inr (Option.isSome_iff_exists.2 ⟨pin, hp⟩))).mono fun nl' hnl' => ?_
    subst hnl'
    refine ⟨(Reworks.detach h n p).mono fun _ _ hlost => hlost.1, fun q hq => ?_⟩
    rw [netOf?_detach]
    split
    · rfl
    · exact hq

/-- The port gets its partition pin, and no pin but the one that it replaces leaves its net. -/
theorem yields_addPartitionPin (h : F ∨ nl.Closed) {port : CellId} {cell : Cell} {p : PinId}
    (hcell : nl.cell? port = some cell) (hpin : p ∈ cell.pins) (multiPortNets : KeySet NetId)
    (wire : Wire) (isSource : Bool) :
    Yields F (nl.addPartitionPin multiPortNets port p wire isSource) fun (q, nl') =>
      Reworks F (fun p' _ => p' = p) nl nl' ∧ nl'.Replaced p ∧ (nl'.pin? q).isSome := by
  have hlive : F ∨ (nl.cell? port).isSome := .inr (Option.isSome_iff_exists.2 ⟨cell, hcell⟩)
  unfold addPartitionPin
  refine (yields_getCell hlive).bind fun _ _ => ?_
  refine (yields_getPin (h.imp_right fun h => h.pin_of_cell port cell hcell p hpin)).bind
    fun pin hp => ?_
  refine (yields_newPin hlive _ _ _).bind fun added hadded => ?_
  obtain ⟨hport, hadded⟩ := hadded
  have hadds : Reworks F (fun p' _ => p' = p) nl added := by
    rw [hadded]
    exact .addPin h hport _ _ _
  have hq : (added.pin? nl.nextPin).isSome ∧ added.netOf? nl.nextPin = none := by
    rw [hadded]
    exact new_addPin ..
  have hp' : added.pin? p = some pin := by
    rw [hadded]
    exact pin?_addPin_of_some nl hp ..
  have hreplaced : added.Replaced p := by
    rw [hadded]
    exact replaced_addPin hcell hpin _ _ _
  refine (yields_takeOff hadds.closed hp' rfl).bind fun off hoffs => ?_
  obtain ⟨htakes, hstill⟩ := hoffs
  have hold : ∀ n, pin.net = some n → F ∨ (off.net? n).isSome := fun n hn =>
    h.imp_right fun h =>
      htakes.net_stays n (hadds.net_stays n (h.live_net ((netOf?_eq hp).trans hn)))
  have hq' := htakes.pin_stays _ hq.1
  have put : ∀ {x : Except Fault Netlist},
      Yields F x (fun nl' => Reworks F (fun p' _ => p' = p) off nl') →
      Yields F (x >>= fun nl' => Pure.pure (nl.nextPin, nl')) fun (q, nl') =>
        Reworks F (fun p' _ => p' = p) nl nl' ∧ nl'.Replaced p ∧ (nl'.pin? q).isSome :=
    fun hput => hput.bind fun nl' hputs => .of_ok
      ⟨(hadds.trans htakes).trans hputs,
        hputs.rewires.replaced p (htakes.rewires.replaced p hreplaced), hputs.pin_stays _ hq'⟩
  dsimp only
  split
  · exact put (yields_driveFromBoundary htakes.closed hold hq' (hstill _ hq.2) _)
  · exact put (yields_sinkAtBoundary htakes.closed hold hq' (hstill _ hq.2) _ _)

/-! ## Ties to constants -/

/-- Rewiring that puts pins on the net `m` only and may do away with nets of `gone`. -/
structure Merges (F : Prop) (m : NetId) (gone : NetId → Prop) (lost : PinId → NetId → Prop)
    (nl nl' : Netlist) : Prop where
  rewires : Rewires lost nl nl'
  repins : nl.Repins nl'
  closed : F ∨ nl'.Closed
  net_stays : ∀ k, (nl.net? k).isSome → gone k ∨ (nl'.net? k).isSome
  pin_stays : ∀ p, (nl.pin? p).isSome → (nl'.pin? p).isSome
  moves : ∀ p k, nl'.netOf? p = some k → k = m ∨ nl.netOf? p = some k
  cells : ∀ c, (nl'.cell? c).map Cell.pins = (nl.cell? c).map Cell.pins
  names : nl'.cellIndex = nl.cellIndex

namespace Merges

variable {m : NetId} {gone gone' : NetId → Prop}

theorem refl (h : F ∨ nl.Closed) : Merges F m gone lost nl nl :=
  ⟨.refl nl, .refl nl, h, fun _ hk => .inr hk, fun _ hp => hp, fun _ _ hp => .inr hp,
    fun _ => rfl, rfl⟩

theorem trans (h : Merges F m gone lost nl nl') (h' : Merges F m gone lost nl' nl'') :
    Merges F m gone lost nl nl'' where
  rewires := h.rewires.trans h'.rewires
  repins := h.repins.trans h'.repins
  closed := h'.closed
  net_stays k hk := (h.net_stays k hk).elim .inl (h'.net_stays k)
  pin_stays p hp := h'.pin_stays p (h.pin_stays p hp)
  moves p k hk := (h'.moves p k hk).elim .inl (h.moves p k)
  cells c := (h'.cells c).trans (h.cells c)
  names := h'.names.trans h.names

theorem mono (h : Merges F m gone lost nl nl') (hgone : ∀ k, gone k → gone' k)
    (hlost : ∀ p n, lost p n → lost' p n ∨ nl'.net? n = none) : Merges F m gone' lost' nl nl' :=
  { h with
    rewires := h.rewires.mono hlost
    net_stays := fun k hk => (h.net_stays k hk).imp_left (hgone k) }

theorem of_rejoins (hr : nl.Rejoins nl') (hrewires : Rewires lost nl nl') (hrepins : nl.Repins nl')
    (h : F ∨ nl'.Closed) (hmoves : ∀ p k, nl'.netOf? p = some k → k = m ∨ nl.netOf? p = some k) :
    Merges F m gone lost nl nl' where
  rewires := hrewires
  repins := hrepins
  closed := h
  net_stays k hk := .inr ((hr.isSome_net? k).trans hk)
  pin_stays p hp := (hr.isSome_pin? p).trans hp
  moves := hmoves
  cells c := congrArg (Option.map Cell.pins) (hr.cell? c)
  names := hr.cellIndex

theorem attach (h : F ∨ nl.Closed) (hm : (nl.net? m).isSome) (p : PinId) :
    Merges F m gone (fun q k => q = p ∧ k ≠ m ∧ nl.netOf? p = some k) nl (nl.attach m p) := by
  refine of_rejoins (.attach nl m p) (.attach hm p) (.attach hm p)
    (h.imp_right fun h => h.attach hm p) fun q k hk => ?_
  cases hp : nl.pin? p with
  | none =>
    rw [attach_of_no_pin hp] at hk
    exact .inr hk
  | some pin =>
    rw [netOf?_attach hp] at hk
    split at hk
    · exact .inl (Option.some.inj hk).symm
    · exact .inr hk

theorem detach (h : F ∨ nl.Closed) (n : NetId) (p : PinId) :
    Merges F m gone (fun q _ => q = p) nl (nl.detach n p) := by
  refine of_rejoins (.detach nl n p) ((Rewires.detach n p).mono fun _ _ hlost => .inl hlost.1)
    (.detach nl n p) (h.imp_right fun h => h.detach n p) fun q k hk => ?_
  rw [netOf?_detach] at hk
  split at hk
  · cases hk
  · exact .inr hk

theorem removeNet (hc : nl.Consistent) (h : F ∨ nl.Closed) {n : NetId}
    (hn : F ∨ ∀ isVcc, n ≠ staticNet isVcc) :
    Merges F m (fun k => k = n) lost nl (nl.removeNet n) where
  rewires := .removeNet hc n
  repins := .removeNet nl n
  closed := by
    rcases h with hF | h
    · exact .inl hF
    · exact hn.imp_right fun hn => h.removeNet hn
  net_stays k hk := by
    by_cases hkn : k = n
    · exact .inl hkn
    · rw [net?_removeNet, if_neg hkn]
      exact .inr hk
  pin_stays p hp := by
    rw [pin?_removeNet, isSome_ite_map]
    exact hp
  moves p k hk := by
    refine .inr ?_
    cases hn : nl.net? n with
    | none =>
      rw [removeNet_of_no_net hn] at hk
      exact hk
    | some net =>
      rw [netOf?_removeNet nl n hn] at hk
      split at hk
      · cases hk
      · exact hk
  cells c := by rw [cell?_removeNet]
  names := by
    unfold Netlist.removeNet
    split
    · rfl
    · rw [foldl_setPinNet_eq]

theorem addPartition (h : F ∨ nl.Closed) {c : CellId} (hc : (nl.cell? c).isSome) (name : String)
    (dir : PinDir) (wire : Option Wire) :
    Merges F m gone lost nl (nl.addPin c name dir (.partition wire)) where
  rewires := .addPin c name dir (.partition wire)
  repins := .of_eq rfl
  closed := h.imp_right fun h => h.addPin hc name dir (.partition wire)
  net_stays _ hk := .inr hk
  pin_stays _ hp := isSome_pin?_addPin nl hp c name dir (.partition wire)
  moves p k hk := by
    rw [netOf?_addPin] at hk
    exact .inr hk
  cells e := by
    rw [cell?_addPin]
    split
    · cases nl.cell? e <;> rfl
    · rfl
  names := rfl

end Merges

/-- All pins of a net go over to another one, and the net is no longer there. -/
theorem yields_dissolve (lost : PinId → NetId → Prop) (hc : nl.Consistent) (h : F ∨ nl.Closed)
    {n m : NetId} (hn : F ∨ (nl.net? n).isSome) (hm : F ∨ (nl.net? m).isSome) (hne : n ≠ m)
    (hstatic : F ∨ ∀ isVcc, n ≠ staticNet isVcc) :
    Yields F (nl.dissolve n m) fun nl' => Merges F m (fun k => k = n) lost nl nl' := by
  unfold dissolve
  refine (yields_getNet hn).bind fun net hnet => ?_
  have hmoves : Yields F (net.pins.foldlM (fun nl p => nl.connect m p) nl) fun mid =>
      Merges F m (fun k => k = n) (fun _ k => k = n) nl mid := by
    refine .foldlM (fun mid p hp hmid => ?_) (.refl h)
    have hon : nl.netOf? p = some n := (hc.mem_pins hnet p).1 hp
    have hcons := hmid.rewires.consistent hc
    refine .of_eq ?_ fun nl' hok => ?_
    · rcases h with hF | h
      · exact .inl hF
      refine hm.imp_right fun hm => ?_
      have hm' : (mid.net? m).isSome := (hmid.net_stays m hm).resolve_left (Ne.symm hne)
      exact ⟨_, hcons.connect_iff.2 ⟨hm', hmid.pin_stays p (h.live_pin hnet hp), rfl⟩⟩
    · obtain ⟨hm', -, rfl⟩ := hcons.connect_iff.1 hok
      refine hmid.trans ((Merges.attach hmid.closed hm' p).mono (fun _ hk => hk) ?_)
      rintro q k ⟨rfl, hkm, hk⟩
      rcases hmid.moves q k hk with hkm' | hold
      · exact (hkm hkm').elim
      · rw [hon] at hold
        exact .inl (Option.some.inj hold).symm
  refine hmoves.bind fun mid hmid => ?_
  have hremoves : Merges F m (fun k => k = n) (fun _ k => k = n) mid (mid.removeNet n) :=
    .removeNet (hmid.rewires.consistent hc) hmid.closed hstatic
  refine .of_ok ((hmid.trans hremoves).mono (fun _ hk => hk) ?_)
  rintro p k rfl
  rw [net?_removeNet, if_pos rfl]
  exact .inr rfl

theorem Merges.exists_cell {m : NetId} {gone : NetId → Prop} (h : Merges F m gone lost nl nl')
    {c : CellId} {cell : Cell} (hcell : nl.cell? c = some cell) :
    ∃ cell', nl'.cell? c = some cell' ∧ cell'.pins = cell.pins := by
  have hpins := h.cells c
  rw [hcell] at hpins
  exact Option.map_eq_some_iff.1 hpins

variable {isVcc : Bool} {port : CellId} {cell : Cell} {p : PinId}

theorem yields_addTie {gone : NetId → Prop} (h : Merges F (staticNet isVcc) gone lost nl nl')
    (hcell : nl.cell? port = some cell) (hpin : p ∈ cell.pins) (name : String) :
    Yields F (do
      let tied ← nl'.newPin port name .input (.partition none)
      tied.connect (staticNet isVcc) nl'.nextPin) fun nl'' =>
        Merges F (staticNet isVcc) gone lost nl nl'' ∧ nl''.Replaced p := by
  obtain ⟨cell', hcell', hpins⟩ := h.exists_cell hcell
  rw [← hpins] at hpin
  have hport : (nl'.cell? port).isSome := Option.isSome_iff_exists.2 ⟨cell', hcell'⟩
  refine (yields_newPin (.inr hport) _ _ _).bind fun added hadded => ?_
  obtain ⟨-, hadded⟩ := hadded
  have hadds : Merges F (staticNet isVcc) gone lost nl' added := by
    rw [hadded]
    exact .addPartition h.closed hport _ _ _
  have hq : (added.pin? nl'.nextPin).isSome ∧ added.netOf? nl'.nextPin = none := by
    rw [hadded]
    exact new_addPin ..
  have hreplaced : added.Replaced p := by
    rw [hadded]
    exact replaced_addPin hcell' hpin _ _ _
  have hstatic : F ∨ (added.net? (staticNet isVcc)).isSome :=
    hadds.closed.imp_right fun h => h.constants isVcc
  refine (yields_connect lost hadds.closed hstatic hq.1 hq.2).mono fun nl'' hjoined => ?_
  obtain ⟨-, hlive, rfl⟩ := hjoined
  have hties : Merges F (staticNet isVcc) gone lost added
      (added.attach (staticNet isVcc) nl'.nextPin) := by
    refine (Merges.attach hadds.closed hlive _).mono (fun _ hk => hk) ?_
    rintro q k ⟨rfl, -, hon⟩
    rw [hq.2] at hon
    cases hon
  exact ⟨(h.trans hadds).trans hties, hties.rewires.replaced p hreplaced⟩

/-- The pin of the port goes off its net, and this net becomes part of the constant. -/
theorem yields_tiePort (hc : nl.Consistent) (h : F ∨ nl.Closed) (hcell : nl.cell? port = some cell)
    (hpin : p ∈ cell.pins) (hother : F ∨ nl.netOf? p ≠ some (staticNet !isVcc)) :
    Yields F (nl.tiePort (staticNet isVcc) port p) fun nl' =>
      Merges F (staticNet isVcc) (fun k => k ≠ staticNet isVcc ∧ nl.netOf? p = some k)
        (fun p' _ => p' = p) nl nl' ∧ nl'.Replaced p := by
  unfold tiePort
  refine (yields_getPin (h.imp_right fun h => h.pin_of_cell port cell hcell p hpin)).bind
    fun pin hp => ?_
  have hon : nl.netOf? p = pin.net := netOf?_eq hp
  dsimp only
  split
  next => exact yields_addTie (.refl h) hcell hpin pin.name
  next n hnet =>
    rw [hnet] at hon
    have hn : F ∨ (nl.net? n).isSome := h.imp_right fun h => h.live_net hon
    refine (yields_disconnect hn (.inr (Option.isSome_iff_exists.2 ⟨pin, hp⟩))).bind
      fun off hoff => ?_
    have htakes : Merges F (staticNet isVcc) (fun k => k ≠ staticNet isVcc ∧ nl.netOf? p = some k)
        (fun p' _ => p' = p) nl off := by
      rw [hoff]
      exact .detach h n p
    split
    next => exact yields_addTie htakes hcell hpin pin.name
    next hne =>
      have hstatic : F ∨ ∀ isVcc', n ≠ staticNet isVcc' := by
        refine hother.imp_right fun hother isVcc' hn => ?_
        rw [hon, hn] at hother
        cases isVcc <;> cases isVcc' <;> first | exact hne hn | exact hother rfl
      have hn' : F ∨ (off.net? n).isSome := by
        rw [hoff, (Rejoins.detach nl n p).isSome_net?]
        exact hn
      refine (yields_dissolve (fun p' _ => p' = p) (htakes.rewires.consistent hc) htakes.closed hn'
        (htakes.closed.imp_right fun h => h.constants isVcc) hne hstatic).bind fun mid hmid => ?_
      exact yields_addTie
        (htakes.trans (hmid.mono (by rintro k rfl; exact ⟨hne, hon⟩) fun _ _ hlost => .inl hlost))
        hcell hpin pin.name

end Fabric.Netlist
