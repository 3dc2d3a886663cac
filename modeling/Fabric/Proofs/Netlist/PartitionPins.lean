import Fabric.Proofs.Netlist.Loading
import Fabric.Proofs.Netlist.Ties
/-!
# Partition pins

A port has its name noted when it gets a partition pin. A partition pin without a wire ties the port
to a constant. It is an input, it comes onto the net of a constant and no other, and no BEL pin is
mapped to it.
-/

namespace Fabric.Netlist

variable {nl nl' nl'' : Netlist} {n : NetId} {p q : PinId}

def kindOf? (nl : Netlist) (p : PinId) : Option PinKind := (nl.pin? p).map Pin.kind

def IsTie (nl : Netlist) (p : PinId) : Prop := nl.kindOf? p = some (.partition none)

def IsPlain (nl : Netlist) (p : PinId) : Prop :=
  ∃ kind, nl.kindOf? p = some kind ∧ kind ≠ .partition none

def IsConstant (n : NetId) : Prop := ∃ isVcc, n = staticNet isVcc

theorem kindOf?_eq {pin : Pin} (hp : nl.pin? p = some pin) : nl.kindOf? p = some pin.kind := by
  rw [kindOf?, hp, Option.map_some]

theorem isTie_iff {pin : Pin} (hp : nl.pin? p = some pin) :
    nl.IsTie p ↔ pin.kind = .partition none := by
  rw [IsTie, kindOf?_eq hp, Option.some.injEq]

theorem IsPlain.not_isTie (h : nl.IsPlain p) : ¬ nl.IsTie p := by
  obtain ⟨kind, hp, hkind⟩ := h
  intro htie
  exact hkind (Option.some.inj (hp.symm.trans htie))

theorem isPlain_of_not_isTie {pin : Pin} (hp : nl.pin? p = some pin) (h : ¬ nl.IsTie p) :
    nl.IsPlain p :=
  ⟨pin.kind, kindOf?_eq hp, fun hkind => h ((isTie_iff hp).2 hkind)⟩

theorem Moves.kindOf? (h : nl.Moves nl') (p : PinId) : nl'.kindOf? p = nl.kindOf? p := by
  have hmap := congrArg (Option.map Pin.kind) (h.pins p)
  rw [Option.map_map, Option.map_map] at hmap
  exact hmap

theorem Moves.isTie_iff (h : nl.Moves nl') : nl'.IsTie p ↔ nl.IsTie p := by
  rw [IsTie, IsTie, h.kindOf?]

theorem Moves.isPlain_iff (h : nl.Moves nl') : nl'.IsPlain p ↔ nl.IsPlain p := by
  rw [IsPlain, IsPlain, h.kindOf?]

/-! ## Changes that ties take part in -/

def Feeds (nl : Netlist) (_ : NetId) (net net' : Net) : Prop :=
  net'.kind = net.kind ∧ ∀ p, net'.source = some p → net.source = some p ∨ nl.IsPlain p

structure Shifts (nl nl' : Netlist) : Prop extends nl.Moves nl' where
  nodes : nl'.portNodes = nl.portNodes
  mapping : nl'.pinOfBelPin = nl.pinOfBelPin
  ties : ∀ p n, nl.IsTie p → nl'.netOf? p = some n → nl.netOf? p = some n ∨ IsConstant n
  evolves : Evolves nl.Feeds nl nl'

theorem Feeds.refl (n : NetId) (net : Net) : nl.Feeds n net net := ⟨rfl, fun _ => .inl⟩

theorem Feeds.trans {net net' net'' : Net} (h : nl.Feeds n net net') (h' : nl.Feeds n net' net'') :
    nl.Feeds n net net'' := by
  refine ⟨h'.1.trans h.1, fun p hp => ?_⟩
  rcases h'.2 p hp with hp | hplain
  · exact h.2 p hp
  · exact .inr hplain

namespace Shifts

theorem refl (nl : Netlist) : nl.Shifts nl where
  toMoves := .refl nl
  nodes := rfl
  mapping := rfl
  ties _ _ _ hn := .inl hn
  evolves := .refl Feeds.refl nl

theorem trans (h : nl.Shifts nl') (h' : nl'.Shifts nl'') : nl.Shifts nl'' where
  toMoves := h.toMoves.trans h'.toMoves
  nodes := h'.nodes.trans h.nodes
  mapping := h'.mapping.trans h.mapping
  ties p n hp hn := by
    rcases h'.ties p n (h.isTie_iff.2 hp) hn with hn | hconstant
    · exact h.ties p n hp hn
    · exact .inr hconstant
  evolves := by
    have hfeeds : nl'.Feeds = nl.Feeds := by
      funext n net net'
      simp only [Feeds, h.isPlain_iff]
    exact .trans (fun _ _ _ _ => Feeds.trans) h.evolves (hfeeds ▸ h'.evolves)

theorem of_eq (hcells : nl'.cells = nl.cells) (hindex : nl'.cellIndex = nl.cellIndex)
    (hpins : nl'.pins = nl.pins) (hnodes : nl'.portNodes = nl.portNodes)
    (hmapping : nl'.pinOfBelPin = nl.pinOfBelPin) (h : Evolves nl.Feeds nl nl') :
    nl.Shifts nl' := by
  have hpin : ∀ p, nl'.pin? p = nl.pin? p := fun p => congrArg (fun pins => pins[p.index]?) hpins
  constructor
  · constructor
    · exact fun c => congrArg (fun cells => cells[c.index]?) hcells
    · exact hindex
    · exact fun p => by rw [hpin]
  · exact hnodes
  · exact hmapping
  · exact fun p n _ hn => .inl (by rwa [netOf?, hpin] at hn)
  · exact h

theorem modifyNet (nl : Netlist) (n : NetId) {f : Net → Net}
    (hkind : ∀ net, (f net).kind = net.kind) (hjoins : ∀ net, (f net).joins = net.joins) :
    nl.Shifts (nl.modifyNet n f) := by
  refine of_eq rfl rfl rfl rfl rfl (.modifyNet Feeds.refl nl fun net => ⟨hkind net, fun p hp => ?_⟩)
  have hsource : (f net).source = net.source := congrArg Prod.snd (hjoins net)
  exact .inl (hsource ▸ hp)

theorem addNet (nl : Netlist) (name : String) (kind : NetKind) :
    nl.Shifts (nl.addNet name kind) := by
  refine of_eq rfl rfl rfl rfl rfl ⟨by simp [Netlist.addNet], fun n net' hn => ?_⟩
  rw [net?_addNet] at hn
  split at hn
  next heq =>
    cases hn
    subst heq
    exact .inr ⟨Nat.le_refl _, name, kind, Feeds.refl _ _⟩
  next => exact .inl ⟨net', hn, Feeds.refl _ _⟩

theorem renameNet (nl : Netlist) (n : NetId) (name : String) :
    nl.Shifts (nl.renameNet n name) := by
  have hevolves : Evolves nl.Feeds nl (nl.renameNet n name) := by
    refine .of_nets ?_ fun m net' hm => ?_
    · unfold Netlist.renameNet
      split
      · exact Nat.le_refl _
      · exact Nat.le_of_eq (Array.size_modify ..).symm
    · obtain ⟨net, hnet, rfl⟩ := exists_of_ite_map (net?_renameNet .. ▸ hm)
      refine ⟨net, hnet, ?_⟩
      split
      · exact ⟨rfl, fun _ => .inl⟩
      · exact Feeds.refl m net
  unfold Netlist.renameNet at hevolves ⊢
  split
  · exact refl nl
  next heq =>
    rw [heq] at hevolves
    exact of_eq rfl rfl rfl rfl rfl hevolves

theorem detach (nl : Netlist) (n : NetId) (p : PinId) : nl.Shifts (nl.detach n p) where
  toMoves := .detach nl n p
  nodes := by
    unfold Netlist.detach
    dsimp only
    split <;> rfl
  mapping := (Rejoins.detach nl n p).pinOfBelPin
  ties q m _ hm := by
    rw [netOf?_detach] at hm
    split at hm
    · cases hm
    · exact .inl hm
  evolves := by
    refine .of_nets (Rewires.detach n p).size_le fun m net' hm => ?_
    obtain ⟨net, hnet, rfl⟩ := exists_of_ite_map (net?_detach nl n p m ▸ hm)
    refine ⟨net, hnet, ?_⟩
    split
    · refine ⟨rfl, fun q hq => .inl ?_⟩
      unfold Net.removePin at hq
      exact (Option.ite_none_left_eq_some.1 hq).2
    · exact Feeds.refl m net

theorem removeNet (nl : Netlist) (n : NetId) : nl.Shifts (nl.removeNet n) where
  toMoves := .removeNet nl n
  nodes := by
    unfold Netlist.removeNet
    split
    · rfl
    · rw [foldl_setPinNet_eq]
  mapping := by
    unfold Netlist.removeNet
    split
    · rfl
    · rw [foldl_setPinNet_eq]
  ties q m _ hm := by
    unfold netOf? at hm ⊢
    rw [pin?_removeNet] at hm
    split at hm
    · cases hq : nl.pin? q with
      | none => rw [hq] at hm; cases hm
      | some pin => rw [hq] at hm; cases hm
    · exact .inl hm
  evolves := by
    refine .of_nets (Repins.removeNet nl n).size_le fun m net' hm => ?_
    rw [net?_removeNet] at hm
    split at hm
    · cases hm
    · exact ⟨net', hm, Feeds.refl m net'⟩

theorem attach_of_off {n : NetId} (hn : (nl.net? n).isSome) {p : PinId} {pin : Pin}
    (hp : nl.pin? p = some pin) (hoff : nl.netOf? p = none)
    (htie : nl.IsTie p → pin.dir = .input ∧ IsConstant n) : nl.Shifts (nl.attach n p) where
  toMoves := .attach nl n p
  nodes := by rw [Netlist.attach_of_off hp hoff]; rfl
  mapping := (Rejoins.attach nl n p).pinOfBelPin
  ties q m hq hm := by
    rw [netOf?_attach hp] at hm
    split at hm
    next heq =>
      cases hm
      exact .inr (htie (heq ▸ hq)).2
    next => exact .inl hm
  evolves := by
    refine .of_nets (Rewires.attach hn p).size_le fun m net' hm => ?_
    obtain ⟨net, hnet, rfl⟩ := exists_of_ite_map (net?_attach_of_off hp hoff m ▸ hm)
    refine ⟨net, hnet, ?_⟩
    split
    · refine ⟨rfl, fun q hq => ?_⟩
      unfold Net.addPin at hq
      dsimp only at hq
      split at hq
      next hout =>
        cases hq
        refine .inr (isPlain_of_not_isTie hp fun hq => ?_)
        have hdir := (htie hq).1
        rw [hout.1] at hdir
        cases hdir
      next => exact .inl hq
    · exact Feeds.refl m net

theorem attach {n : NetId} (hn : (nl.net? n).isSome) {p : PinId}
    (htie : ∀ pin, nl.pin? p = some pin → nl.IsTie p → pin.dir = .input ∧ IsConstant n) :
    nl.Shifts (nl.attach n p) := by
  cases hp : nl.pin? p with
  | none =>
    rw [attach_of_no_pin hp]
    exact refl nl
  | some pin =>
    cases hof : nl.netOf? p with
    | none => exact attach_of_off hn hp hof (htie pin hp)
    | some m =>
      by_cases hm : m = n
      · rw [attach_of_on (hm ▸ hof)]
        exact refl nl
      · have hn' : ((nl.detach m p).net? n).isSome := by
          rw [net?_detach, if_neg (Ne.symm hm)]
          exact hn
        have hp' : (nl.detach m p).pin? p = some { pin with net := none } := by
          rw [pin?_detach, if_pos ⟨rfl, hof⟩, hp]
          rfl
        have hoff : (nl.detach m p).netOf? p = none := netOf?_eq hp'
        have htie' : (nl.detach m p).IsTie p → pin.dir = .input ∧ IsConstant n := by
          intro hp''
          exact htie pin hp ((detach nl m p).isTie_iff.1 hp'')
        -- A pin that is on another net goes off it first, and no pin is a tie because of that.
        rw [attach_of_other hof hm]
        exact (detach nl m p).trans (attach_of_off hn' hp' hoff htie')

theorem attachSource {n : NetId} (hn : (nl.net? n).isSome) {p : PinId} (hp : nl.IsPlain p) :
    nl.Shifts (nl.attachSource n p) := by
  have hattach : nl.Shifts (nl.attach n p) := attach hn fun pin _ htie => (hp.not_isTie htie).elim
  refine hattach.trans (of_eq rfl rfl rfl rfl rfl (.modifyNet Feeds.refl _ fun net => ⟨rfl, ?_⟩))
  intro q hq
  cases hq
  exact .inr (hattach.isPlain_iff.2 hp)

end Shifts

/-! ## Netlists with partition pins -/

structure Stays (pin pin' : Pin) : Prop where
  cell : pin'.cell = pin.cell
  dir : pin'.dir = pin.dir
  kind : pin'.kind = pin.kind
  net : pin'.net = pin.net

theorem Stays.refl (pin : Pin) : Stays pin pin := ⟨rfl, rfl, rfl, rfl⟩

def IsNoted (nl : Netlist) (c : CellId) : Prop :=
  ∃ cell, nl.cell? c = some cell ∧ (nl.portNodes[cell.name]?).isSome

/-- What is known of partition pins, and of the names and the constant that they depend on. -/
structure Fenced (nl : Netlist) : Prop where
  named : ∀ name c, nl.cellNamed? name = some c → ∃ cell, nl.cell? c = some cell ∧ cell.name = name
  noted : ∀ p pin, nl.pin? p = some pin → pin.kind.isPartition → nl.IsNoted pin.cell
  input : ∀ p pin, nl.pin? p = some pin → nl.IsTie p → pin.dir = .input
  tied : ∀ p n, nl.IsTie p → nl.netOf? p = some n → IsConstant n
  mapped : ∀ b p, nl.pinAt? b = some p → nl.IsPlain p
  source : ∀ n net p, nl.net? n = some net → net.source = some p → nl.IsPlain p
  ground : ∀ net, nl.net? gnd = some net → net.kind = .gnd
  constants : 2 ≤ nl.nets.size

namespace Fenced

theorem shift (h : nl.Fenced) (hs : nl.Shifts nl') : nl'.Fenced := by
  have back : ∀ p pin', nl'.pin? p = some pin' →
      ∃ pin, nl.pin? p = some pin ∧ pin.cell = pin'.cell ∧ pin.kind = pin'.kind ∧
        pin.dir = pin'.dir := by
    intro p pin' hp
    have hmap := hs.pins p
    rw [hp, Option.map_some, eq_comm] at hmap
    obtain ⟨pin, hpin, heq⟩ := Option.map_eq_some_iff.1 hmap
    have hcell := congrArg Pin.cell heq
    have hkind := congrArg Pin.kind heq
    have hdir := congrArg Pin.dir heq
    exact ⟨pin, hpin, hcell, hkind, hdir⟩
  constructor
  · intro name c hc
    unfold cellNamed? at hc
    rw [hs.names] at hc
    rw [hs.cells]
    exact h.named name c hc
  · intro p pin' hp hpart
    obtain ⟨pin, hpin, hcell, hkind, -⟩ := back p pin' hp
    rw [IsNoted, ← hcell, hs.cells, hs.nodes]
    exact h.noted p pin hpin (hkind ▸ hpart)
  · intro p pin' hp hp'
    obtain ⟨pin, hpin, -, -, hdir⟩ := back p pin' hp
    rw [← hdir]
    exact h.input p pin hpin (hs.isTie_iff.1 hp')
  · intro p n hp hn
    have htie := hs.isTie_iff.1 hp
    rcases hs.ties p n htie hn with hold | hconstant
    · exact h.tied p n htie hold
    · exact hconstant
  · intro b p hb
    unfold pinAt? at hb
    rw [hs.mapping] at hb
    exact hs.isPlain_iff.2 (h.mapped b p hb)
  · intro n net' p hn hp
    rw [hs.isPlain_iff]
    rcases hs.evolves.old_or_new n net' hn with ⟨net, hnet, -, hfeeds⟩ | ⟨-, _, _, -, hfeeds⟩
    · exact (hfeeds p hp).elim (h.source n net p hnet) id
    · exact (hfeeds p hp).elim nofun id
  · intro net' hn
    rcases hs.evolves.old_or_new gnd net' hn with ⟨net, hnet, hkind, -⟩ | ⟨hbeyond, -⟩
    · exact hkind.trans (h.ground net hnet)
    · exact absurd (Nat.le_trans h.constants hbeyond) (by decide)
  · exact Nat.le_trans h.constants hs.evolves.size_le

/-- What is added does no harm where new pins are on no net, ports of new partition pins are noted,
and BEL pins are mapped to pins that tie no port. -/
theorem grow (h : nl.Fenced) (hnets : nl'.nets = nl.nets)
    (hcells : ∀ c cell, nl.cell? c = some cell →
      ∃ cell', nl'.cell? c = some cell' ∧ cell'.name = cell.name)
    (hnamed : ∀ name c, nl'.cellNamed? name = some c → nl.cellNamed? name = some c ∨
      ∃ cell, nl'.cell? c = some cell ∧ cell.name = name)
    (hnodes : ∀ port : String, (nl.portNodes[port]?).isSome → (nl'.portNodes[port]?).isSome)
    (hstays : ∀ p pin, nl.pin? p = some pin →
      ∃ pin', nl'.pin? p = some pin' ∧ Stays pin pin')
    (hnew : ∀ p pin', nl.pin? p = none → nl'.pin? p = some pin' → pin'.net = none ∧
      (pin'.kind = .partition none → pin'.dir = .input) ∧
      (pin'.kind.isPartition → nl'.IsNoted pin'.cell))
    (hmapped : ∀ b p, nl'.pinAt? b = some p → nl.pinAt? b = some p ∨ nl'.IsPlain p) :
    nl'.Fenced := by
  have hnet : ∀ n, nl'.net? n = nl.net? n :=
    fun n => congrArg (fun nets => nets[n.index]?.join) hnets
  have back : ∀ p pin', nl'.pin? p = some pin' →
      (∃ pin, nl.pin? p = some pin ∧ Stays pin pin') ∨ nl.pin? p = none := by
    intro p pin' hp
    cases hold : nl.pin? p with
    | none => exact .inr rfl
    | some pin =>
      obtain ⟨pin'', hp'', hstay⟩ := hstays p pin hold
      obtain rfl := Option.some.inj (hp.symm.trans hp'')
      exact .inl ⟨pin, rfl, hstay⟩
  have hplain : ∀ p, nl.IsPlain p → nl'.IsPlain p := by
    rintro p ⟨kind, hp, hkind⟩
    obtain ⟨pin, hpin, rfl⟩ := Option.map_eq_some_iff.1 hp
    obtain ⟨pin', hpin', hstay⟩ := hstays p pin hpin
    exact ⟨pin.kind, (kindOf?_eq hpin').trans (congrArg some hstay.kind), hkind⟩
  constructor
  · intro name c hc
    rcases hnamed name c hc with hold | hnew
    · obtain ⟨cell, hcell, rfl⟩ := h.named name c hold
      exact hcells c cell hcell
    · exact hnew
  · intro p pin' hp hpart
    rcases back p pin' hp with ⟨pin, hpin, hstay⟩ | hnone
    · obtain ⟨cell, hcell, hnode⟩ := h.noted p pin hpin (hstay.kind ▸ hpart)
      obtain ⟨cell', hcell', hname⟩ := hcells _ cell hcell
      exact ⟨cell', hstay.cell ▸ hcell', hname ▸ hnodes _ hnode⟩
    · exact (hnew p pin' hnone hp).2.2 hpart
  · intro p pin' hp htie
    rw [isTie_iff hp] at htie
    rcases back p pin' hp with ⟨pin, hpin, hstay⟩ | hnone
    · exact hstay.dir.trans (h.input p pin hpin ((isTie_iff hpin).2 (hstay.kind ▸ htie)))
    · exact (hnew p pin' hnone hp).2.1 htie
  · intro p n htie hn
    obtain ⟨pin', hp, hnet'⟩ := exists_pin_of_netOf? hn
    rw [isTie_iff hp] at htie
    rcases back p pin' hp with ⟨pin, hpin, hstay⟩ | hnone
    · refine h.tied p n ((isTie_iff hpin).2 (hstay.kind ▸ htie)) ?_
      rw [netOf?_eq hpin, ← hstay.net, hnet']
    · rw [(hnew p pin' hnone hp).1] at hnet'
      cases hnet'
  · intro b p hb
    rcases hmapped b p hb with hold | hplain'
    · exact hplain p (h.mapped b p hold)
    · exact hplain'
  · intro n net p hn hp
    rw [hnet] at hn
    exact hplain p (h.source n net p hn hp)
  · intro net hn
    rw [hnet] at hn
    exact h.ground net hn
  · rw [hnets]
    exact h.constants

theorem modifyCell (h : nl.Fenced) (c : CellId) {f : Cell → Cell}
    (hf : ∀ cell, (f cell).name = cell.name) : (nl.modifyCell c f).Fenced := by
  refine h.grow rfl (fun e cell he => ?_) (fun _ _ => .inl) (fun _ => id)
    (fun p pin hp => ⟨pin, hp, .refl pin⟩) (fun p pin' hnone hp => ?_) fun _ _ => .inl
  · rw [cell?_modifyCell, he]
    split
    · exact ⟨f cell, rfl, hf cell⟩
    · exact ⟨cell, rfl, rfl⟩
  · cases hnone.symm.trans hp

theorem place (h : nl.Fenced) (c : CellId) (s : SiteId) (b : BelId) : (nl.place c s b).Fenced := by
  have hcell := h.modifyCell c (f := fun cell => { cell with bel := some b, site := some s })
    fun _ => rfl
  exact hcell.shift (.of_eq rfl rfl rfl rfl rfl (.of_eq Feeds.refl rfl))

theorem addCell (h : nl.Fenced) (name type : String) : (nl.addCell name type).Fenced := by
  refine h.grow rfl (fun e cell he => ?_) (fun other c hc => ?_) (fun _ => id)
    (fun p pin hp => ⟨pin, hp, .refl pin⟩) (fun p pin' hnone hp => ?_) fun _ _ => .inl
  · rw [cell?_addCell, if_neg]
    · exact ⟨cell, he, rfl⟩
    · rintro rfl
      rw [cell?_nextCell] at he
      cases he
  · unfold cellNamed? Netlist.addCell at hc
    rw [Std.ExtTreeMap.getElem?_insert] at hc
    split at hc
    next heq =>
      cases hc
      refine .inr ⟨{ name, type }, ?_, Std.LawfulEqCmp.compare_eq_iff_eq.1 heq⟩
      rw [cell?_addCell, if_pos rfl]
    next => exact .inl hc
  · cases hnone.symm.trans hp

theorem addPin (h : nl.Fenced) (c : CellId) (name : String) (dir : PinDir) (kind : PinKind)
    (hdir : kind = .partition none → dir = .input) (hnoted : kind.isPartition → nl.IsNoted c) :
    (nl.addPin c name dir kind).Fenced := by
  have hcells : ∀ e cell, nl.cell? e = some cell →
      ∃ cell', (nl.addPin c name dir kind).cell? e = some cell' ∧ cell'.name = cell.name := by
    intro e cell he
    rw [cell?_addPin, he]
    split
    · refine ⟨_, rfl, ?_⟩
      split <;> rfl
    · exact ⟨cell, rfl, rfl⟩
  refine h.grow rfl hcells (fun _ _ => .inl) (fun _ => id)
    (fun p pin hp => ⟨pin, pin?_addPin_of_some nl hp c name dir kind, .refl pin⟩)
    (fun p pin' hnone hp => ?_) fun _ _ => .inl
  rw [pin?_addPin] at hp
  split at hp
  next =>
    cases hp
    refine ⟨rfl, hdir, fun hpart => ?_⟩
    obtain ⟨cell, hcell, hnode⟩ := hnoted hpart
    obtain ⟨cell', hcell', hname⟩ := hcells c cell hcell
    exact ⟨cell', hcell', hname ▸ hnode⟩
  next => cases hnone.symm.trans hp

theorem addBuffer (h : nl.Fenced) (name : String) : (nl.addBuffer name).Fenced := by
  have hinput := (h.addCell name "LUT1").addPin nl.nextCell "I0" .input .regular nofun nofun
  have houtput := hinput.addPin nl.nextCell "O" .output .regular nofun nofun
  exact houtput.modifyCell nl.nextCell fun _ => rfl

theorem addPseudoPin (h : nl.Fenced) (c : CellId) (name : String) (dir : PinDir) :
    (nl.addPseudoPin c name dir).Fenced :=
  (h.addPin c name dir .pseudo nofun nofun).modifyCell c fun _ => rfl

theorem notePort (h : nl.Fenced) (port node : String) :
    { nl with portNodes := nl.portNodes.insert port node : Netlist }.Fenced := by
  refine h.grow rfl (fun c cell hc => ⟨cell, hc, rfl⟩) (fun _ _ => .inl) (fun other hother => ?_)
    (fun p pin hp => ⟨pin, hp, .refl pin⟩) (fun p pin' hnone hp => ?_) fun _ _ => .inl
  · dsimp only
    rw [Std.ExtTreeMap.getElem?_insert]
    split
    · rfl
    · exact hother
  · cases hnone.symm.trans hp

theorem mapPin (h : nl.Fenced) (hp : nl.IsPlain p) (b : BelPinId) : (nl.mapPin p b).Fenced := by
  have hpins : ∀ q pin, nl.pin? q = some pin →
      ∃ pin', (nl.mapPin p b).pin? q = some pin' ∧ Stays pin pin' := by
    intro q pin hq
    rw [pin?_mapPin, hq]
    split
    · exact ⟨_, rfl, rfl, rfl, rfl, rfl⟩
    · exact ⟨pin, rfl, .refl pin⟩
  refine h.grow rfl (fun c cell hc => ⟨cell, hc, rfl⟩) (fun _ _ => .inl) (fun _ => id) hpins
    (fun q pin' hnone hq => ?_) fun b' q hb => ?_
  · obtain ⟨pin, hpin, -⟩ := exists_of_ite_map (pin?_mapPin .. ▸ hq)
    cases hnone.symm.trans hpin
  · rw [pinAt?_mapPin] at hb
    split at hb
    next =>
      cases hb
      obtain ⟨kind, hkind, hne⟩ := hp
      obtain ⟨pin, hpin, rfl⟩ := Option.map_eq_some_iff.1 hkind
      obtain ⟨pin', hpin', hstay⟩ := hpins p pin hpin
      exact .inr ⟨pin.kind, (kindOf?_eq hpin').trans (congrArg some hstay.kind), hne⟩
    next => exact .inl hb

end Fenced

/-! ## Pins at the boundary of a module -/

theorem Shifts.isNoted (h : nl.Shifts nl') {c : CellId} (hc : nl.IsNoted c) : nl'.IsNoted c := by
  unfold IsNoted
  rw [h.cells, h.nodes]
  exact hc

theorem isPlain_addPin (nl : Netlist) {kind : PinKind} (hkind : kind ≠ .partition none) (c : CellId)
    (name : String) (dir : PinDir) : (nl.addPin c name dir kind).IsPlain nl.nextPin := by
  refine ⟨kind, ?_, hkind⟩
  rw [kindOf?, pin?_addPin, if_pos rfl, Option.map_some]

/-- The pins of a LUT that was put in tie no port, nor do others that did not. -/
theorem isPlain_addBuffer (nl : Netlist) (name : String)
    (hp : p = nl.nextPin ∨ p = ⟨nl.nextPin.index + 1⟩ ∨ nl.IsPlain p) :
    (nl.addBuffer name).IsPlain p := by
  unfold IsPlain kindOf?
  rw [pin?_addBuffer]
  split
  · exact ⟨.regular, rfl, nofun⟩
  · split
    · exact ⟨.regular, rfl, nofun⟩
    · refine (hp.resolve_left ?_).resolve_left ?_ <;> assumption

namespace Fenced

theorem of_connect (h : nl.Fenced) (hp : nl.IsTie p → IsConstant n)
    (hok : nl.connect n p = .ok nl') : nl'.Fenced ∧ nl.Shifts nl' := by
  have hs : nl.Shifts nl' := by
    obtain ⟨-, hon | ⟨-, hn⟩, rfl⟩ := connect_eq_ok.1 hok
    · rw [attach_of_on hon]
      exact .refl nl
    · exact .attach hn fun pin hpin htie => ⟨h.input p pin hpin htie, hp htie⟩
  exact ⟨h.shift hs, hs⟩

theorem of_connect_plain (h : nl.Fenced) (hp : nl.IsPlain p) (hok : nl.connect n p = .ok nl') :
    nl'.Fenced ∧ nl.Shifts nl' :=
  h.of_connect (fun htie => (hp.not_isTie htie).elim) hok

theorem of_connectSource (h : nl.Fenced) (hp : nl.IsPlain p)
    (hok : nl.connectSource n p = .ok nl') : nl'.Fenced := by
  obtain ⟨joined, hjoined, hn, rfl⟩ := connectSource_eq_ok.1 hok
  obtain ⟨-, -, rfl⟩ := connect_eq_ok.1 hjoined
  rw [(Rejoins.attach nl n p).isSome_net?] at hn
  exact h.shift (.attachSource hn hp)

theorem of_driveFromBoundary (h : nl.Fenced) (hq : nl.IsPlain q) {port : String}
    {old : Option NetId} (hok : nl.driveFromBoundary port old q = .ok nl') : nl'.Fenced := by
  have drive : ∀ {mid : Netlist} {n : NetId}, mid.Fenced → mid.IsPlain q → (do
      let nl ← mid.connectSource n q
      if (← nl.getNet n).fanOut = 0 then
        let buffer := nl.insertBuffer ("IN_BUF_Inserted_" ++ port)
        buffer.2.2.connect n buffer.1
      else return nl) = .ok nl' → nl'.Fenced := by
    intro mid n hmid hq hok
    obtain ⟨joined, hjoined, hok⟩ := Checked.bind_eq_ok.1 hok
    have hjoin := hmid.of_connectSource hq hjoined
    obtain ⟨net, -, hok⟩ := Checked.bind_eq_ok.1 hok
    split at hok
    · have hinput := isPlain_addBuffer joined ("IN_BUF_Inserted_" ++ port) (.inl rfl)
      exact ((hjoin.addBuffer _).of_connect_plain hinput hok).1
    · cases hok
      exact hjoin
  unfold driveFromBoundary at hok
  cases old with
  | some n => exact drive h hq hok
  | none =>
    have hnet : nl.Shifts (nl.addNet port .wire) := .addNet nl port .wire
    exact drive (h.shift hnet) (hnet.isPlain_iff.2 hq) hok

theorem of_sinkAtBoundary (h : nl.Fenced) (hq : nl.IsPlain q) {multiPortNets : KeySet NetId}
    {port : String} {old : Option NetId}
    (hok : nl.sinkAtBoundary multiPortNets port old q = .ok nl') : nl'.Fenced := by
  unfold sinkAtBoundary at hok
  obtain ⟨net, -, hok⟩ := Checked.bind_eq_ok.1 hok
  obtain ⟨driven, -, hok⟩ := Checked.bind_eq_ok.1 hok
  split at hok
  · obtain ⟨fed, hfed, hok⟩ := Checked.bind_eq_ok.1 hok
    obtain ⟨led, hled, hok⟩ := Checked.bind_eq_ok.1 hok
    let name := net.name ++ "_InsertedInst_" ++ port
    have hinput := isPlain_addBuffer nl name (.inl rfl)
    have houtput := isPlain_addBuffer nl name (.inr (.inl rfl))
    obtain ⟨hfence, hfeeds⟩ := (h.addBuffer name).of_connect_plain hinput hfed
    have hnet := hfeeds.trans (.addNet fed (net.name ++ "_InsertedNet_" ++ port) .wire)
    obtain ⟨hfence, hleads⟩ := (hfence.shift (.addNet fed _ .wire)).of_connect_plain
      (hnet.isPlain_iff.2 houtput) hled
    have hq' := (hnet.trans hleads).isPlain_iff.2 (isPlain_addBuffer nl name (.inr (.inr hq)))
    exact (hfence.of_connect_plain hq' hok).1
  · exact (h.of_connect_plain hq hok).1

theorem of_addPartitionPin (h : nl.Fenced) {port : CellId} (hport : nl.IsNoted port)
    {multiPortNets : KeySet NetId} {wire : Wire} {isSource : Bool}
    (hok : nl.addPartitionPin multiPortNets port p wire isSource = .ok (q, nl')) : nl'.Fenced := by
  unfold addPartitionPin at hok
  obtain ⟨cell, -, hok⟩ := Checked.bind_eq_ok.1 hok
  obtain ⟨pin, -, hok⟩ := Checked.bind_eq_ok.1 hok
  obtain ⟨_, hadded, hok⟩ := Checked.bind_eq_ok.1 hok
  obtain ⟨-, rfl⟩ := newPin_eq_ok.1 hadded
  obtain ⟨off, hoff, hok⟩ := Checked.bind_eq_ok.1 hok
  have hwired : PinKind.partition (some wire) ≠ .partition none := nofun
  let added := nl.addPin port pin.name (if isSource then .output else .input)
    (.partition (some wire))
  have hfence : added.Fenced := h.addPin port pin.name _ _ nofun fun _ => hport
  have hnew : added.IsPlain nl.nextPin := isPlain_addPin nl hwired port pin.name _
  have htaken : added.Shifts off := by
    cases hnet : pin.net with
    | none =>
      rw [hnet] at hoff
      cases hoff
      exact .refl added
    | some n =>
      rw [hnet] at hoff
      obtain ⟨-, -, rfl⟩ := disconnect_eq_ok.1 hoff
      exact .detach added n p
  have hfence := hfence.shift htaken
  have hnew := htaken.isPlain_iff.2 hnew
  dsimp only at hok
  split at hok
  · obtain ⟨put, hput, heq⟩ := Checked.bind_eq_ok.1 hok
    cases Checked.pure_eq_ok.1 heq
    exact hfence.of_driveFromBoundary hnew hput
  · obtain ⟨put, hput, heq⟩ := Checked.bind_eq_ok.1 hok
    cases Checked.pure_eq_ok.1 heq
    exact hfence.of_sinkAtBoundary hnew hput

theorem of_dissolve (h : nl.Fenced) {m : NetId} (hm : IsConstant m)
    (hok : nl.dissolve n m = .ok nl') : nl'.Fenced ∧ nl.Shifts nl' := by
  unfold dissolve at hok
  obtain ⟨net, -, hok⟩ := Checked.bind_eq_ok.1 hok
  obtain ⟨moved, hmoved, hok⟩ := Checked.bind_eq_ok.1 hok
  cases Checked.pure_eq_ok.1 hok
  obtain ⟨hfence, hmoves⟩ := Checked.foldlM_keeps (fun mid => mid.Fenced ∧ nl.Shifts mid)
    (fun mid p _ mid' hkeeps hstep => by
      obtain ⟨hfence, hs⟩ := hkeeps.1.of_connect (fun _ => hm) hstep
      exact ⟨hfence, hkeeps.2.trans hs⟩) ⟨h, .refl nl⟩ hmoved
  exact ⟨hfence.shift (.removeNet moved n), hmoves.trans (.removeNet moved n)⟩

theorem of_tiePort (h : nl.Fenced) {static : NetId} (hstatic : IsConstant static) {port : CellId}
    (hport : nl.IsNoted port) (hok : nl.tiePort static port p = .ok nl') : nl'.Fenced := by
  unfold tiePort at hok
  obtain ⟨pin, -, hok⟩ := Checked.bind_eq_ok.1 hok
  have tie : ∀ {off : Netlist}, off.Fenced → nl.Shifts off →
      (do
        let nl ← off.newPin port pin.name .input (.partition none)
        nl.connect static off.nextPin) = .ok nl' → nl'.Fenced := by
    intro off hoff hs hok
    obtain ⟨added, hadded, hok⟩ := Checked.bind_eq_ok.1 hok
    obtain ⟨-, rfl⟩ := newPin_eq_ok.1 hadded
    have hadd := hoff.addPin port pin.name .input (.partition none) (fun _ => rfl)
      fun _ => hs.isNoted hport
    exact (hadd.of_connect (fun _ => hstatic) hok).1
  dsimp only at hok
  split at hok
  · exact tie h (.refl nl) hok
  next n _ =>
    obtain ⟨freed, hfreed, hok⟩ := Checked.bind_eq_ok.1 hok
    obtain ⟨-, -, rfl⟩ := disconnect_eq_ok.1 hfreed
    have hs : nl.Shifts (nl.detach n p) := .detach nl n p
    split at hok
    · exact tie (h.shift hs) hs hok
    · obtain ⟨merged, hmerged, hok⟩ := Checked.bind_eq_ok.1 hok
      obtain ⟨hfence, hmerge⟩ := (h.shift hs).of_dissolve hstatic hmerged
      exact tie hfence (hs.trans hmerge) hok

end Fenced

end Fabric.Netlist
