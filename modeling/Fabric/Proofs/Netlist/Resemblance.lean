import Fabric.Proofs.Netlist.Views
import Fabric.Record.Ports
import Fabric.SiteRoute.Search
/-!
# Netlists that differ in the status of the constants only

The status of a net is there for those who look at a netlist later. No change of a netlist looks at
it, so netlists that differ in the status of the constant nets only are changed alike.
-/

namespace Fabric

/-! ## Nets -/

namespace Net

def blur (net : Net) : Net := { net with status := .unrouted }

def Resembles (net net' : Net) : Prop := net.blur = net'.blur

def Blind (f : Net → Net) : Prop := ∀ net, (f net.blur).blur = (f net).blur

namespace Resembles

variable {net net' : Net} (h : net.Resembles net')

include h

theorem view {α : Type} {f : Net → α} (hf : ∀ net, f net.blur = f net) : f net = f net' := by
  rw [← hf net, ← hf net']
  exact congrArg f h

theorem name : net.name = net'.name := h.view fun _ => rfl

theorem kind : net.kind = net'.kind := h.view fun _ => rfl

theorem pins : net.pins = net'.pins := h.view fun _ => rfl

theorem source : net.source = net'.source := h.view fun _ => rfl

theorem sourceSitePins : net.sourceSitePins = net'.sourceSitePins := h.view fun _ => rfl

theorem isStatic : net.isStatic = net'.isStatic := h.view fun _ => rfl

theorem fanOut : net.fanOut = net'.fanOut := h.view fun _ => rfl

theorem intrasiteIndex (t : RouteTree) : net.intrasiteIndex t = net'.intrasiteIndex t :=
  h.view (f := fun net => net.intrasiteIndex t) fun _ => rfl

end Resembles

/-! ### Changes of nets -/

theorem blind_addPin (p : PinId) (dir : PinDir) : Blind fun net => net.addPin p dir := fun _ => rfl

theorem blind_removePin (p : PinId) : Blind fun net => net.removePin p := fun _ => rfl

theorem blind_setSource (p : PinId) : Blind fun net => net.setSource p := fun _ => rfl

theorem blind_addSourceSitePin (p : SitePinId) : Blind fun net => net.addSourceSitePin p := by
  intro net
  dsimp only [addSourceSitePin, blur]
  split <;> rfl

theorem blind_removeSourceSitePin (p : SitePinId) : Blind fun net => net.removeSourceSitePin p :=
  fun _ => rfl

theorem blind_addIntersite (t : RouteTree) : Blind fun net => net.addIntersite t := fun _ => rfl

theorem blind_addIntrasite (t : RouteTree) : Blind fun net => net.addIntrasite t := by
  intro net
  dsimp only [addIntrasite, blur]
  split <;> rfl

theorem blind_setSitePinRoute (p : SitePinId) (i : Nat) :
    Blind fun net => net.setSitePinRoute p i := fun _ => rfl

theorem blind_setBelPinRoute (p : BelPinId) (i : Nat) : Blind fun net => net.setBelPinRoute p i :=
  fun _ => rfl

theorem blind_addRoutedSink (p : PinId) : Blind fun net => net.addRoutedSink p := fun _ => rfl

theorem blind_updateStatus : Blind updateStatus := fun _ => rfl

theorem blind_settleIntrasite : Blind fun net => (net.setIntrasite true).updateStatus :=
  fun _ => rfl

theorem Blind.resembles {f : Net → Net} (hf : Blind f) {net net' : Net} (h : net.Resembles net') :
    (f net).Resembles (f net') := by
  rw [Resembles, ← hf net, ← hf net']
  exact congrArg (fun net => (f net).blur) h

theorem Blind.comp {f g : Net → Net} (hg : Blind g) (hf : Blind f) : Blind fun net => g (f net) :=
  fun net => hg.resembles (hf net)

theorem Blind.foldl {α : Type} {f : Net → α → Net} (hf : ∀ a, Blind fun net => f net a)
    (as : List α) : Blind fun net => as.foldl f net := by
  induction as with
  | nil => exact fun _ => rfl
  | cons a as ih => exact ih.comp (hf a)

theorem blind_registerSource (d : Device) (i : Nat) (pins : List SitePinId) :
    Blind fun net => net.registerSource d i pins := by
  intro net
  have hexits := Blind.foldl blind_addSourceSitePin
    (if net.sourceSitePins.isEmpty then pins.filter fun p => (d.sitePinDir p).isOutput else [])
  have hplaces := Blind.foldl (fun p => blind_setSitePinRoute p i) pins
  exact (hplaces.comp hexits) (net.setSourceRoute i)

end Net

/-! ## Netlists -/

namespace Netlist

/-- The netlist with the status of the constant nets left open. -/
def blur (nl : Netlist) : Netlist :=
  { nl with nets := nl.nets.mapIdx fun i net =>
      if i = vcc.index ∨ i = gnd.index then net.map Net.blur else net }

/-- The netlists differ in the status of the constant nets at most. -/
def Resembles (nl nl' : Netlist) : Prop := nl.blur = nl'.blur

theorem blur_blur (nl : Netlist) : nl.blur.blur = nl.blur := by
  refine congrArg (fun nets => { nl with nets }) (Array.ext_getElem? fun i => ?_)
  simp only [blur, Array.getElem?_mapIdx, Option.map_map]
  congr 1
  funext net
  by_cases hi : i = vcc.index ∨ i = gnd.index
  · simp only [Function.comp, if_pos hi, Option.map_map]
    rfl
  · simp only [Function.comp, if_neg hi]

theorem blur_modifyNet (nl : Netlist) (n : NetId) {f : Net → Net} (hf : Net.Blind f) :
    (nl.blur.modifyNet n f).blur = (nl.modifyNet n f).blur := by
  refine congrArg (fun nets => { nl with nets }) (Array.ext_getElem? fun i => ?_)
  have hmap : ∀ net : Option Net, ((net.map Net.blur).map f).map Net.blur =
      (net.map f).map Net.blur := by
    intro net
    cases net with
    | none => rfl
    | some net => exact congrArg some (hf net)
  have hblur : ∀ net : Option Net, (net.map Net.blur).map Net.blur = net.map Net.blur := by
    intro net
    cases net <;> rfl
  simp only [blur, modifyNet, Array.getElem?_mapIdx, Array.getElem?_modify]
  cases nl.nets[i]? with
  | none => simp
  | some net =>
    by_cases hi : i = vcc.index ∨ i = gnd.index
    · by_cases hn : n.index = i
      · simp only [if_pos hi, if_pos hn, Option.map_some, hmap]
      · simp only [if_pos hi, if_neg hn, Option.map_some, hblur]
    · by_cases hn : n.index = i
      · simp only [if_neg hi, if_pos hn, Option.map_some]
      · simp only [if_neg hi, if_neg hn, Option.map_some]

theorem nextNet_blur (nl : Netlist) : nl.blur.nextNet = nl.nextNet :=
  congrArg Key.mk Array.size_mapIdx

theorem net?_blur (nl : Netlist) (n : NetId) :
    nl.blur.net? n = if n = vcc ∨ n = gnd then (nl.net? n).map Net.blur else nl.net? n := by
  simp only [blur, net?, Array.getElem?_mapIdx, Key.ext_iff]
  cases nl.nets[n.index]? with
  | none => simp
  | some net => split <;> rfl

theorem blur_addNet (nl : Netlist) (name : String) (kind : NetKind) :
    (nl.addNet name kind).blur = nl.blur.addNet name kind := by
  unfold addNet
  rw [nextNet_blur]
  refine congrArg (fun nets => { nl with nets, netIndex := nl.netIndex.insert name nl.nextNet }) ?_
  rw [Array.mapIdx_push]
  refine congrArg (Array.push _) ?_
  split <;> rfl

def clearNet (nl : Netlist) (n : NetId) (name : String) : Netlist :=
  { nl with nets := nl.nets.setIfInBounds n.index none, netIndex := nl.netIndex.erase name }

theorem removeNet_eq {nl : Netlist} {n : NetId} {net : Net} (hn : nl.net? n = some net) :
    nl.removeNet n =
      (net.pins.foldl (fun nl p => nl.setPinNet p none) nl).clearNet n net.name := by
  have hfreed := foldl_setPinNet_eq net.pins nl
  unfold removeNet clearNet
  rw [hn, congrArg Netlist.nets hfreed, congrArg Netlist.netIndex hfreed]

theorem blur_clearNet (nl : Netlist) (n : NetId) (name : String) :
    (nl.blur.clearNet n name).blur = (nl.clearNet n name).blur := by
  refine congrArg (fun nets => { nl with nets, netIndex := nl.netIndex.erase name })
    (Array.ext_getElem? fun i => ?_)
  have htwice := congrArg (fun nl => nl.nets[i]?) nl.blur_blur
  simp only [blur, clearNet, Array.getElem?_mapIdx, Array.getElem?_setIfInBounds,
    Array.size_mapIdx] at htwice ⊢
  by_cases hi : n.index = i
  · simp only [if_pos hi]
  · simp only [if_neg hi]
    exact htwice

namespace Resembles

variable {nl nl' : Netlist} (h : nl.Resembles nl')

include h

theorem view {α : Type} {f : Netlist → α} (hf : ∀ nl, f nl.blur = f nl) : f nl = f nl' := by
  rw [← hf nl, ← hf nl']
  exact congrArg f h

theorem map {f : Netlist → Netlist} (hf : ∀ nl, (f nl.blur).blur = (f nl).blur) :
    (f nl).Resembles (f nl') :=
  h.view (f := fun nl => (f nl).blur) hf

/-! ### Looking -/

theorem mode : nl.mode = nl'.mode := h.view fun _ => rfl

theorem portNodes : nl.portNodes = nl'.portNodes := h.view fun _ => rfl

theorem nextPin : nl.nextPin = nl'.nextPin := h.view (f := Netlist.nextPin) fun _ => rfl

theorem nextNet : nl.nextNet = nl'.nextNet := h.view nextNet_blur

theorem pin? (p : PinId) : nl.pin? p = nl'.pin? p := h.view (f := fun nl => nl.pin? p) fun _ => rfl

theorem pinAt? (b : BelPinId) : nl.pinAt? b = nl'.pinAt? b :=
  h.view (f := fun nl => nl.pinAt? b) fun _ => rfl

theorem cellAt? (b : BelId) : nl.cellAt? b = nl'.cellAt? b :=
  h.view (f := fun nl => nl.cellAt? b) fun _ => rfl

theorem netNamed? (name : String) : nl.netNamed? name = nl'.netNamed? name :=
  h.view (f := fun nl => nl.netNamed? name) fun _ => rfl

theorem cellNamed? (name : String) : nl.cellNamed? name = nl'.cellNamed? name :=
  h.view (f := fun nl => nl.cellNamed? name) fun _ => rfl

theorem getPin (p : PinId) : nl.getPin p = nl'.getPin p :=
  h.view (f := fun nl => nl.getPin p) fun _ => rfl

theorem getCell (c : CellId) : nl.getCell c = nl'.getCell c :=
  h.view (f := fun nl => nl.getCell c) fun _ => rfl

theorem pinFullName (p : PinId) : nl.pinFullName p = nl'.pinFullName p :=
  h.view (f := fun nl => nl.pinFullName p) fun _ => rfl

theorem net? (n : NetId) : Option.Rel Net.Resembles (nl.net? n) (nl'.net? n) := by
  have hnet : (nl.net? n).map Net.blur = (nl'.net? n).map Net.blur := by
    refine h.view (f := fun nl => (nl.net? n).map Net.blur) fun nl => ?_
    rw [net?_blur]
    split
    · cases nl.net? n <;> rfl
    · rfl
  cases h1 : nl.net? n with
  | none =>
    rw [h1, eq_comm, Option.map_none, Option.map_eq_none_iff] at hnet
    rw [hnet]
    exact .none
  | some net =>
    rw [h1, eq_comm, Option.map_some, Option.map_eq_some_iff] at hnet
    obtain ⟨net', h2, heq⟩ := hnet
    rw [h2]
    exact .some heq.symm

theorem getNet (n : NetId) : Checked.Alike Eq Net.Resembles (nl.getNet n) (nl'.getNet n) := by
  have hnet := h.net? n
  unfold Netlist.getNet
  revert hnet
  generalize nl.net? n = net
  generalize nl'.net? n = net'
  intro hnet
  cases hnet with
  | none => exact .error rfl
  | some hnet => exact .ok hnet

/-! ### Changing -/

theorem modifyNet (n : NetId) {f : Net → Net} (hf : Net.Blind f) :
    (nl.modifyNet n f).Resembles (nl'.modifyNet n f) :=
  h.map (f := fun nl => nl.modifyNet n f) fun nl => blur_modifyNet nl n hf

theorem frame {f : Netlist → Netlist} (hf : ∀ nl, (f nl).blur = f nl.blur) :
    (f nl).Resembles (f nl') := by
  refine h.map fun nl => ?_
  rw [hf nl.blur, hf nl, blur_blur]

theorem setPinNet (p : PinId) (n : Option NetId) :
    (nl.setPinNet p n).Resembles (nl'.setPinNet p n) :=
  h.frame (f := fun nl => nl.setPinNet p n) fun _ => rfl

theorem addNet (name : String) (kind : NetKind) :
    (nl.addNet name kind).Resembles (nl'.addNet name kind) :=
  h.frame (f := fun nl => nl.addNet name kind) fun nl => blur_addNet nl name kind

theorem addPin (c : CellId) (name : String) (dir : PinDir) (kind : PinKind) :
    (nl.addPin c name dir kind).Resembles (nl'.addPin c name dir kind) :=
  h.frame (f := fun nl => nl.addPin c name dir kind) fun _ => rfl

theorem addPseudoPin (c : CellId) (name : String) (dir : PinDir) :
    (nl.addPseudoPin c name dir).Resembles (nl'.addPseudoPin c name dir) :=
  h.frame (f := fun nl => nl.addPseudoPin c name dir) fun _ => rfl

theorem addBuffer (name : String) : (nl.addBuffer name).Resembles (nl'.addBuffer name) :=
  h.frame (f := fun nl => nl.addBuffer name) fun _ => rfl

theorem mapPin (p : PinId) (b : BelPinId) : (nl.mapPin p b).Resembles (nl'.mapPin p b) :=
  h.frame (f := fun nl => nl.mapPin p b) fun _ => rfl

theorem detach (n : NetId) (p : PinId) : (nl.detach n p).Resembles (nl'.detach n p) := by
  unfold Netlist.detach
  rw [h.pin? p]
  dsimp only
  split
  · exact (h.setPinNet p none).modifyNet n (Net.blind_removePin p)
  · exact h.modifyNet n (Net.blind_removePin p)

theorem attach (n : NetId) (p : PinId) : (nl.attach n p).Resembles (nl'.attach n p) := by
  unfold Netlist.attach
  rw [h.pin? p]
  split
  next => exact h
  next pin _ =>
    split
    next => exact h
    next =>
      have hfreed : (pin.net.elim nl fun m => nl.detach m p).Resembles
          (pin.net.elim nl' fun m => nl'.detach m p) := by
        cases pin.net with
        | none => exact h
        | some m => exact h.detach m p
      exact (hfreed.setPinNet p (some n)).modifyNet n (Net.blind_addPin p pin.dir)

theorem attachSource (n : NetId) (p : PinId) :
    (nl.attachSource n p).Resembles (nl'.attachSource n p) :=
  (h.attach n p).modifyNet n (Net.blind_setSource p)

theorem removeNet (n : NetId) : (nl.removeNet n).Resembles (nl'.removeNet n) := by
  have hfreed : ∀ (ps : List PinId) {nl nl' : Netlist}, nl.Resembles nl' →
      (ps.foldl (fun nl p => nl.setPinNet p none) nl).Resembles
        (ps.foldl (fun nl p => nl.setPinNet p none) nl') := by
    intro ps
    induction ps with
    | nil => exact id
    | cons p ps ih => exact fun h => ih (h.setPinNet p none)
  have hnet := h.net? n
  cases h1 : nl.net? n with
  | none =>
    rw [h1] at hnet
    cases h2 : nl'.net? n with
    | none =>
      rw [removeNet_of_no_net h1, removeNet_of_no_net h2]
      exact h
    | some net' =>
      rw [h2] at hnet
      cases hnet
  | some net =>
    rw [h1] at hnet
    cases h2 : nl'.net? n with
    | none =>
      rw [h2] at hnet
      cases hnet
    | some net' =>
      rw [h2] at hnet
      cases hnet with
      | some hnet =>
        rw [removeNet_eq h1, removeNet_eq h2, hnet.pins, hnet.name]
        exact (hfreed net'.pins h).map (f := fun nl => nl.clearNet n net'.name) fun nl =>
          blur_clearNet nl n net'.name

/-! ### Checked changes -/

theorem updateNet (n : NetId) {f : Net → Net} (hf : Net.Blind f) :
    Checked.Alike Eq Resembles (nl.updateNet n f) (nl'.updateNet n f) :=
  (h.getNet n).discard.bind fun _ _ _ => .ok (h.modifyNet n hf)

theorem newPin (c : CellId) (name : String) (dir : PinDir) (kind : PinKind) :
    Checked.Alike Eq Resembles (nl.newPin c name dir kind) (nl'.newPin c name dir kind) := by
  unfold Netlist.newPin
  rw [h.getCell c]
  exact .bind_same fun _ => .ok (h.addPin c name dir kind)

theorem newPseudoPin (c : CellId) (name : String) (dir : PinDir) :
    Checked.Alike Eq Resembles (nl.newPseudoPin c name dir) (nl'.newPseudoPin c name dir) := by
  unfold Netlist.newPseudoPin
  rw [h.getCell c]
  exact .bind_same fun _ => .ok (h.addPseudoPin c name dir)

theorem mapToBelPin (p : PinId) (b : BelPinId) :
    Checked.Alike Eq Resembles (nl.mapToBelPin p b) (nl'.mapToBelPin p b) := by
  unfold Netlist.mapToBelPin
  rw [h.getPin p]
  exact .bind_same fun _ => .ok (h.mapPin p b)

theorem disconnect (n : NetId) (p : PinId) :
    Checked.Alike Eq Resembles (nl.disconnect n p) (nl'.disconnect n p) := by
  unfold Netlist.disconnect
  rw [h.getPin p]
  refine .bind_same fun _ => ?_
  exact (h.getNet n).discard.bind fun _ _ _ => .ok (h.detach n p)

theorem connect (n : NetId) (p : PinId) :
    Checked.Alike Eq Resembles (nl.connect n p) (nl'.connect n p) := by
  unfold Netlist.connect
  rw [h.getPin p]
  refine .bind_same fun pin => ?_
  have hrest : Checked.Alike Eq Resembles
      (do discard <| nl.getNet n; return nl.attach n p)
      (do discard <| nl'.getNet n; return nl'.attach n p) :=
    (h.getNet n).discard.bind fun _ _ _ => .ok (h.attach n p)
  dsimp only
  split
  · exact .ok h
  · cases pin.net with
    | none => exact hrest
    | some m => exact (h.getNet m).discard.bind fun _ _ _ => hrest

theorem connectSource (n : NetId) (p : PinId) :
    Checked.Alike Eq Resembles (nl.connectSource n p) (nl'.connectSource n p) := by
  unfold Netlist.connectSource
  refine (h.connect n p).bind fun joined joined' hjoined => ?_
  exact (hjoined.getNet n).discard.bind fun _ _ _ => .ok (h.attachSource n p)

end Resembles

/-! ### Bringing the constants up to date -/

theorem resembles_updateStatus (nl : Netlist) (isVcc : Bool) :
    nl.Resembles (nl.modifyNet (staticNet isVcc) Net.updateStatus) := by
  have hconstant : (staticNet isVcc).index = vcc.index ∨ (staticNet isVcc).index = gnd.index := by
    cases isVcc
    · exact .inr rfl
    · exact .inl rfl
  refine congrArg (fun nets => { nl with nets }) (Array.ext_getElem? fun i => ?_)
  simp only [modifyNet, Array.getElem?_mapIdx, Array.getElem?_modify]
  by_cases hi : (staticNet isVcc).index = i
  · subst hi
    simp only [if_pos hconstant, if_true, Option.map_map]
    congr 1
    funext net
    cases net <;> rfl
  · rw [if_neg hi]

/-- With both constants brought up to date, it does not matter what their status was. -/
theorem settle_blur (nl : Netlist) :
    (nl.blur.modifyNet vcc Net.updateStatus).modifyNet gnd Net.updateStatus =
      (nl.modifyNet vcc Net.updateStatus).modifyNet gnd Net.updateStatus := by
  refine congrArg (fun nets => { nl with nets }) (Array.ext_getElem? fun i => ?_)
  have hmap : ∀ net : Option Net, (net.map Net.blur).map Net.updateStatus =
      net.map Net.updateStatus := by
    intro net
    cases net <;> rfl
  simp only [blur, modifyNet, Array.getElem?_mapIdx, Array.getElem?_modify]
  cases nl.nets[i]? with
  | none => simp
  | some net =>
    by_cases hgnd : gnd.index = i
    · subst hgnd
      simp [hmap, vcc, gnd]
    · by_cases hvcc : vcc.index = i
      · subst hvcc
        simp [hmap, vcc, gnd]
      · have hi : ¬ (i = vcc.index ∨ i = gnd.index) := by
          rintro (rfl | rfl)
          · exact hvcc rfl
          · exact hgnd rfl
        simp only [if_neg hgnd, if_neg hvcc, if_neg hi, Option.map_some]

/-- Netlists that differ in the status of the constants only are the same once it is up to date. -/
theorem Resembles.settled {nl nl' : Netlist} (h : nl.Resembles nl') :
    (do
      let nl ← nl.updateNet vcc Net.updateStatus
      nl.updateNet gnd Net.updateStatus) =
    (do
      let nl ← nl'.updateNet vcc Net.updateStatus
      nl.updateNet gnd Net.updateStatus) := by
  have hvcc := (h.getNet vcc).discard.eq
  have hgnd := ((h.modifyNet vcc Net.blind_updateStatus).getNet gnd).discard.eq
  have hsettle := h.view (f := fun nl =>
    (nl.modifyNet vcc Net.updateStatus).modifyNet gnd Net.updateStatus) settle_blur
  unfold Netlist.updateNet
  rw [hvcc]
  cases discard (nl'.getNet vcc) with
  | error f => rfl
  | ok _ =>
    change (do discard ((nl.modifyNet vcc Net.updateStatus).getNet gnd); pure _) =
      (do discard ((nl'.modifyNet vcc Net.updateStatus).getNet gnd); pure _)
    rw [hgnd, hsettle]

abbrev AlikeTelling {α : Type} (x y : Except Fault (α × Netlist)) : Prop :=
  Checked.Alike Eq (fun a b => a.1 = b.1 ∧ a.2.Resembles b.2) x y

namespace Resembles

variable {nl nl' : Netlist} (h : nl.Resembles nl')

include h

theorem addIntrasite (n : NetId) (t : RouteTree) :
    AlikeTelling (nl.addIntrasite n t) (nl'.addIntrasite n t) := by
  unfold Netlist.addIntrasite
  refine (h.getNet n).bind fun net net' hnet => ?_
  exact .ok ⟨hnet.intrasiteIndex t, h.modifyNet n (Net.blind_addIntrasite t)⟩

/-! ### Ports -/

theorem insertBuffer (name : String) :
    (nl.insertBuffer name).1 = (nl'.insertBuffer name).1 ∧
      (nl.insertBuffer name).2.1 = (nl'.insertBuffer name).2.1 ∧
      (nl.insertBuffer name).2.2.Resembles (nl'.insertBuffer name).2.2 := by
  unfold Netlist.insertBuffer
  rw [h.nextPin]
  exact ⟨rfl, rfl, h.addBuffer name⟩

theorem isDrivenByBoundary {net net' : Net} (hnet : net.Resembles net') :
    nl.isDrivenByBoundary net = nl'.isDrivenByBoundary net' := by
  unfold Netlist.isDrivenByBoundary
  rw [hnet.source]
  cases net'.source with
  | none => rfl
  | some p =>
    dsimp only
    rw [h.getPin p]
    simp only [h.getCell]

theorem driveFromBoundary (port : String) (old : Option NetId) (q : PinId) :
    Checked.Alike Eq Resembles (nl.driveFromBoundary port old q)
      (nl'.driveFromBoundary port old q) := by
  have hsink : ∀ (n : NetId) {nl nl' : Netlist}, nl.Resembles nl' →
      let buffer := nl.insertBuffer ("IN_BUF_Inserted_" ++ port)
      let buffer' := nl'.insertBuffer ("IN_BUF_Inserted_" ++ port)
      Checked.Alike Eq Resembles
        (do
          if (← nl.getNet n).fanOut = 0 then buffer.2.2.connect n buffer.1 else return nl)
        (do
          if (← nl'.getNet n).fanOut = 0 then buffer'.2.2.connect n buffer'.1 else return nl') := by
    intro n nl nl' h
    refine (h.getNet n).bind fun net net' hnet => ?_
    rw [hnet.fanOut]
    split
    · obtain ⟨hinput, -, hbuffer⟩ := h.insertBuffer ("IN_BUF_Inserted_" ++ port)
      rw [hinput]
      exact hbuffer.connect n _
    · exact .ok h
  unfold Netlist.driveFromBoundary
  cases old with
  | some n => exact (h.connectSource n q).bind fun _ _ hjoined => hsink n hjoined
  | none =>
    dsimp only
    rw [h.nextNet]
    exact ((h.addNet port .wire).connectSource _ q).bind fun _ _ hjoined => hsink _ hjoined

theorem sinkAtBoundary (multiPortNets : KeySet NetId) (port : String) (old : Option NetId)
    (q : PinId) : Checked.Alike Eq Resembles (nl.sinkAtBoundary multiPortNets port old q)
      (nl'.sinkAtBoundary multiPortNets port old q) := by
  unfold Netlist.sinkAtBoundary
  refine (h.getNet _).bind fun net net' hnet => ?_
  rw [h.isDrivenByBoundary hnet, hnet.isStatic, hnet.name]
  refine .bind_same fun driven => ?_
  dsimp only
  split
  · obtain ⟨hinput, houtput, hbuffer⟩ := h.insertBuffer (net'.name ++ "_InsertedInst_" ++ port)
    rw [hinput, houtput]
    refine (hbuffer.connect _ _).bind fun joined joined' hjoined => ?_
    have hadded := hjoined.addNet (net'.name ++ "_InsertedNet_" ++ port) .wire
    rw [hjoined.nextNet]
    exact (hadded.connect _ _).bind fun _ _ hlast => hlast.connect _ q
  · exact h.connect _ q

theorem addPartitionPin (multiPortNets : KeySet NetId) (port : CellId) (p : PinId) (wire : Wire)
    (isSource : Bool) :
    AlikeTelling (nl.addPartitionPin multiPortNets port p wire isSource)
      (nl'.addPartitionPin multiPortNets port p wire isSource) := by
  unfold Netlist.addPartitionPin
  rw [h.getCell port, h.getPin p, h.nextPin]
  refine .bind_same fun cell => .bind_same fun pin => ?_
  refine (h.newPin port pin.name _ _).bind fun added added' hadded => ?_
  have hoff : Checked.Alike Eq Resembles (pin.net.elim (pure added) fun n => added.disconnect n p)
      (pin.net.elim (pure added') fun n => added'.disconnect n p) := by
    cases pin.net with
    | none => exact .ok hadded
    | some n => exact hadded.disconnect n p
  refine hoff.bind fun off off' hoff => ?_
  cases isSource with
  | true => exact (hoff.driveFromBoundary _ _ _).bind fun _ _ hlast => .ok ⟨rfl, hlast⟩
  | false => exact (hoff.sinkAtBoundary _ _ _ _).bind fun _ _ hlast => .ok ⟨rfl, hlast⟩

theorem dissolve (n m : NetId) :
    Checked.Alike Eq Resembles (nl.dissolve n m) (nl'.dissolve n m) := by
  unfold Netlist.dissolve
  refine (h.getNet n).bind fun net net' hnet => ?_
  rw [hnet.pins]
  have hmoved : Checked.Alike Eq Resembles (net'.pins.foldlM (fun nl p => nl.connect m p) nl)
      (net'.pins.foldlM (fun nl p => nl.connect m p) nl') :=
    .foldlM (fun p _ nl nl' h => h.connect m p) h
  exact hmoved.bind fun _ _ hlast => .ok (hlast.removeNet n)

theorem tiePort (static : NetId) (port : CellId) (p : PinId) :
    Checked.Alike Eq Resembles (nl.tiePort static port p) (nl'.tiePort static port p) := by
  have hrest : ∀ (pin : Pin) {nl nl' : Netlist}, nl.Resembles nl' → Checked.Alike Eq Resembles
      (do
        let q := nl.nextPin
        let nl ← nl.newPin port pin.name .input (.partition none)
        nl.connect static q)
      (do
        let q := nl'.nextPin
        let nl ← nl'.newPin port pin.name .input (.partition none)
        nl.connect static q) := by
    intro pin nl nl' h
    rw [h.nextPin]
    exact (h.newPin port pin.name _ _).bind fun _ _ hadded => hadded.connect static _
  unfold Netlist.tiePort
  rw [h.getPin p]
  refine .bind_same fun pin => ?_
  cases pin.net with
  | none => exact hrest pin h
  | some n =>
    refine (h.disconnect n p).bind fun off off' hoff => ?_
    split
    · exact hrest pin hoff
    · exact (hoff.dissolve n static).bind fun _ _ hfreed => hrest pin hfreed

end Resembles

end Netlist

end Fabric
