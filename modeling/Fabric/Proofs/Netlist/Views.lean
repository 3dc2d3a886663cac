import Fabric.Netlist.Edit
import Fabric.Proofs.Checked
/-!
# What changes of a netlist do to its views

A netlist is looked at through its cells, its pins, its nets and the net that a pin is on. Each
change has one equation for each view that it touches, so that nothing later opens a change.
-/

namespace Fabric.Netlist

variable {nl nl' : Netlist}

def netOf? (nl : Netlist) (p : PinId) : Option NetId := (nl.pin? p).bind Pin.net

theorem netOf?_eq {p : PinId} {pin : Pin} (hp : nl.pin? p = some pin) : nl.netOf? p = pin.net := by
  simp [netOf?, hp]

theorem exists_pin_of_netOf? {p : PinId} {n : NetId} (h : nl.netOf? p = some n) :
    ∃ pin, nl.pin? p = some pin ∧ pin.net = some n :=
  Option.bind_eq_some_iff.1 h

/-- What is there after a change of one resource comes from what was there before. -/
theorem exists_of_ite_map {α : Type} {c : Prop} [Decidable c] {f : α → α} {o : Option α} {a' : α}
    (h : (if c then o.map f else o) = some a') : ∃ a, o = some a ∧ a' = if c then f a else a := by
  split at h
  next hc =>
    obtain ⟨a, ha, rfl⟩ := Option.map_eq_some_iff.1 h
    exact ⟨a, ha, (if_pos hc).symm⟩
  next hc => exact ⟨a', h, (if_neg hc).symm⟩

theorem isSome_ite_map {α : Type} {c : Prop} [Decidable c] {f : α → α} {o : Option α} :
    (if c then o.map f else o).isSome = o.isSome := by
  split <;> simp

/-! ## Single resources -/

section modify

variable (nl)

@[simp] theorem pin?_modifyNet (n : NetId) (f : Net → Net) (p : PinId) :
    (nl.modifyNet n f).pin? p = nl.pin? p := rfl

@[simp] theorem cell?_modifyNet (n : NetId) (f : Net → Net) (c : CellId) :
    (nl.modifyNet n f).cell? c = nl.cell? c := rfl

@[simp] theorem pinAt?_modifyNet (n : NetId) (f : Net → Net) (b : BelPinId) :
    (nl.modifyNet n f).pinAt? b = nl.pinAt? b := rfl

@[simp] theorem netOf?_modifyNet (n : NetId) (f : Net → Net) (p : PinId) :
    (nl.modifyNet n f).netOf? p = nl.netOf? p := rfl

theorem net?_modifyNet (n : NetId) (f : Net → Net) (m : NetId) :
    (nl.modifyNet n f).net? m = if m = n then (nl.net? m).map f else nl.net? m := by
  simp only [modifyNet, net?, Array.getElem?_modify, Key.ext_iff]
  by_cases h : n.index = m.index
  · rw [if_pos h, if_pos h.symm, Option.join_map_eq_map_join]
  · rw [if_neg h, if_neg (Ne.symm h)]

theorem modifyNet_id (n : NetId) : (nl.modifyNet n fun net => net) = nl := by
  have hnets : (nl.nets.modify n.index fun net => net) = nl.nets := by
    refine Array.ext_getElem? fun i => ?_
    rw [Array.getElem?_modify]
    split <;> simp
  unfold modifyNet
  rw [Option.map_id_fun']
  exact congrArg (fun nets => { nl with nets }) hnets

theorem modifyNet_congr {n : NetId} {f g : Net → Net}
    (h : ∀ net, nl.net? n = some net → f net = g net) : nl.modifyNet n f = nl.modifyNet n g := by
  have hnets : nl.nets.modify n.index (Option.map f) = nl.nets.modify n.index (Option.map g) := by
    refine Array.ext_getElem? fun i => ?_
    simp only [Array.getElem?_modify]
    split
    next hi =>
      subst hi
      rcases hnet : nl.nets[n.index]? with _ | _ | net
      · rfl
      · rfl
      · simp [h net (by rw [net?, hnet]; rfl)]
    next => rfl
  exact congrArg (fun nets => { nl with nets }) hnets

theorem modifyNet_modifyNet (n : NetId) (f g : Net → Net) :
    (nl.modifyNet n f).modifyNet n g = nl.modifyNet n fun net => g (f net) := by
  have hnets : (nl.nets.modify n.index (Option.map f)).modify n.index (Option.map g) =
      nl.nets.modify n.index (Option.map fun net => g (f net)) := by
    refine Array.ext_getElem? fun i => ?_
    simp only [Array.getElem?_modify]
    split
    · rw [Option.map_map]
      congr 1
      funext o
      cases o <;> rfl
    · rfl
  exact congrArg (fun nets => { nl with nets }) hnets

theorem pin?_modifyPin (p : PinId) (f : Pin → Pin) (q : PinId) :
    (nl.modifyPin p f).pin? q = if q = p then (nl.pin? q).map f else nl.pin? q := by
  simp only [modifyPin, pin?, Array.getElem?_modify, Key.ext_iff, eq_comm]

@[simp] theorem netOf?_modifyCell (c : CellId) (f : Cell → Cell) (p : PinId) :
    (nl.modifyCell c f).netOf? p = nl.netOf? p := rfl

theorem cell?_modifyCell (c : CellId) (f : Cell → Cell) (e : CellId) :
    (nl.modifyCell c f).cell? e = if e = c then (nl.cell? e).map f else nl.cell? e := by
  simp only [modifyCell, cell?, Array.getElem?_modify, Key.ext_iff, eq_comm]

@[simp] theorem net?_setPinNet (p : PinId) (n : Option NetId) (m : NetId) :
    (nl.setPinNet p n).net? m = nl.net? m := rfl

@[simp] theorem cell?_setPinNet (p : PinId) (n : Option NetId) (c : CellId) :
    (nl.setPinNet p n).cell? c = nl.cell? c := rfl

@[simp] theorem pinAt?_setPinNet (p : PinId) (n : Option NetId) (b : BelPinId) :
    (nl.setPinNet p n).pinAt? b = nl.pinAt? b := rfl

theorem pin?_setPinNet (p : PinId) (n : Option NetId) (q : PinId) :
    (nl.setPinNet p n).pin? q =
      if q = p then (nl.pin? q).map fun pin => { pin with net := n } else nl.pin? q :=
  pin?_modifyPin ..

end modify

/-! ## Cells and pins -/

theorem pin?_nextPin (nl : Netlist) : nl.pin? nl.nextPin = none := by
  simp [pin?, nextPin]

theorem net?_nextNet (nl : Netlist) : nl.net? nl.nextNet = none := by
  simp [net?, nextNet]

theorem cell?_nextCell (nl : Netlist) : nl.cell? nl.nextCell = none := by
  simp [cell?, nextCell]

section add

variable (nl)

theorem cell?_addCell (name type : String) (c : CellId) :
    (nl.addCell name type).cell? c =
      if c = nl.nextCell then some { name, type } else nl.cell? c := by
  simp only [addCell, cell?, nextCell, Array.getElem?_push, Key.ext_iff]

theorem isSome_cell?_addCell {c : CellId} (hc : (nl.cell? c).isSome) (name type : String) :
    ((nl.addCell name type).cell? c).isSome := by
  rw [cell?_addCell]
  split
  · rfl
  · exact hc

theorem isSome_cell?_addCell_new (name type : String) :
    ((nl.addCell name type).cell? nl.nextCell).isSome := by
  rw [cell?_addCell, if_pos rfl]
  rfl

theorem pin?_addPin (c : CellId) (name : String) (dir : PinDir) (kind : PinKind) (p : PinId) :
    (nl.addPin c name dir kind).pin? p =
      if p = nl.nextPin then some { name, cell := c, dir, kind } else nl.pin? p := by
  simp only [addPin, pin?, nextPin, Array.getElem?_push, Key.ext_iff]

theorem pin?_addPin_of_some {p : PinId} {pin : Pin} (hp : nl.pin? p = some pin) (c : CellId)
    (name : String) (dir : PinDir) (kind : PinKind) :
    (nl.addPin c name dir kind).pin? p = some pin := by
  rw [pin?_addPin, if_neg]
  · exact hp
  · rintro rfl
    rw [pin?_nextPin] at hp
    cases hp

theorem isSome_pin?_addPin {p : PinId} (hp : (nl.pin? p).isSome) (c : CellId) (name : String)
    (dir : PinDir) (kind : PinKind) : ((nl.addPin c name dir kind).pin? p).isSome := by
  rw [pin?_addPin]
  split
  · rfl
  · exact hp

theorem isSome_pin?_addPin_new (c : CellId) (name : String) (dir : PinDir) (kind : PinKind) :
    ((nl.addPin c name dir kind).pin? nl.nextPin).isSome := by
  rw [pin?_addPin, if_pos rfl]
  rfl

theorem isSome_pin?_addPseudoPin_new (c : CellId) (name : String) (dir : PinDir) :
    ((nl.addPseudoPin c name dir).pin? nl.nextPin).isSome :=
  isSome_pin?_addPin_new ..

theorem cell?_addPin (c : CellId) (name : String) (dir : PinDir) (kind : PinKind) (e : CellId) :
    (nl.addPin c name dir kind).cell? e =
      if e = c then
        (nl.cell? e).map fun cell =>
          if kind.isPartition then { cell with partitionPin := some nl.nextPin }
          else { cell with pins := cell.pins ++ [nl.nextPin] }
      else nl.cell? e :=
  cell?_modifyCell ..

@[simp] theorem netOf?_addPin (c : CellId) (name : String) (dir : PinDir) (kind : PinKind)
    (p : PinId) : (nl.addPin c name dir kind).netOf? p = nl.netOf? p := by
  unfold netOf?
  rw [pin?_addPin]
  by_cases hp : p = nl.nextPin
  · rw [if_pos hp, hp, pin?_nextPin]
    rfl
  · rw [if_neg hp]

@[simp] theorem netOf?_addPseudoPin (c : CellId) (name : String) (dir : PinDir) (p : PinId) :
    (nl.addPseudoPin c name dir).netOf? p = nl.netOf? p :=
  netOf?_addPin ..

@[simp] theorem netOf?_addBuffer (name : String) (p : PinId) :
    (nl.addBuffer name).netOf? p = nl.netOf? p := by
  unfold addBuffer
  simp only [netOf?_modifyCell, netOf?_addPin]
  rfl

theorem pin?_addBuffer (name : String) (p : PinId) :
    (nl.addBuffer name).pin? p =
      if p = ⟨nl.nextPin.index + 1⟩ then
        some { name := "O", cell := nl.nextCell, dir := .output, kind := .regular }
      else if p = nl.nextPin then
        some { name := "I0", cell := nl.nextCell, dir := .input, kind := .regular }
      else nl.pin? p := by
  have hpins : (nl.addBuffer name).pins =
      (nl.pins.push { name := "I0", cell := nl.nextCell, dir := .input, kind := .regular }).push
        { name := "O", cell := nl.nextCell, dir := .output, kind := .regular } := rfl
  simp only [pin?, hpins, nextPin, Array.getElem?_push, Array.size_push, Key.ext_iff]

@[simp] theorem netOf?_mapPin (p : PinId) (b : BelPinId) (q : PinId) :
    (nl.mapPin p b).netOf? q = nl.netOf? q := by
  have hpin : (nl.mapPin p b).pin? q =
      if q = p then (nl.pin? q).map fun pin => { pin with belPins := pin.belPins ++ [b] }
      else nl.pin? q := pin?_modifyPin ..
  unfold netOf?
  rw [hpin]
  split
  · cases nl.pin? q <;> rfl
  · rfl

theorem pinAt?_mapPin (p : PinId) (b c : BelPinId) :
    (nl.mapPin p b).pinAt? c = if c = b then some p else nl.pinAt? c := by
  simp only [mapPin, pinAt?, modifyPin, Std.ExtTreeMap.getElem?_insert,
    Std.LawfulEqCmp.compare_eq_iff_eq, @eq_comm _ c b]

/-! ## Nets -/

@[simp] theorem netOf?_addNet (name : String) (kind : NetKind) (p : PinId) :
    (nl.addNet name kind).netOf? p = nl.netOf? p := rfl

theorem net?_addNet (name : String) (kind : NetKind) (n : NetId) :
    (nl.addNet name kind).net? n =
      if n = nl.nextNet then some { name, kind } else nl.net? n := by
  simp only [addNet, net?, nextNet, Array.getElem?_push, Key.ext_iff]
  split <;> rfl

theorem isSome_net?_addNet {n : NetId} (hn : (nl.net? n).isSome) (name : String)
    (kind : NetKind) : ((nl.addNet name kind).net? n).isSome := by
  rw [net?_addNet]
  split
  · rfl
  · exact hn

theorem isSome_net?_addNet_new (name : String) (kind : NetKind) :
    ((nl.addNet name kind).net? nl.nextNet).isSome := by
  rw [net?_addNet, if_pos rfl]
  rfl

end add

section rename

variable (nl)

theorem net?_renameNet (n : NetId) (name : String) (m : NetId) :
    (nl.renameNet n name).net? m =
      if m = n then (nl.net? m).map fun net => { net with name } else nl.net? m := by
  unfold renameNet
  split
  next h =>
    split
    next hm => rw [hm, h]; rfl
    next => rfl
  next => exact net?_modifyNet ..

@[simp] theorem pin?_renameNet (n : NetId) (name : String) (p : PinId) :
    (nl.renameNet n name).pin? p = nl.pin? p := by
  unfold renameNet
  split <;> rfl

@[simp] theorem netOf?_renameNet (n : NetId) (name : String) (p : PinId) :
    (nl.renameNet n name).netOf? p = nl.netOf? p := by
  simp [netOf?]

end rename

/-! ## Taking pins off nets -/

section detach

variable (nl) (n : NetId) (p : PinId)

theorem net?_detach (m : NetId) :
    (nl.detach n p).net? m = if m = n then (nl.net? m).map fun net => net.removePin p
      else nl.net? m := by
  have hfreed : ∀ c : Prop, [Decidable c] →
      (if c then nl.setPinNet p none else nl).net? m = nl.net? m := by
    intro c _
    split <;> rfl
  unfold detach
  rw [net?_modifyNet, hfreed]

theorem pin?_detach (q : PinId) :
    (nl.detach n p).pin? q =
      if q = p ∧ nl.netOf? p = some n then (nl.pin? q).map fun pin => { pin with net := none }
      else nl.pin? q := by
  unfold detach netOf?
  rw [pin?_modifyNet]
  by_cases hn : (nl.pin? p).bind Pin.net = some n
  · simp [hn, pin?_setPinNet]
  · simp [hn]

theorem netOf?_detach (q : PinId) :
    (nl.detach n p).netOf? q = if q = p ∧ nl.netOf? p = some n then none else nl.netOf? q := by
  by_cases h : q = p ∧ nl.netOf? p = some n
  · rw [if_pos h, netOf?, pin?_detach, if_pos h]
    cases nl.pin? q <;> rfl
  · rw [if_neg h, netOf?, pin?_detach, if_neg h]
    rfl

@[simp] theorem cell?_detach (c : CellId) : (nl.detach n p).cell? c = nl.cell? c := by
  unfold detach
  rw [cell?_modifyNet]
  split <;> rfl

@[simp] theorem pinAt?_detach (b : BelPinId) : (nl.detach n p).pinAt? b = nl.pinAt? b := by
  unfold detach
  rw [pinAt?_modifyNet]
  split <;> rfl

end detach

theorem pin?_foldl_setPinNet (ps : List PinId) (nl : Netlist) (q : PinId) :
    (ps.foldl (fun nl p => nl.setPinNet p none) nl).pin? q =
      if q ∈ ps then (nl.pin? q).map fun pin => { pin with net := none } else nl.pin? q := by
  induction ps generalizing nl with
  | nil => simp
  | cons p ps ih =>
    rw [List.foldl_cons, ih, pin?_setPinNet]
    by_cases hp : q = p
    · cases nl.pin? q <;> simp [hp]
    · simp [hp]

theorem foldl_setPinNet_eq (ps : List PinId) (nl : Netlist) :
    ps.foldl (fun nl p => nl.setPinNet p none) nl =
      { nl with pins := (ps.foldl (fun nl p => nl.setPinNet p none) nl).pins } := by
  induction ps generalizing nl with
  | nil => rfl
  | cons p ps ih => exact ih (nl.setPinNet p none)

theorem removeNet_of_no_net {n : NetId} (hn : nl.net? n = none) : nl.removeNet n = nl := by
  unfold removeNet
  rw [hn]

section removeNet

variable (nl) (n : NetId)

theorem net?_removeNet (m : NetId) :
    (nl.removeNet n).net? m = if m = n then none else nl.net? m := by
  unfold removeNet
  split
  next h =>
    split
    next hm => rw [hm, h]
    next => rfl
  next net h =>
    simp only [net?, Array.getElem?_setIfInBounds, Key.ext_iff, @eq_comm _ m.index]
    split
    · split <;> rfl
    · rfl

theorem pin?_removeNet (q : PinId) :
    (nl.removeNet n).pin? q =
      if ∃ net, nl.net? n = some net ∧ q ∈ net.pins then
        (nl.pin? q).map fun pin => { pin with net := none }
      else nl.pin? q := by
  unfold removeNet
  split
  next h => simp [h]
  next net h =>
    have hex : (∃ net', nl.net? n = some net' ∧ q ∈ net'.pins) ↔ q ∈ net.pins := by simp [h]
    simp only [hex]
    exact pin?_foldl_setPinNet net.pins nl q

@[simp] theorem cell?_removeNet (c : CellId) : (nl.removeNet n).cell? c = nl.cell? c := by
  unfold removeNet
  split
  · rfl
  next net h =>
    rw [foldl_setPinNet_eq]
    rfl

@[simp] theorem pinAt?_removeNet (b : BelPinId) : (nl.removeNet n).pinAt? b = nl.pinAt? b := by
  unfold removeNet
  split
  · rfl
  next net h =>
    rw [foldl_setPinNet_eq]
    rfl

theorem netOf?_removeNet {net : Net} (hn : nl.net? n = some net) (q : PinId) :
    (nl.removeNet n).netOf? q = if q ∈ net.pins then none else nl.netOf? q := by
  have hex : (∃ net', nl.net? n = some net' ∧ q ∈ net'.pins) ↔ q ∈ net.pins := by simp [hn]
  unfold netOf?
  rw [pin?_removeNet]
  simp only [hex]
  split
  · cases nl.pin? q <;> rfl
  · rfl

end removeNet

/-! ## Putting pins on nets -/

theorem attach_of_no_pin {n : NetId} {p : PinId} (hp : nl.pin? p = none) : nl.attach n p = nl := by
  unfold attach
  rw [hp]

theorem attach_of_on {n : NetId} {p : PinId} (h : nl.netOf? p = some n) : nl.attach n p = nl := by
  obtain ⟨pin, hp, hn⟩ := exists_pin_of_netOf? h
  unfold attach
  rw [hp]
  exact if_pos hn

theorem attach_of_off {n : NetId} {p : PinId} {pin : Pin} (hp : nl.pin? p = some pin)
    (h : nl.netOf? p = none) :
    nl.attach n p = (nl.setPinNet p (some n)).modifyNet n fun net => net.addPin p pin.dir := by
  rw [netOf?_eq hp] at h
  unfold attach
  rw [hp]
  simp [h]

/-- A pin that is on another net is taken off it first. -/
theorem attach_of_other {n m : NetId} {p : PinId} (h : nl.netOf? p = some m) (hm : m ≠ n) :
    nl.attach n p = (nl.detach m p).attach n p := by
  obtain ⟨pin, hp, hn⟩ := exists_pin_of_netOf? h
  have hp' : (nl.detach m p).pin? p = some { pin with net := none } := by
    rw [pin?_detach, if_pos ⟨rfl, h⟩, hp]
    rfl
  rw [attach_of_off hp' (by rw [netOf?_eq hp'])]
  unfold attach
  rw [hp]
  simp [hn, hm]

section attach

variable (nl) (n : NetId) (p : PinId)

@[simp] theorem cell?_attach (c : CellId) : (nl.attach n p).cell? c = nl.cell? c := by
  unfold attach
  split
  · rfl
  · split
    · rfl
    next pin _ _ =>
      rw [cell?_modifyNet, cell?_setPinNet]
      cases pin.net with
      | none => rfl
      | some m => exact cell?_detach ..

@[simp] theorem pinAt?_attach (b : BelPinId) : (nl.attach n p).pinAt? b = nl.pinAt? b := by
  unfold attach
  split
  · rfl
  · split
    · rfl
    next pin _ _ =>
      rw [pinAt?_modifyNet, pinAt?_setPinNet]
      cases pin.net with
      | none => rfl
      | some m => exact pinAt?_detach ..

end attach

section attach_of_off

variable {n : NetId} {p : PinId} {pin : Pin}

theorem net?_attach_of_off (hp : nl.pin? p = some pin) (h : nl.netOf? p = none) (m : NetId) :
    (nl.attach n p).net? m = if m = n then (nl.net? m).map fun net => net.addPin p pin.dir
      else nl.net? m := by
  rw [attach_of_off hp h, net?_modifyNet, net?_setPinNet]

theorem pin?_attach_of_off (hp : nl.pin? p = some pin) (h : nl.netOf? p = none) (q : PinId) :
    (nl.attach n p).pin? q = if q = p then some { pin with net := some n } else nl.pin? q := by
  rw [attach_of_off hp h, pin?_modifyNet, pin?_setPinNet]
  split
  next hq => rw [hq, hp]; rfl
  next => rfl

end attach_of_off

theorem netOf?_attach {n : NetId} {p : PinId} {pin : Pin} (hp : nl.pin? p = some pin) (q : PinId) :
    (nl.attach n p).netOf? q = if q = p then some n else nl.netOf? q := by
  have off : ∀ {nl : Netlist} {pin}, nl.pin? p = some pin → nl.netOf? p = none →
      (nl.attach n p).netOf? q = if q = p then some n else nl.netOf? q := by
    intro nl pin hp h
    unfold netOf?
    rw [pin?_attach_of_off hp h]
    split <;> rfl
  cases h : nl.netOf? p with
  | none => exact off hp h
  | some m =>
    by_cases hm : m = n
    · rw [attach_of_on (hm ▸ h)]
      split
      next hq => rw [hq, h, hm]
      next => rfl
    · have hp' : (nl.detach m p).pin? p = some { pin with net := none } := by
        rw [pin?_detach, if_pos ⟨rfl, h⟩, hp]
        rfl
      rw [attach_of_other h hm, off hp' (netOf?_eq hp'), netOf?_detach]
      by_cases hq : q = p
      · rw [if_pos hq, if_pos hq]
      · rw [if_neg hq, if_neg hq, if_neg fun h => hq h.1]

/-! ## Checked changes

A checked change is the change itself, made when the numbers belong to something. -/

section checked

variable {n : NetId} {p : PinId} {c : CellId}

theorem getNet_eq_ok {net : Net} : nl.getNet n = .ok net ↔ nl.net? n = some net := by
  unfold getNet
  cases nl.net? n <;> simp

theorem getPin_eq_ok {pin : Pin} : nl.getPin p = .ok pin ↔ nl.pin? p = some pin := by
  unfold getPin
  cases nl.pin? p <;> simp

theorem getCell_eq_ok {cell : Cell} : nl.getCell c = .ok cell ↔ nl.cell? c = some cell := by
  unfold getCell
  cases nl.cell? c <;> simp

theorem updateNet_eq_ok {f : Net → Net} :
    nl.updateNet n f = .ok nl' ↔ (nl.net? n).isSome ∧ nl' = nl.modifyNet n f := by
  unfold updateNet
  simp only [Checked.bind_eq_ok, Checked.discard_eq_ok, getNet_eq_ok, Checked.pure_eq_ok,
    Option.isSome_iff_exists, exists_const]

theorem newPin_eq_ok {name : String} {dir : PinDir} {kind : PinKind} :
    nl.newPin c name dir kind = .ok nl' ↔
      (nl.cell? c).isSome ∧ nl' = nl.addPin c name dir kind := by
  unfold newPin
  simp only [Checked.bind_eq_ok, Checked.discard_eq_ok, getCell_eq_ok, Checked.pure_eq_ok,
    Option.isSome_iff_exists, exists_const]

theorem newPseudoPin_eq_ok {name : String} {dir : PinDir} :
    nl.newPseudoPin c name dir = .ok nl' ↔
      (nl.cell? c).isSome ∧ nl' = nl.addPseudoPin c name dir := by
  unfold newPseudoPin
  simp only [Checked.bind_eq_ok, Checked.discard_eq_ok, getCell_eq_ok, Checked.pure_eq_ok,
    Option.isSome_iff_exists, exists_const]

theorem mapToBelPin_eq_ok {b : BelPinId} :
    nl.mapToBelPin p b = .ok nl' ↔ (nl.pin? p).isSome ∧ nl' = nl.mapPin p b := by
  unfold mapToBelPin
  simp only [Checked.bind_eq_ok, Checked.discard_eq_ok, getPin_eq_ok, Checked.pure_eq_ok,
    Option.isSome_iff_exists, exists_const]

theorem rename_eq_ok {name : String} :
    nl.rename n name = .ok nl' ↔ (nl.net? n).isSome ∧ nl' = nl.renameNet n name := by
  unfold rename
  simp only [Checked.bind_eq_ok, Checked.discard_eq_ok, getNet_eq_ok, Checked.pure_eq_ok,
    Option.isSome_iff_exists, exists_const]

theorem disconnect_eq_ok :
    nl.disconnect n p = .ok nl' ↔
      (nl.pin? p).isSome ∧ (nl.net? n).isSome ∧ nl' = nl.detach n p := by
  unfold disconnect
  simp only [Checked.bind_eq_ok, Checked.discard_eq_ok, getNet_eq_ok, getPin_eq_ok,
    Checked.pure_eq_ok, Option.isSome_iff_exists, exists_const]

theorem connect_eq_ok :
    nl.connect n p = .ok nl' ↔
      (nl.pin? p).isSome ∧ (nl.netOf? p = some n ∨
        (∀ m, nl.netOf? p = some m → (nl.net? m).isSome) ∧ (nl.net? n).isSome) ∧
      nl' = nl.attach n p := by
  cases hp : nl.pin? p with
  | none => simp [connect, getPin, hp, bind, Except.bind]
  | some pin =>
    have hof : nl.netOf? p = pin.net := netOf?_eq hp
    unfold connect
    simp only [hof, Checked.bind_eq_ok, getPin_eq_ok, hp, Option.some.injEq, exists_eq_left']
    cases hnet : pin.net with
    | none =>
      rw [if_neg (by simp)]
      simp only [Checked.bind_eq_ok, Checked.discard_eq_ok, getNet_eq_ok, Checked.pure_eq_ok,
        Option.isSome_iff_exists, exists_const]
      simp
    | some m =>
      by_cases hm : m = n
      · rw [if_pos (by simp [hm])]
        simp [hm, Checked.pure_eq_ok, attach_of_on (hof.trans (hnet.trans (congrArg some hm)))]
      · rw [if_neg (by simp [hm])]
        simp only [Checked.bind_eq_ok, Checked.discard_eq_ok, getNet_eq_ok, Checked.pure_eq_ok,
          Option.isSome_iff_exists, exists_const]
        simp [hm, and_assoc]

theorem connectSource_eq_ok :
    nl.connectSource n p = .ok nl' ↔
      ∃ joined, nl.connect n p = .ok joined ∧ (joined.net? n).isSome ∧
        nl' = nl.attachSource n p := by
  unfold connectSource
  simp only [Checked.bind_eq_ok, Checked.discard_eq_ok, getNet_eq_ok, Checked.pure_eq_ok,
    Option.isSome_iff_exists, exists_const]

theorem addIntrasite_eq_ok {t : RouteTree} {i : Nat} :
    nl.addIntrasite n t = .ok (i, nl') ↔
      ∃ net, nl.net? n = some net ∧ i = net.intrasiteIndex t ∧
        nl' = nl.modifyNet n fun net => net.addIntrasite t := by
  unfold addIntrasite
  simp only [Checked.bind_eq_ok, getNet_eq_ok]
  simp [Checked.pure_eq_ok]

end checked

/-! ## Getting through

Where the numbers belong to something, or a fault is allowed, a checked change comes to the
change. -/

section yields

open Checked (Yields)

variable {F : Prop} {n : NetId} {p : PinId} {c : CellId}

theorem yields_getNet (hn : F ∨ (nl.net? n).isSome) :
    Yields F (nl.getNet n) fun net => nl.net? n = some net :=
  .of_eq (hn.imp_right fun hn => (Option.isSome_iff_exists.1 hn).imp fun _ => getNet_eq_ok.2)
    fun _ => getNet_eq_ok.1

theorem yields_getPin (hp : F ∨ (nl.pin? p).isSome) :
    Yields F (nl.getPin p) fun pin => nl.pin? p = some pin :=
  .of_eq (hp.imp_right fun hp => (Option.isSome_iff_exists.1 hp).imp fun _ => getPin_eq_ok.2)
    fun _ => getPin_eq_ok.1

theorem yields_getCell (hc : F ∨ (nl.cell? c).isSome) :
    Yields F (nl.getCell c) fun cell => nl.cell? c = some cell :=
  .of_eq (hc.imp_right fun hc => (Option.isSome_iff_exists.1 hc).imp fun _ => getCell_eq_ok.2)
    fun _ => getCell_eq_ok.1

theorem yields_updateNet (hn : F ∨ (nl.net? n).isSome) (f : Net → Net) :
    Yields F (nl.updateNet n f) fun nl' => (nl.net? n).isSome ∧ nl' = nl.modifyNet n f :=
  .of_eq (hn.imp_right fun hn => ⟨_, updateNet_eq_ok.2 ⟨hn, rfl⟩⟩) fun _ => updateNet_eq_ok.1

theorem yields_newPin (hc : F ∨ (nl.cell? c).isSome) (name : String) (dir : PinDir)
    (kind : PinKind) : Yields F (nl.newPin c name dir kind) fun nl' =>
      (nl.cell? c).isSome ∧ nl' = nl.addPin c name dir kind :=
  .of_eq (hc.imp_right fun hc => ⟨_, newPin_eq_ok.2 ⟨hc, rfl⟩⟩) fun _ => newPin_eq_ok.1

theorem yields_disconnect (hn : F ∨ (nl.net? n).isSome) (hp : F ∨ (nl.pin? p).isSome) :
    Yields F (nl.disconnect n p) fun nl' => nl' = nl.detach n p := by
  refine .of_eq ?_ fun nl' h => (disconnect_eq_ok.1 h).2.2
  rcases hn with hF | hn
  · exact .inl hF
  · exact hp.imp_right fun hp => ⟨_, disconnect_eq_ok.2 ⟨hp, hn, rfl⟩⟩

end yields

end Fabric.Netlist
