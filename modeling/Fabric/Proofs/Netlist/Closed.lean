import Fabric.Proofs.Netlist.Consistent
/-!
# Numbers belong to something

In a closed netlist every number that a table, a cell, a pin or a BEL leads to is that of a
resource that is there, and the constants are there. So looking a number up never faults.
-/

namespace Fabric.Netlist

structure Closed (nl : Netlist) : Prop extends nl.Consistent where
  constants : ∀ isVcc, (nl.net? (staticNet isVcc)).isSome
  named_cell : ∀ name c, nl.cellNamed? name = some c → (nl.cell? c).isSome
  placed_cell : ∀ b c, nl.cellAt? b = some c → (nl.cell? c).isSome
  cell_of_pin : ∀ p pin, nl.pin? p = some pin → (nl.cell? pin.cell).isSome
  mapped_pin : ∀ b p, nl.pinAt? b = some p → (nl.pin? p).isSome
  /-- A name leads to the net of this name. The constants also keep other names. -/
  named_net : ∀ name n, nl.netNamed? name = some n →
    ∃ net, nl.net? n = some net ∧ (net.name = name ∨ ∃ isVcc, n = staticNet isVcc)

structure Rejoins (nl nl' : Netlist) : Prop where
  cells : nl'.cells = nl.cells
  cellIndex : nl'.cellIndex = nl.cellIndex
  cellOfBel : nl'.cellOfBel = nl.cellOfBel
  pinOfBelPin : nl'.pinOfBelPin = nl.pinOfBelPin
  netIndex : nl'.netIndex = nl.netIndex
  pins : ∀ p, (nl'.pin? p).map Pin.cell = (nl.pin? p).map Pin.cell
  nets : ∀ n, (nl'.net? n).map Net.name = (nl.net? n).map Net.name

variable {nl nl' nl'' : Netlist}

namespace Rejoins

theorem refl (nl : Netlist) : nl.Rejoins nl := ⟨rfl, rfl, rfl, rfl, rfl, fun _ => rfl, fun _ => rfl⟩

theorem trans (h : nl.Rejoins nl') (h' : nl'.Rejoins nl'') : nl.Rejoins nl'' where
  cells := h'.cells.trans h.cells
  cellIndex := h'.cellIndex.trans h.cellIndex
  cellOfBel := h'.cellOfBel.trans h.cellOfBel
  pinOfBelPin := h'.pinOfBelPin.trans h.pinOfBelPin
  netIndex := h'.netIndex.trans h.netIndex
  pins p := (h'.pins p).trans (h.pins p)
  nets n := (h'.nets n).trans (h.nets n)

theorem modifyNet (nl : Netlist) (n : NetId) {f : Net → Net} (hf : ∀ net, (f net).name = net.name) :
    nl.Rejoins (nl.modifyNet n f) where
  cells := rfl
  cellIndex := rfl
  cellOfBel := rfl
  pinOfBelPin := rfl
  netIndex := rfl
  pins _ := rfl
  nets m := by
    rw [net?_modifyNet]
    split
    · rw [Option.map_map, show Net.name ∘ f = Net.name from funext hf]
    · rfl

theorem setPinNet (nl : Netlist) (p : PinId) (n : Option NetId) :
    nl.Rejoins (nl.setPinNet p n) where
  cells := rfl
  cellIndex := rfl
  cellOfBel := rfl
  pinOfBelPin := rfl
  netIndex := rfl
  pins q := by
    rw [pin?_setPinNet]
    split
    · rw [Option.map_map]
      rfl
    · rfl
  nets _ := rfl

theorem detach (nl : Netlist) (n : NetId) (p : PinId) : nl.Rejoins (nl.detach n p) := by
  unfold Netlist.detach
  split
  · exact (setPinNet nl p none).trans (modifyNet _ n fun _ => rfl)
  · exact modifyNet nl n fun _ => rfl

theorem attach (nl : Netlist) (n : NetId) (p : PinId) : nl.Rejoins (nl.attach n p) := by
  unfold Netlist.attach
  split
  · exact refl nl
  next pin _ =>
    split
    · exact refl nl
    · refine trans ?_ ((setPinNet _ p (some n)).trans (modifyNet _ n fun _ => rfl))
      cases pin.net with
      | none => exact refl nl
      | some m => exact detach nl m p

theorem attachSource (nl : Netlist) (n : NetId) (p : PinId) : nl.Rejoins (nl.attachSource n p) :=
  (attach nl n p).trans (modifyNet _ n fun _ => rfl)

/-! ## What stays -/

theorem cell? (h : nl.Rejoins nl') (c : CellId) : nl'.cell? c = nl.cell? c :=
  congrArg (fun cells => cells[c.index]?) h.cells

theorem pinAt? (h : nl.Rejoins nl') (b : BelPinId) : nl'.pinAt? b = nl.pinAt? b :=
  congrArg (fun pins => pins[b]?) h.pinOfBelPin

theorem isSome_pin? (h : nl.Rejoins nl') (p : PinId) :
    (nl'.pin? p).isSome = (nl.pin? p).isSome := by
  have hmap := congrArg Option.isSome (h.pins p)
  simpa only [Option.isSome_map] using hmap

theorem isSome_net? (h : nl.Rejoins nl') (n : NetId) :
    (nl'.net? n).isSome = (nl.net? n).isSome := by
  have hmap := congrArg Option.isSome (h.nets n)
  simpa only [Option.isSome_map] using hmap

theorem exists_net (h : nl.Rejoins nl') {n : NetId} {net : Net} (hn : nl.net? n = some net) :
    ∃ net', nl'.net? n = some net' ∧ net'.name = net.name := by
  have hmap := h.nets n
  rw [hn] at hmap
  exact Option.map_eq_some_iff.1 hmap

end Rejoins

theorem Consistent.connectSource_iff (h : nl.Consistent) {n : NetId} {p : PinId} :
    nl.connectSource n p = .ok nl' ↔
      (nl.net? n).isSome ∧ (nl.pin? p).isSome ∧ nl' = nl.attachSource n p := by
  simp only [connectSource_eq_ok, h.connect_iff]
  constructor
  · rintro ⟨-, ⟨hn, hp, rfl⟩, -, rfl⟩
    exact ⟨hn, hp, rfl⟩
  · rintro ⟨hn, hp, rfl⟩
    refine ⟨_, ⟨hn, hp, rfl⟩, ?_, rfl⟩
    rw [(Rejoins.attach nl n p).isSome_net?]
    exact hn

namespace Closed

/-! ## Rejoining -/

theorem rejoin (h : nl.Closed) (hc : nl'.Consistent) (hr : nl.Rejoins nl') : nl'.Closed where
  toConsistent := hc
  constants isVcc := by
    rw [hr.isSome_net?]
    exact h.constants isVcc
  named_cell name c hname := by
    unfold cellNamed? at hname
    rw [hr.cellIndex] at hname
    rw [hr.cell?]
    exact h.named_cell name c hname
  placed_cell b c hb := by
    unfold cellAt? at hb
    rw [hr.cellOfBel] at hb
    rw [hr.cell?]
    exact h.placed_cell b c hb
  cell_of_pin p pin hpin := by
    have hmap := hr.pins p
    rw [hpin, Option.map_some, eq_comm, Option.map_eq_some_iff] at hmap
    obtain ⟨old, hold, heq⟩ := hmap
    rw [hr.cell?, ← heq]
    exact h.cell_of_pin p old hold
  mapped_pin b p hb := by
    rw [hr.pinAt?] at hb
    rw [hr.isSome_pin?]
    exact h.mapped_pin b p hb
  named_net name n hname := by
    unfold netNamed? at hname
    rw [hr.netIndex] at hname
    obtain ⟨net, hn, hnet⟩ := h.named_net name n hname
    obtain ⟨net', hn', heq⟩ := hr.exists_net hn
    exact ⟨net', hn', heq ▸ hnet⟩

theorem modifyNet (h : nl.Closed) (n : NetId) {f : Net → Net}
    (hjoins : ∀ net, (f net).joins = net.joins)
    (hname : ∀ net, (f net).name = net.name) : (nl.modifyNet n f).Closed :=
  h.rejoin (h.toConsistent.modifyNet n hjoins) (.modifyNet nl n hname)

theorem detach (h : nl.Closed) (n : NetId) (p : PinId) : (nl.detach n p).Closed :=
  h.rejoin (h.toConsistent.detach n p) (.detach nl n p)

theorem attach (h : nl.Closed) {n : NetId} (hn : (nl.net? n).isSome) (p : PinId) :
    (nl.attach n p).Closed :=
  h.rejoin (h.toConsistent.attach hn p) (.attach nl n p)

theorem attachSource (h : nl.Closed) {n : NetId} {p : PinId} (hn : (nl.net? n).isSome)
    (hp : (nl.pin? p).isSome) : (nl.attachSource n p).Closed :=
  h.rejoin (h.toConsistent.attachSource hn hp) (.attachSource nl n p)

/-! ## Adding cells and pins -/

theorem addCell (h : nl.Closed) (name type : String) : (nl.addCell name type).Closed := by
  have old : ∀ c, (nl.cell? c).isSome → ((nl.addCell name type).cell? c).isSome :=
    fun _ hc => isSome_cell?_addCell nl hc name type
  exact {
    toConsistent := h.toConsistent.addCell name type
    constants := h.constants
    named_cell := by
      intro name' c hname
      have hinsert : (if name = name' then some nl.nextCell else nl.cellNamed? name') = some c := by
        simpa only [cellNamed?, Netlist.addCell, Std.ExtTreeMap.getElem?_insert,
          Std.LawfulEqCmp.compare_eq_iff_eq] using hname
      split at hinsert
      · cases hinsert
        exact isSome_cell?_addCell_new nl name type
      · exact old c (h.named_cell name' c hinsert)
    placed_cell := fun b c hb => old c (h.placed_cell b c hb)
    cell_of_pin := fun p pin hpin => old pin.cell (h.cell_of_pin p pin hpin)
    mapped_pin := h.mapped_pin
    named_net := h.named_net }

theorem modifyCell (h : nl.Closed) (c : CellId) {f : Cell → Cell}
    (hf : ∀ cell, ∀ p ∈ (f cell).pins, p ∈ cell.pins) : (nl.modifyCell c f).Closed := by
  have old : ∀ e, (nl.cell? e).isSome → ((nl.modifyCell c f).cell? e).isSome := by
    intro e he
    rw [cell?_modifyCell, isSome_ite_map]
    exact he
  exact {
    toConsistent := h.toConsistent.modifyCell c hf
    constants := h.constants
    named_cell := fun name e hname => old e (h.named_cell name e hname)
    placed_cell := fun b e hb => old e (h.placed_cell b e hb)
    cell_of_pin := fun p pin hpin => old pin.cell (h.cell_of_pin p pin hpin)
    mapped_pin := h.mapped_pin
    named_net := h.named_net }

theorem addPin (h : nl.Closed) {c : CellId} (hc : (nl.cell? c).isSome) (name : String)
    (dir : PinDir) (kind : PinKind) : (nl.addPin c name dir kind).Closed := by
  have oldCell : ∀ e, (nl.cell? e).isSome → ((nl.addPin c name dir kind).cell? e).isSome := by
    intro e he
    rw [cell?_addPin, isSome_ite_map]
    exact he
  have oldPin : ∀ p, (nl.pin? p).isSome → ((nl.addPin c name dir kind).pin? p).isSome :=
    fun _ hp => isSome_pin?_addPin nl hp c name dir kind
  exact {
    toConsistent := h.toConsistent.addPin c name dir kind
    constants := h.constants
    named_cell := fun name' e hname => oldCell e (h.named_cell name' e hname)
    placed_cell := fun b e hb => oldCell e (h.placed_cell b e hb)
    cell_of_pin := by
      intro p pin hpin
      rw [pin?_addPin] at hpin
      split at hpin
      · cases hpin
        exact oldCell c hc
      · exact oldCell pin.cell (h.cell_of_pin p pin hpin)
    mapped_pin := fun b p hb => oldPin p (h.mapped_pin b p hb)
    named_net := h.named_net }

theorem addPseudoPin (h : nl.Closed) {c : CellId} (hc : (nl.cell? c).isSome) (name : String)
    (dir : PinDir) : (nl.addPseudoPin c name dir).Closed :=
  (h.addPin hc name dir .pseudo).modifyCell c fun _ _ hp => hp

theorem addBuffer (h : nl.Closed) (name : String) : (nl.addBuffer name).Closed := by
  have hnew := isSome_cell?_addCell_new nl name "LUT1"
  have hinput := (h.addCell name "LUT1").addPin hnew "I0" .input .regular
  have hstill : (((nl.addCell name "LUT1").addPin nl.nextCell "I0" .input .regular).cell?
      nl.nextCell).isSome := by
    rw [cell?_addPin, isSome_ite_map]
    exact hnew
  exact (hinput.addPin hstill "O" .output .regular).modifyCell nl.nextCell fun _ _ hp => hp

theorem place (h : nl.Closed) {c : CellId} (hc : (nl.cell? c).isSome) (s : SiteId) (b : BelId) :
    (nl.place c s b).Closed := by
  have hmoved : (nl.modifyCell c fun cell => { cell with bel := some b, site := some s }).Closed :=
    h.modifyCell c fun _ _ hp => hp
  exact {
    toConsistent := hmoved.toConsistent.congr (fun _ => rfl) (fun _ => rfl) hmoved.pin_of_cell
    constants := hmoved.constants
    named_cell := hmoved.named_cell
    placed_cell := by
      intro b' e hb
      have hinsert : (if b = b' then some c else nl.cellAt? b') = some e := by
        simpa only [cellAt?, Netlist.place, Std.ExtTreeMap.getElem?_insert,
          Std.LawfulEqCmp.compare_eq_iff_eq] using hb
      split at hinsert
      · cases hinsert
        change ((nl.modifyCell c _).cell? c).isSome
        rw [cell?_modifyCell, isSome_ite_map]
        exact hc
      · exact hmoved.placed_cell b' e hinsert
    cell_of_pin := hmoved.cell_of_pin
    mapped_pin := hmoved.mapped_pin
    named_net := hmoved.named_net }

theorem mapPin (h : nl.Closed) {p : PinId} (hp : (nl.pin? p).isSome) (b : BelPinId) :
    (nl.mapPin p b).Closed := by
  have back : ∀ q pin, (nl.mapPin p b).pin? q = some pin →
      ∃ old, nl.pin? q = some old ∧ old.cell = pin.cell := by
    intro q pin hpin
    change (nl.modifyPin p _).pin? q = some pin at hpin
    obtain ⟨old, hold, rfl⟩ := exists_of_ite_map (pin?_modifyPin nl p _ q ▸ hpin)
    exact ⟨old, hold, by split <;> rfl⟩
  have old : ∀ q, (nl.pin? q).isSome → ((nl.mapPin p b).pin? q).isSome := by
    intro q hq
    change ((nl.modifyPin p _).pin? q).isSome
    rw [pin?_modifyPin, isSome_ite_map]
    exact hq
  exact {
    toConsistent := h.toConsistent.mapPin p b
    constants := h.constants
    named_cell := h.named_cell
    placed_cell := h.placed_cell
    cell_of_pin := by
      intro q pin hpin
      obtain ⟨pin', hpin', heq⟩ := back q pin hpin
      exact heq ▸ h.cell_of_pin q pin' hpin'
    mapped_pin := by
      intro c q hc
      rw [pinAt?_mapPin] at hc
      split at hc
      · cases hc
        exact old p hp
      · exact old q (h.mapped_pin c q hc)
    named_net := h.named_net }

/-! ## Nets -/

theorem addNet (h : nl.Closed) (name : String) (kind : NetKind) : (nl.addNet name kind).Closed := by
  have old : ∀ n net, nl.net? n = some net → (nl.addNet name kind).net? n = some net := by
    intro n net hn
    rw [net?_addNet, if_neg]
    · exact hn
    · rintro rfl
      rw [net?_nextNet] at hn
      cases hn
  exact {
    toConsistent := h.toConsistent.addNet name kind
    constants := by
      intro isVcc
      obtain ⟨net, hnet⟩ := Option.isSome_iff_exists.1 (h.constants isVcc)
      exact Option.isSome_iff_exists.2 ⟨net, old _ net hnet⟩
    named_cell := h.named_cell
    placed_cell := h.placed_cell
    cell_of_pin := h.cell_of_pin
    mapped_pin := h.mapped_pin
    named_net := by
      intro name' n hname
      have hinsert : (if name = name' then some nl.nextNet else nl.netNamed? name') = some n := by
        simpa only [netNamed?, Netlist.addNet, Std.ExtTreeMap.getElem?_insert,
          Std.LawfulEqCmp.compare_eq_iff_eq] using hname
      split at hinsert
      next heq =>
        cases hinsert
        refine ⟨{ name, kind }, ?_, .inl heq⟩
        rw [net?_addNet, if_pos rfl]
      next =>
        obtain ⟨net, hn, hnet⟩ := h.named_net name' n hinsert
        exact ⟨net, old n net hn, hnet⟩ }

theorem renameNet (h : nl.Closed) (isVcc : Bool) (name : String) :
    (nl.renameNet (staticNet isVcc) name).Closed := by
  have live : ∀ n, (nl.net? n).isSome →
      ((nl.renameNet (staticNet isVcc) name).net? n).isSome := by
    intro n hn
    rw [net?_renameNet, isSome_ite_map]
    exact hn
  obtain ⟨net, hnet⟩ := Option.isSome_iff_exists.1 (h.constants isVcc)
  have hopen : nl.renameNet (staticNet isVcc) name =
      { nl.modifyNet (staticNet isVcc) fun net => { net with name } with
        netIndex := (if net.name = vccName ∨ net.name = gndName then nl.netIndex
          else nl.netIndex.erase net.name).insert name (staticNet isVcc) } := by
    unfold Netlist.renameNet
    rw [hnet]
  have hcons := h.toConsistent.renameNet (staticNet isVcc) name
  rw [hopen] at hcons live ⊢
  exact {
    toConsistent := hcons
    constants := fun isVcc' => live _ (h.constants isVcc')
    named_cell := h.named_cell
    placed_cell := h.placed_cell
    cell_of_pin := h.cell_of_pin
    mapped_pin := h.mapped_pin
    named_net := by
      intro name' n hname
      have hinsert : n = staticNet isVcc ∨ nl.netNamed? name' = some n := by
        simp only [netNamed?, Std.ExtTreeMap.getElem?_insert,
          Std.LawfulEqCmp.compare_eq_iff_eq] at hname ⊢
        split at hname
        · exact .inl (Option.some.inj hname).symm
        · split at hname
          · exact .inr hname
          · rw [Std.ExtTreeMap.getElem?_erase] at hname
            split at hname
            · cases hname
            · exact .inr hname
      rcases hinsert with rfl | hold
      · obtain ⟨net', hnet'⟩ := Option.isSome_iff_exists.1 (live _ (h.constants isVcc))
        exact ⟨net', hnet', .inr ⟨isVcc, rfl⟩⟩
      · obtain ⟨net', hn, hnet'⟩ := h.named_net name' n hold
        by_cases hstatic : n = staticNet isVcc
        · obtain ⟨new, hnew⟩ := Option.isSome_iff_exists.1 (live n (by rw [hn]; rfl))
          exact ⟨new, hnew, .inr ⟨isVcc, hstatic⟩⟩
        · refine ⟨net', ?_, hnet'⟩
          change (nl.modifyNet _ _).net? n = _
          rw [net?_modifyNet, if_neg hstatic]
          exact hn }

theorem removeNet (h : nl.Closed) {n : NetId} (hn : ∀ isVcc, n ≠ staticNet isVcc) :
    (nl.removeNet n).Closed := by
  cases hnet : nl.net? n with
  | none =>
    rw [show nl.removeNet n = nl by unfold Netlist.removeNet; rw [hnet]]
    exact h
  | some net =>
    have other : ∀ m, m ≠ n → (nl.removeNet n).net? m = nl.net? m := by
      intro m hm
      rw [net?_removeNet, if_neg hm]
    have oldPin : ∀ p, ((nl.removeNet n).pin? p).isSome = (nl.pin? p).isSome := by
      intro p
      rw [pin?_removeNet, isSome_ite_map]
    have hopen : ∃ pins, nl.removeNet n =
        { nl with pins, nets := nl.nets.setIfInBounds n.index none
                  netIndex := nl.netIndex.erase net.name } := by
      unfold Netlist.removeNet
      rw [hnet]
      dsimp only
      rw [foldl_setPinNet_eq]
      exact ⟨_, rfl⟩
    obtain ⟨pins, hopen⟩ := hopen
    exact {
      toConsistent := h.toConsistent.removeNet n
      constants := fun isVcc => by
        rw [other _ (hn isVcc).symm]
        exact h.constants isVcc
      named_cell := by
        rw [hopen]
        exact h.named_cell
      placed_cell := by
        rw [hopen]
        exact h.placed_cell
      cell_of_pin := by
        intro p pin hpin
        obtain ⟨old, hold, rfl⟩ := exists_of_ite_map (pin?_removeNet nl n p ▸ hpin)
        rw [cell?_removeNet]
        split <;> exact h.cell_of_pin p old hold
      mapped_pin := by
        intro b p hb
        rw [pinAt?_removeNet] at hb
        rw [oldPin]
        exact h.mapped_pin b p hb
      named_net := by
        intro name m hname
        have herase : nl.netNamed? name = some m ∧ net.name ≠ name := by
          rw [hopen] at hname
          simpa [netNamed?, Std.ExtTreeMap.getElem?_erase, and_comm] using hname
        obtain ⟨net', hm, hnet'⟩ := h.named_net name m herase.1
        have hne : m ≠ n := by
          rintro rfl
          rw [hnet] at hm
          cases hm
          rcases hnet' with hname | ⟨isVcc, hstatic⟩
          · exact herase.2 hname
          · exact hn isVcc hstatic
        exact ⟨net', by rw [other m hne]; exact hm, hnet'⟩ }

end Closed

end Fabric.Netlist
