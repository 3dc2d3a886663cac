import Fabric.Proofs.Netlist.Consistent
/-!
# Rewiring netlists

Rewiring moves pins between nets and removes nets. No sink comes to count as routed by it, a
pin that leaves a net does not count as routed by it any more, and which pins may leave a
net that stays is known.
-/

namespace Fabric

structure Net.Carries (net net' : Net) : Prop where
  kind : net'.kind = net.kind
  intrasite : net.intrasite <+: net'.intrasite
  routedSinks : ∀ p ∈ net'.routedSinks, p ∈ net.routedSinks
  pins : ∀ p ∈ net.pins, p ∈ net'.pins ∨ p ∉ net'.routedSinks

namespace Net.Carries

variable {net net' net'' : Net}

theorem refl (net : Net) : net.Carries net :=
  ⟨rfl, List.prefix_rfl, fun _ hp => hp, fun _ hp => .inl hp⟩

theorem trans (h : net.Carries net') (h' : net'.Carries net'') : net.Carries net'' where
  kind := h'.kind.trans h.kind
  intrasite := h.intrasite.trans h'.intrasite
  routedSinks p hp := h.routedSinks p (h'.routedSinks p hp)
  pins p hp := by
    rcases h.pins p hp with hstays | hoff
    · exact h'.pins p hstays
    · exact .inr fun hrouted => hoff (h'.routedSinks p hrouted)

theorem addPin (net : Net) (p : PinId) (dir : PinDir) : net.Carries (net.addPin p dir) :=
  { refl net with pins := fun _ hq => .inl (List.mem_append_left _ hq) }

theorem removePin (net : Net) (p : PinId) : net.Carries (net.removePin p) where
  kind := rfl
  intrasite := List.prefix_rfl
  routedSinks q hq := (Std.ExtTreeSet.mem_erase.1 hq).2
  pins q hq := by
    by_cases hqp : q = p
    · subst hqp
      exact .inr fun hrouted => (Std.ExtTreeSet.mem_erase.1 hrouted).1 Std.ReflCmp.compare_self
    · exact .inl (List.mem_filter.2 ⟨hq, by simpa using hqp⟩)

end Net.Carries

namespace Netlist

/-- A partition pin stands for the pin on the boundary of the module. -/
def Replaced (nl : Netlist) (p : PinId) : Prop :=
  ∃ c cell, nl.cell? c = some cell ∧ p ∈ cell.pins ∧ cell.partitionPin.isSome

/-- Pins may leave nets that stay only as `lost` allows. -/
structure Rewires (lost : PinId → NetId → Prop) (nl nl' : Netlist) : Prop where
  consistent : nl.Consistent → nl'.Consistent
  size_le : nl.nets.size ≤ nl'.nets.size
  old_or_new : ∀ n net', nl'.net? n = some net' →
    (∃ net, nl.net? n = some net ∧ net.Carries net') ∨
      nl.nets.size ≤ n.index ∧ ∀ p, p ∉ net'.routedSinks
  mapping_stays : ∀ b p, nl.pinAt? b = some p → nl'.pinAt? b = some p
  replaced : ∀ p, nl.Replaced p → nl'.Replaced p
  joined : ∀ p n, (nl.net? n).isSome → nl.netOf? p = some n →
    lost p n ∨ nl'.net? n = none ∨ nl'.netOf? p = some n

variable {nl nl' nl'' : Netlist} {lost lost' : PinId → NetId → Prop}

theorem lt_size_of_net? {n : NetId} {net : Net} (h : nl.net? n = some net) :
    n.index < nl.nets.size := by
  have hget : nl.nets[n.index]? = some (some net) := Option.join_eq_some_iff.1 h
  exact (Array.getElem?_eq_some_iff.1 hget).1

namespace Rewires

theorem refl (nl : Netlist) : Rewires lost nl nl where
  consistent h := h
  size_le := Nat.le_refl _
  old_or_new _ net hn := .inl ⟨net, hn, .refl net⟩
  mapping_stays _ _ hb := hb
  replaced _ hp := hp
  joined _ _ _ hp := .inr (.inr hp)

/-- The number of a net that was removed is not used again. -/
theorem stays_removed (h : Rewires lost nl nl') {n : NetId} (hn : nl.net? n = none)
    (hsize : n.index < nl.nets.size) : nl'.net? n = none := by
  cases hnet : nl'.net? n with
  | none => rfl
  | some net' =>
    rcases h.old_or_new n net' hnet with ⟨net, hold, -⟩ | ⟨hnew, -⟩
    · rw [hn] at hold
      cases hold
    · omega

theorem trans (h : Rewires lost nl nl') (h' : Rewires lost nl' nl'') : Rewires lost nl nl'' where
  consistent hc := h'.consistent (h.consistent hc)
  size_le := Nat.le_trans h.size_le h'.size_le
  old_or_new n net'' hn'' := by
    have hsize := h.size_le
    rcases h'.old_or_new n net'' hn'' with ⟨net', hn', hcarries'⟩ | ⟨hnew, hsinks⟩
    · rcases h.old_or_new n net' hn' with ⟨net, hn, hcarries⟩ | ⟨hnew, hsinks⟩
      · exact .inl ⟨net, hn, hcarries.trans hcarries'⟩
      · exact .inr ⟨hnew, fun p hp => hsinks p (hcarries'.routedSinks p hp)⟩
    · exact .inr ⟨by omega, hsinks⟩
  mapping_stays b p hb := h'.mapping_stays b p (h.mapping_stays b p hb)
  replaced p hp := h'.replaced p (h.replaced p hp)
  joined p n hn hp := by
    have removed : nl'.net? n = none → nl''.net? n = none := by
      intro hnone
      obtain ⟨net, hnet⟩ := Option.isSome_iff_exists.1 hn
      have hlt := lt_size_of_net? hnet
      have hsize := h.size_le
      exact h'.stays_removed hnone (by omega)
    rcases h.joined p n hn hp with hlost | hnone | hp'
    · exact .inl hlost
    · exact .inr (.inl (removed hnone))
    · cases hn' : nl'.net? n with
      | none => exact .inr (.inl (removed hn'))
      | some net' => exact h'.joined p n (by rw [hn']; rfl) hp'

theorem mono (h : Rewires lost nl nl')
    (hlost : ∀ p n, lost p n → lost' p n ∨ nl'.net? n = none) : Rewires lost' nl nl' :=
  { h with
    joined := fun p n hn hp => by
      rcases h.joined p n hn hp with hl | hrest
      · exact (hlost p n hl).imp_right .inl
      · exact .inr hrest }

/-! ## Changes of nets -/

/-- Nets change in place, and the pins that are on nets stay there or may go. -/
theorem of_nets (hc : nl.Consistent → nl'.Consistent) (hsize : nl'.nets.size = nl.nets.size)
    (hnets : ∀ n net', nl'.net? n = some net' → ∃ net, nl.net? n = some net ∧ net.Carries net')
    (hmap : ∀ b, nl'.pinAt? b = nl.pinAt? b) (hcells : ∀ c, nl'.cell? c = nl.cell? c)
    (hjoined : ∀ p n, nl.netOf? p = some n → lost p n ∨ nl'.net? n = none ∨ nl'.netOf? p = some n) :
    Rewires lost nl nl' where
  consistent := hc
  size_le := Nat.le_of_eq hsize.symm
  old_or_new n net' hn' := .inl (hnets n net' hn')
  mapping_stays b p hb := by rw [hmap]; exact hb
  replaced p := by
    rintro ⟨c, cell, hcell, hp⟩
    exact ⟨c, cell, by rw [hcells]; exact hcell, hp⟩
  joined p n _ hp := hjoined p n hp

theorem modifyNet (n : NetId) {f : Net → Net} (hc : nl.Consistent → (nl.modifyNet n f).Consistent)
    (hf : ∀ net : Net, net.Carries (f net)) : Rewires lost nl (nl.modifyNet n f) := by
  refine of_nets hc (by simp [Netlist.modifyNet]) (fun m net' hm => ?_) (fun _ => rfl)
    (fun _ => rfl) fun _ _ hp => .inr (.inr hp)
  obtain ⟨net, hnet, rfl⟩ := exists_of_ite_map (net?_modifyNet nl n f m ▸ hm)
  refine ⟨net, hnet, ?_⟩
  split
  · exact hf net
  · exact .refl net

theorem detach (n : NetId) (p : PinId) : Rewires (fun q k => q = p ∧ k = n) nl (nl.detach n p) := by
  have hsize : (nl.detach n p).nets.size = nl.nets.size := by
    unfold Netlist.detach
    split <;> simp [Netlist.modifyNet, setPinNet, modifyPin]
  refine of_nets (fun hc => hc.detach n p) hsize (fun m net' hm => ?_) (pinAt?_detach nl n p)
    (cell?_detach nl n p) fun q k hq => ?_
  · obtain ⟨net, hnet, rfl⟩ := exists_of_ite_map (net?_detach nl n p m ▸ hm)
    refine ⟨net, hnet, ?_⟩
    split
    · exact .removePin net p
    · exact .refl net
  · rw [netOf?_detach]
    by_cases h : q = p ∧ nl.netOf? p = some n
    · obtain ⟨rfl, hon⟩ := h
      rw [hq] at hon
      exact .inl ⟨rfl, Option.some.inj hon⟩
    · rw [if_neg h]
      exact .inr (.inr hq)

theorem attach_of_off {n : NetId} (hn : (nl.net? n).isSome) {p : PinId}
    (hoff : nl.netOf? p = none) : Rewires lost nl (nl.attach n p) := by
  cases hp : nl.pin? p with
  | none =>
    rw [attach_of_no_pin hp]
    exact refl nl
  | some pin =>
    have hsize : (nl.attach n p).nets.size = nl.nets.size := by
      rw [Netlist.attach_of_off hp hoff]
      simp [Netlist.modifyNet, setPinNet, modifyPin]
    refine of_nets (fun hc => hc.attach hn p) hsize (fun m net' hm => ?_) (pinAt?_attach nl n p)
      (cell?_attach nl n p) fun q k hq => ?_
    · obtain ⟨net, hnet, rfl⟩ := exists_of_ite_map (net?_attach_of_off hp hoff m ▸ hm)
      refine ⟨net, hnet, ?_⟩
      split
      · exact .addPin net p pin.dir
      · exact .refl net
    · refine .inr (.inr ?_)
      rw [netOf?_attach hp, if_neg]
      · exact hq
      · rintro rfl
        rw [hoff] at hq
        cases hq

theorem attach {n : NetId} (hn : (nl.net? n).isSome) (p : PinId) :
    Rewires (fun q k => q = p ∧ k ≠ n ∧ nl.netOf? p = some k) nl (nl.attach n p) := by
  cases hp : nl.netOf? p with
  | none => exact attach_of_off hn hp
  | some m =>
    by_cases hm : m = n
    · rw [attach_of_on (hm ▸ hp)]
      exact refl nl
    · rw [attach_of_other hp hm]
      have hn' : ((nl.detach m p).net? n).isSome := by
        rw [net?_detach, if_neg (Ne.symm hm)]
        exact hn
      have hp' : (nl.detach m p).netOf? p = none := by
        rw [netOf?_detach, if_pos ⟨rfl, hp⟩]
      refine trans ((detach m p).mono fun q k hlost => ?_) (attach_of_off hn' hp')
      rw [hlost.2]
      exact .inl ⟨hlost.1, hm, rfl⟩

theorem attachSource {n : NetId} (hn : (nl.net? n).isSome) {p : PinId} (hp : (nl.pin? p).isSome)
    (hoff : nl.netOf? p = none) : Rewires lost nl (nl.attachSource n p) := by
  obtain ⟨pin, hpin⟩ := Option.isSome_iff_exists.1 hp
  have hon : (nl.attach n p).netOf? p = some n := by rw [netOf?_attach hpin, if_pos rfl]
  have hset : Rewires lost (nl.attach n p) (nl.attachSource n p) :=
    modifyNet n (fun hc => hc.setSource hon) fun net => { Net.Carries.refl net with }
  exact (attach_of_off hn hoff).trans hset

theorem removeNet (hc : nl.Consistent) (n : NetId) : Rewires lost nl (nl.removeNet n) := by
  have hsize : (nl.removeNet n).nets.size = nl.nets.size := by
    unfold Netlist.removeNet
    split <;> simp
  refine of_nets (fun hc => hc.removeNet n) hsize (fun m net' hm => ?_) (pinAt?_removeNet nl n)
    (cell?_removeNet nl n) fun q k hq => ?_
  · rw [net?_removeNet] at hm
    split at hm
    · cases hm
    · exact ⟨net', hm, .refl net'⟩
  · rw [net?_removeNet]
    by_cases hk : k = n
    · exact .inr (.inl (if_pos hk))
    · refine .inr (.inr ?_)
      cases hn : nl.net? n with
      | none =>
        rw [removeNet_of_no_net hn]
        exact hq
      | some net =>
        rw [netOf?_removeNet nl n hn, if_neg]
        · exact hq
        · intro hmem
          rw [(hc.mem_pins hn q).1 hmem] at hq
          exact hk (Option.some.inj hq).symm

/-! ## New resources -/

theorem addNet (name : String) (kind : NetKind) : Rewires lost nl (nl.addNet name kind) where
  consistent hc := hc.addNet name kind
  size_le := by simp [Netlist.addNet]
  old_or_new n net' hn' := by
    rw [net?_addNet] at hn'
    split at hn'
    next hn =>
      cases hn'
      subst hn
      exact .inr ⟨Nat.le_refl _, by simp⟩
    next => exact .inl ⟨net', hn', .refl net'⟩
  mapping_stays _ _ hb := hb
  replaced _ hp := hp
  joined _ _ _ hp := .inr (.inr hp)

theorem of_cells (hc : nl.Consistent → nl'.Consistent) (hnets : nl'.nets = nl.nets)
    (hmap : nl'.pinOfBelPin = nl.pinOfBelPin) (hof : ∀ p, nl'.netOf? p = nl.netOf? p)
    (hcells : ∀ c cell, nl.cell? c = some cell → ∃ cell', nl'.cell? c = some cell' ∧
      (∀ p ∈ cell.pins, p ∈ cell'.pins) ∧ (cell.partitionPin.isSome → cell'.partitionPin.isSome)) :
    Rewires lost nl nl' where
  consistent := hc
  size_le := Nat.le_of_eq (congrArg Array.size hnets).symm
  old_or_new n net' hn' := by
    unfold net? at hn' ⊢
    rw [hnets] at hn'
    exact .inl ⟨net', hn', .refl net'⟩
  mapping_stays b p hb := by
    unfold pinAt? at hb ⊢
    rw [hmap]
    exact hb
  replaced p := by
    rintro ⟨c, cell, hcell, hp, hpart⟩
    obtain ⟨cell', hcell', hpins, hkeeps⟩ := hcells c cell hcell
    exact ⟨c, cell', hcell', hpins p hp, hkeeps hpart⟩
  joined p n _ hp := .inr (.inr ((hof p).trans hp))

theorem of_eq (hcells : nl'.cells = nl.cells) (hpins : nl'.pins = nl.pins)
    (hnets : nl'.nets = nl.nets) (hmap : nl'.pinOfBelPin = nl.pinOfBelPin) :
    Rewires lost nl nl' := by
  have hof : ∀ p, nl'.netOf? p = nl.netOf? p := fun p => by unfold netOf? pin?; rw [hpins]
  have hcells' : ∀ c, nl'.cell? c = nl.cell? c := fun c => by unfold cell?; rw [hcells]
  refine of_cells (fun hc => hc.congr hof (fun n => ?_) ?_) hnets hmap hof fun c cell hcell => ?_
  · unfold net?
    rw [hnets]
  · refine hc.pin_of_cell_of_stays hcells' fun p hp => ?_
    unfold pin? at hp ⊢
    rw [hpins]
    exact hp
  · exact ⟨cell, (hcells' c).trans hcell, fun _ hp => hp, id⟩

theorem addPin (c : CellId) (name : String) (dir : PinDir) (kind : PinKind) :
    Rewires lost nl (nl.addPin c name dir kind) := by
  refine of_cells (fun hc => hc.addPin c name dir kind) rfl rfl (netOf?_addPin nl c name dir kind)
    fun e cell hcell => ?_
  rw [cell?_addPin, hcell]
  split
  · split
    · exact ⟨_, rfl, fun _ hp => hp, fun _ => rfl⟩
    · exact ⟨_, rfl, fun _ hp => List.mem_append_left _ hp, id⟩
  · exact ⟨cell, rfl, fun _ hp => hp, id⟩

theorem addCell (name type : String) : Rewires lost nl (nl.addCell name type) := by
  refine of_cells (fun hc => hc.addCell name type) rfl rfl (fun _ => rfl) fun c cell hcell => ?_
  refine ⟨cell, ?_, fun _ hp => hp, id⟩
  rw [cell?_addCell, if_neg]
  · exact hcell
  · rintro rfl
    rw [cell?_nextCell] at hcell
    cases hcell

theorem modifyCell (c : CellId) {f : Cell → Cell} (hpins : ∀ cell : Cell, (f cell).pins = cell.pins)
    (hpart : ∀ cell : Cell, (f cell).partitionPin = cell.partitionPin) :
    Rewires lost nl (nl.modifyCell c f) := by
  refine of_cells (fun hc => hc.modifyCell c fun cell p hp => hpins cell ▸ hp) rfl rfl
    (netOf?_modifyCell nl c f) fun e cell hcell => ?_
  rw [cell?_modifyCell, hcell]
  split
  · exact ⟨f cell, rfl, fun p hp => by rwa [hpins], fun hp => by rwa [hpart]⟩
  · exact ⟨cell, rfl, fun _ hp => hp, id⟩

theorem addPseudoPin (c : CellId) (name : String) (dir : PinDir) :
    Rewires lost nl (nl.addPseudoPin c name dir) :=
  (addPin c name dir .pseudo).trans (modifyCell c (fun _ => rfl) fun _ => rfl)

theorem mapPin (p : PinId) {b : BelPinId} (hb : nl.pinAt? b = none) :
    Rewires lost nl (nl.mapPin p b) where
  consistent hc := hc.mapPin p b
  size_le := Nat.le_refl _
  old_or_new _ net hn := .inl ⟨net, hn, .refl net⟩
  mapping_stays c q hc := by
    rw [pinAt?_mapPin, if_neg]
    · exact hc
    · rintro rfl
      rw [hb] at hc
      cases hc
  replaced _ hp := hp
  joined q n _ hq := by
    rw [netOf?_mapPin]
    exact .inr (.inr hq)

theorem addBuffer (name : String) : Rewires lost nl (nl.addBuffer name) :=
  (((addCell name "LUT1").trans (addPin ..)).trans (addPin ..)).trans
    (modifyCell nl.nextCell (fun _ => rfl) fun _ => rfl)

end Rewires

end Netlist

end Fabric
