import Fabric.Netlist.Build
import Fabric.Proofs.Netlist.Views
/-!
# Pins and nets agree

Which pins are joined is written down three times: a pin names its net, a net lists its pins, and
a net names its source among them. Every change of a netlist keeps the three in agreement.
-/

namespace Fabric

def Net.joins (net : Net) : List PinId × Option PinId := (net.pins, net.source)

namespace Netlist

/-- The nets of pins, the pins of nets and the sources of nets agree, and cells have pins that are
there. -/
structure Consistent (nl : Netlist) : Prop where
  on_net : ∀ p n, nl.netOf? p = some n ↔ ∃ net, nl.net? n = some net ∧ p ∈ net.pins
  once : ∀ n net, nl.net? n = some net → net.pins.Nodup
  source : ∀ n net p, nl.net? n = some net → net.source = some p → p ∈ net.pins
  pin_of_cell : ∀ c cell, nl.cell? c = some cell → ∀ p ∈ cell.pins, (nl.pin? p).isSome

variable {nl nl' : Netlist}

namespace Consistent

theorem mem_pins (h : nl.Consistent) {n : NetId} {net : Net} (hn : nl.net? n = some net)
    (p : PinId) : p ∈ net.pins ↔ nl.netOf? p = some n := by
  rw [h.on_net]
  constructor
  · intro hp
    exact ⟨net, hn, hp⟩
  · rintro ⟨net', hn', hp⟩
    rw [hn] at hn'
    cases hn'
    exact hp

theorem exists_net (h : nl.Consistent) {p : PinId} {n : NetId} (hp : nl.netOf? p = some n) :
    ∃ net, nl.net? n = some net ∧ p ∈ net.pins :=
  (h.on_net p n).1 hp

theorem live_net (h : nl.Consistent) {p : PinId} {n : NetId} (hp : nl.netOf? p = some n) :
    (nl.net? n).isSome := by
  obtain ⟨net, hn, -⟩ := h.exists_net hp
  rw [hn]
  rfl

theorem live_pin (h : nl.Consistent) {n : NetId} {net : Net} (hn : nl.net? n = some net) {p : PinId}
    (hp : p ∈ net.pins) : (nl.pin? p).isSome := by
  obtain ⟨pin, hpin, -⟩ := exists_pin_of_netOf? ((h.mem_pins hn p).1 hp)
  rw [hpin]
  rfl

/-- Only missing numbers keep a pin from being put on a net. -/
theorem connect_iff (h : nl.Consistent) {n : NetId} {p : PinId} :
    nl.connect n p = .ok nl' ↔
      (nl.net? n).isSome ∧ (nl.pin? p).isSome ∧ nl' = nl.attach n p := by
  rw [connect_eq_ok]
  constructor
  · rintro ⟨hp, hon | ⟨-, hn⟩, rfl⟩
    · exact ⟨h.live_net hon, hp, rfl⟩
    · exact ⟨hn, hp, rfl⟩
  · rintro ⟨hn, hp, rfl⟩
    exact ⟨hp, .inr ⟨fun _ hm => h.live_net hm, hn⟩, rfl⟩

theorem apart (h : nl.Consistent) {n m : NetId} {net net' : Net} (hn : nl.net? n = some net)
    (hm : nl.net? m = some net') {p : PinId} (hp : p ∈ net.pins) (hp' : p ∈ net'.pins) :
    n = m := by
  have hof := (h.mem_pins hn p).1 hp
  rw [(h.mem_pins hm p).1 hp'] at hof
  exact (Option.some.inj hof).symm

theorem congr (h : nl.Consistent) (hof : ∀ p, nl'.netOf? p = nl.netOf? p)
    (hjoins : ∀ n, (nl'.net? n).map Net.joins = (nl.net? n).map Net.joins)
    (hpins : ∀ c cell, nl'.cell? c = some cell → ∀ p ∈ cell.pins, (nl'.pin? p).isSome) :
    nl'.Consistent := by
  have back : ∀ n net', nl'.net? n = some net' →
      ∃ net, nl.net? n = some net ∧ net.pins = net'.pins ∧ net.source = net'.source := by
    intro n net' hn
    have hmap := hjoins n
    rw [hn, Option.map_some, eq_comm, Option.map_eq_some_iff] at hmap
    obtain ⟨net, hnet, heq⟩ := hmap
    exact ⟨net, hnet, congrArg Prod.fst heq, congrArg Prod.snd heq⟩
  refine ⟨?_, ?_, ?_, hpins⟩
  · intro p n
    rw [hof, h.on_net]
    constructor
    · rintro ⟨net, hn, hp⟩
      have hmap := hjoins n
      rw [hn, Option.map_some, Option.map_eq_some_iff] at hmap
      obtain ⟨net', hn', heq⟩ := hmap
      have hpins : net'.pins = net.pins := congrArg Prod.fst heq
      exact ⟨net', hn', hpins ▸ hp⟩
    · rintro ⟨net', hn', hp⟩
      obtain ⟨net, hn, hpins, -⟩ := back n net' hn'
      exact ⟨net, hn, hpins ▸ hp⟩
  · intro n net' hn'
    obtain ⟨net, hn, hpins, -⟩ := back n net' hn'
    exact hpins ▸ h.once n net hn
  · intro n net' p hn' hs
    obtain ⟨net, hn, hpins, hsource⟩ := back n net' hn'
    exact hpins ▸ h.source n net p hn (hsource.trans hs)

theorem modifyNet (h : nl.Consistent) (n : NetId) {f : Net → Net}
    (hf : ∀ net, (f net).joins = net.joins) : (nl.modifyNet n f).Consistent := by
  refine h.congr (fun p => rfl) (fun m => ?_) h.pin_of_cell
  rw [net?_modifyNet]
  split
  · rw [Option.map_map, show Net.joins ∘ f = Net.joins from funext hf]
  · rfl

theorem pin_of_cell_of_stays (h : nl.Consistent) (hcells : ∀ c, nl'.cell? c = nl.cell? c)
    (hpins : ∀ p, (nl.pin? p).isSome → (nl'.pin? p).isSome) (c : CellId) (cell : Cell)
    (hcell : nl'.cell? c = some cell) (p : PinId) (hp : p ∈ cell.pins) : (nl'.pin? p).isSome :=
  hpins p (h.pin_of_cell c cell (hcells c ▸ hcell) p hp)

/-! ## Taking pins off nets -/

theorem detach (h : nl.Consistent) (n : NetId) (p : PinId) : (nl.detach n p).Consistent := by
  have back : ∀ m net', (nl.detach n p).net? m = some net' → ∃ net, nl.net? m = some net ∧
      net' = if m = n then net.removePin p else net := by
    intro m net' hm
    exact exists_of_ite_map (net?_detach nl n p m ▸ hm)
  refine ⟨?_, ?_, ?_, h.pin_of_cell_of_stays (cell?_detach nl n p) fun q hq => ?_⟩
  · intro q m
    rw [netOf?_detach, net?_detach]
    by_cases hm : m = n
    · subst hm
      have hoff : (if q = p ∧ nl.netOf? p = some m then none else nl.netOf? q) = some m ↔
          nl.netOf? q = some m ∧ q ≠ p := by
        by_cases hq : q = p
        · subst hq
          by_cases hp : nl.netOf? q = some m <;> simp [hp]
        · simp [hq]
      rw [hoff, h.on_net, if_pos rfl]
      simp only [Option.map_eq_some_iff]
      constructor
      · rintro ⟨⟨net, hn, hqn⟩, hq⟩
        exact ⟨_, ⟨net, hn, rfl⟩, List.mem_filter.2 ⟨hqn, by simpa using hq⟩⟩
      · rintro ⟨_, ⟨net, hn, rfl⟩, hqn⟩
        obtain ⟨hqn, hq⟩ := List.mem_filter.1 hqn
        exact ⟨⟨net, hn, hqn⟩, by simpa using hq⟩
    · rw [if_neg hm, ← h.on_net]
      by_cases hq : q = p ∧ nl.netOf? p = some n
      · rw [if_pos hq, hq.1, hq.2]
        simp [Ne.symm hm]
      · rw [if_neg hq]
  · intro m net' hm
    obtain ⟨net, hnet, rfl⟩ := back m net' hm
    have honce := h.once m net hnet
    split
    · exact honce.filter _
    · exact honce
  · intro m net' q hm hq
    obtain ⟨net, hnet, rfl⟩ := back m net' hm
    have hsource := h.source m net q hnet
    split at hq
    next hmn =>
      rw [if_pos hmn]
      have hold : net.source ≠ some p ∧ net.source = some q := by
        simpa [Net.removePin] using hq
      have hqp : q ≠ p := fun hqp => hold.1 (hqp ▸ hold.2)
      exact List.mem_filter.2 ⟨hsource hold.2, by simpa using hqp⟩
    next hmn =>
      rw [if_neg hmn]
      exact hsource hq
  · rw [pin?_detach, isSome_ite_map]
    exact hq

theorem removeNet (h : nl.Consistent) (n : NetId) : (nl.removeNet n).Consistent := by
  cases hn : nl.net? n with
  | none =>
    rw [show nl.removeNet n = nl by unfold Netlist.removeNet; rw [hn]]
    exact h
  | some net =>
    have back : ∀ m net', (nl.removeNet n).net? m = some net' → m ≠ n ∧ nl.net? m = some net' := by
      intro m net' hm
      rw [net?_removeNet] at hm
      split at hm
      · cases hm
      next hmn => exact ⟨hmn, hm⟩
    refine ⟨?_, ?_, ?_, h.pin_of_cell_of_stays (cell?_removeNet nl n) fun q hq => ?_⟩
    · intro q m
      rw [netOf?_removeNet nl n hn, net?_removeNet]
      by_cases hm : m = n
      · subst hm
        simp [h.mem_pins hn]
      · rw [if_neg hm, ← h.on_net]
        by_cases hq : q ∈ net.pins
        · rw [if_pos hq, (h.mem_pins hn q).1 hq]
          simp [Ne.symm hm]
        · rw [if_neg hq]
    · intro m net' hm
      exact h.once m net' (back m net' hm).2
    · intro m net' q hm hq
      exact h.source m net' q (back m net' hm).2 hq
    · rw [pin?_removeNet, isSome_ite_map]
      exact hq

/-! ## Putting pins on nets -/

theorem attach_of_off (h : nl.Consistent) {n : NetId} {p : PinId} (hn : (nl.net? n).isSome)
    (hp : nl.netOf? p = none) : (nl.attach n p).Consistent := by
  cases hpin : nl.pin? p with
  | none =>
    rw [attach_of_no_pin hpin]
    exact h
  | some pin =>
    have hnew : ∀ m net, nl.net? m = some net → p ∉ net.pins := by
      intro m net hm hmem
      rw [(h.mem_pins hm p).1 hmem] at hp
      cases hp
    have back : ∀ m net', (nl.attach n p).net? m = some net' → ∃ net, nl.net? m = some net ∧
        net' = if m = n then net.addPin p pin.dir else net := by
      intro m net' hm
      exact exists_of_ite_map (net?_attach_of_off hpin hp m ▸ hm)
    refine ⟨?_, ?_, ?_, h.pin_of_cell_of_stays (cell?_attach nl n p) fun q hq => ?_⟩
    · intro q m
      rw [netOf?_attach hpin, net?_attach_of_off hpin hp]
      by_cases hm : m = n
      · subst hm
        obtain ⟨net, hnet⟩ := Option.isSome_iff_exists.1 hn
        rw [if_pos rfl, hnet]
        by_cases hq : q = p
        · simp [hq, Net.addPin]
        · simp [hq, Net.addPin, h.mem_pins hnet]
      · rw [if_neg hm, ← h.on_net]
        by_cases hq : q = p
        · rw [if_pos hq, hq, hp]
          simp [Ne.symm hm]
        · rw [if_neg hq]
    · intro m net' hm
      obtain ⟨net, hnet, rfl⟩ := back m net' hm
      have honce := h.once m net hnet
      split
      · have hlast : p ∉ net.pins := hnew m net hnet
        refine List.nodup_append.2 ⟨honce, by simp, ?_⟩
        intro a ha b hb hab
        rw [List.mem_singleton.1 hb] at hab
        exact hlast (hab ▸ ha)
      · exact honce
    · intro m net' q hm hq
      obtain ⟨net, hnet, rfl⟩ := back m net' hm
      split at hq
      next hmn =>
        rw [if_pos hmn]
        refine List.mem_append.2 ?_
        unfold Net.addPin at hq
        dsimp only at hq
        split at hq
        · cases hq
          exact .inr (by simp)
        · exact .inl (h.source m net q hnet hq)
      next hmn =>
        rw [if_neg hmn]
        exact h.source m net q hnet hq
    · rw [pin?_attach_of_off hpin hp]
      split
      · rfl
      · exact hq

theorem attach (h : nl.Consistent) {n : NetId} (hn : (nl.net? n).isSome) (p : PinId) :
    (nl.attach n p).Consistent := by
  cases hp : nl.netOf? p with
  | none => exact h.attach_of_off hn hp
  | some m =>
    by_cases hm : m = n
    · rw [attach_of_on (hm ▸ hp)]
      exact h
    · rw [attach_of_other hp hm]
      have hn' : ((nl.detach m p).net? n).isSome := by
        rw [net?_detach, if_neg (Ne.symm hm)]
        exact hn
      have hp' : (nl.detach m p).netOf? p = none := by
        rw [netOf?_detach, if_pos ⟨rfl, hp⟩]
      exact (h.detach m p).attach_of_off hn' hp'

theorem setSource (h : nl.Consistent) {n : NetId} {p : PinId} (hp : nl.netOf? p = some n) :
    (nl.modifyNet n fun net => net.setSource p).Consistent := by
  have back : ∀ m net', (nl.modifyNet n fun net => net.setSource p).net? m = some net' →
      ∃ net, nl.net? m = some net ∧ net' = if m = n then net.setSource p else net := by
    intro m net' hm
    exact exists_of_ite_map (net?_modifyNet nl n _ m ▸ hm)
  refine ⟨?_, ?_, ?_, h.pin_of_cell⟩
  · intro q m
    rw [netOf?_modifyNet, h.on_net, net?_modifyNet]
    split
    · constructor
      · rintro ⟨net, hnet, hq⟩
        exact ⟨net.setSource p, by rw [hnet]; rfl, hq⟩
      · rintro ⟨net', hnet', hq⟩
        obtain ⟨net, hnet, rfl⟩ := Option.map_eq_some_iff.1 hnet'
        exact ⟨net, hnet, hq⟩
    · rfl
  · intro m net' hm
    obtain ⟨net, hnet, rfl⟩ := back m net' hm
    have honce := h.once m net hnet
    split <;> exact honce
  · intro m net' q hm hq
    obtain ⟨net, hnet, rfl⟩ := back m net' hm
    split at hq
    next hmn =>
      cases hq
      rw [if_pos hmn]
      exact (h.mem_pins hnet p).2 (hmn ▸ hp)
    next hmn =>
      rw [if_neg hmn]
      exact h.source m net q hnet hq

theorem attachSource (h : nl.Consistent) {n : NetId} {p : PinId} (hn : (nl.net? n).isSome)
    (hp : (nl.pin? p).isSome) : (nl.attachSource n p).Consistent := by
  obtain ⟨pin, hpin⟩ := Option.isSome_iff_exists.1 hp
  have hof : (nl.attach n p).netOf? p = some n := by rw [netOf?_attach hpin, if_pos rfl]
  exact (h.attach hn p).setSource hof

/-! ## Adding resources -/

theorem addCell (h : nl.Consistent) (name type : String) : (nl.addCell name type).Consistent := by
  refine h.congr (fun _ => rfl) (fun _ => rfl) fun c cell hcell p hp => ?_
  rw [cell?_addCell] at hcell
  split at hcell
  · cases hcell
    cases hp
  · exact h.pin_of_cell c cell hcell p hp

theorem modifyCell (h : nl.Consistent) (c : CellId) {f : Cell → Cell}
    (hf : ∀ cell, ∀ p ∈ (f cell).pins, p ∈ cell.pins) : (nl.modifyCell c f).Consistent := by
  refine h.congr (fun _ => rfl) (fun _ => rfl) fun e cell hcell p hp => ?_
  obtain ⟨cell', hcell', rfl⟩ := exists_of_ite_map (cell?_modifyCell nl c f e ▸ hcell)
  split at hp
  · exact h.pin_of_cell e cell' hcell' p (hf cell' p hp)
  · exact h.pin_of_cell e cell' hcell' p hp

theorem addPin (h : nl.Consistent) (c : CellId) (name : String) (dir : PinDir) (kind : PinKind) :
    (nl.addPin c name dir kind).Consistent := by
  refine h.congr (netOf?_addPin nl c name dir kind) (fun _ => rfl) fun e cell hcell p hp => ?_
  obtain ⟨cell', hcell', rfl⟩ := exists_of_ite_map (cell?_addPin nl c name dir kind e ▸ hcell)
  have hmem : p ∈ cell'.pins ∨ p = nl.nextPin := by
    split at hp
    · split at hp
      · exact .inl hp
      · simpa using hp
    · exact .inl hp
  rcases hmem with hp | rfl
  · exact isSome_pin?_addPin nl (h.pin_of_cell e cell' hcell' p hp) c name dir kind
  · exact isSome_pin?_addPin_new nl c name dir kind

theorem addPseudoPin (h : nl.Consistent) (c : CellId) (name : String) (dir : PinDir) :
    (nl.addPseudoPin c name dir).Consistent :=
  (h.addPin c name dir .pseudo).modifyCell c fun _ _ hp => hp

theorem mapPin (h : nl.Consistent) (p : PinId) (b : BelPinId) : (nl.mapPin p b).Consistent := by
  refine h.congr (netOf?_mapPin nl p b) (fun _ => rfl) fun c cell hcell q hq => ?_
  change ((nl.modifyPin p _).pin? q).isSome
  rw [pin?_modifyPin, isSome_ite_map]
  exact h.pin_of_cell c cell hcell q hq

theorem renameNet (h : nl.Consistent) (n : NetId) (name : String) :
    (nl.renameNet n name).Consistent := by
  refine h.congr (netOf?_renameNet nl n name) (fun m => ?_) ?_
  · rw [net?_renameNet]
    split
    · cases nl.net? m <;> rfl
    · rfl
  · refine h.pin_of_cell_of_stays (fun c => ?_) fun p hp => ?_
    · unfold Netlist.renameNet
      split <;> rfl
    · rw [pin?_renameNet]
      exact hp

theorem addNet (h : nl.Consistent) (name : String) (kind : NetKind) :
    (nl.addNet name kind).Consistent := by
  have back : ∀ m net, (nl.addNet name kind).net? m = some net →
      net.pins = [] ∧ net.source = none ∨ nl.net? m = some net := by
    intro m net hm
    rw [net?_addNet] at hm
    split at hm
    · cases hm
      exact .inl ⟨rfl, rfl⟩
    · exact .inr hm
  refine ⟨?_, ?_, ?_, h.pin_of_cell⟩
  · intro q m
    rw [netOf?_addNet, h.on_net, net?_addNet]
    split
    next hm =>
      subst hm
      simp [net?_nextNet]
    next => rfl
  · intro m net hm
    rcases back m net hm with ⟨hpins, -⟩ | hold
    · rw [hpins]
      exact List.nodup_nil
    · exact h.once m net hold
  · intro m net q hm hq
    rcases back m net hm with ⟨-, hsource⟩ | hold
    · rw [hsource] at hq
      cases hq
    · exact h.source m net q hold hq

end Consistent

end Netlist

end Fabric
