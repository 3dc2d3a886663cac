import Fabric.Proofs.Netlist.Views
/-!
# Growing netlists

A netlist grows when its nets stay the same ones and only gain: pins and routes at the ends of
their lists, routed sinks, nets for pins that were on none and pins for free BEL pins.
-/

namespace Fabric

theorem Net.isStatic_congr {net net' : Net} (hkind : net'.kind = net.kind) :
    net'.isStatic = net.isStatic := by
  unfold Net.isStatic
  rw [hkind]

/-- What a net has, it has also later on. -/
structure Net.Extends (net net' : Net) : Prop where
  name : net'.name = net.name
  kind : net'.kind = net.kind
  pins : net.pins <+: net'.pins
  intrasite : net.intrasite <+: net'.intrasite
  intersite : net.intersite <+: net'.intersite
  routedSinks : ∀ p ∈ net.routedSinks, p ∈ net'.routedSinks

namespace Net.Extends

variable {net net' net'' : Net}

theorem refl (net : Net) : net.Extends net :=
  ⟨rfl, rfl, List.prefix_rfl, List.prefix_rfl, List.prefix_rfl, fun _ hp => hp⟩

theorem trans (h : net.Extends net') (h' : net'.Extends net'') : net.Extends net'' where
  name := h'.name.trans h.name
  kind := h'.kind.trans h.kind
  pins := h.pins.trans h'.pins
  intrasite := h.intrasite.trans h'.intrasite
  intersite := h.intersite.trans h'.intersite
  routedSinks p hp := h'.routedSinks p (h.routedSinks p hp)

theorem addPin (net : Net) (p : PinId) (dir : PinDir) : net.Extends (net.addPin p dir) :=
  { refl net with pins := List.prefix_append .. }

theorem addIntersite (net : Net) (t : RouteTree) : net.Extends (net.addIntersite t) :=
  { refl net with intersite := List.prefix_append .. }

end Net.Extends

/-- A pin stays what it is. It may come onto a net and be mapped to further BEL pins. -/
structure Pin.Extends (pin pin' : Pin) : Prop where
  name : pin'.name = pin.name
  cell : pin'.cell = pin.cell
  dir : pin'.dir = pin.dir
  kind : pin'.kind = pin.kind
  net : ∀ n, pin.net = some n → pin'.net = some n
  belPins : pin.belPins <+: pin'.belPins

namespace Pin.Extends

variable {pin pin' pin'' : Pin}

theorem refl (pin : Pin) : pin.Extends pin := ⟨rfl, rfl, rfl, rfl, fun _ hn => hn, List.prefix_rfl⟩

theorem trans (h : pin.Extends pin') (h' : pin'.Extends pin'') : pin.Extends pin'' where
  name := h'.name.trans h.name
  cell := h'.cell.trans h.cell
  dir := h'.dir.trans h.dir
  kind := h'.kind.trans h.kind
  net n hn := h'.net n (h.net n hn)
  belPins := h.belPins.trans h'.belPins

end Pin.Extends

namespace Netlist

structure Extends (nl nl' : Netlist) : Prop where
  net_stays : ∀ n net, nl.net? n = some net → ∃ net', nl'.net? n = some net' ∧ net.Extends net'
  no_new_net : ∀ n, nl.net? n = none → nl'.net? n = none
  pin_stays : ∀ p pin, nl.pin? p = some pin → ∃ pin', nl'.pin? p = some pin' ∧ pin.Extends pin'
  mapping_stays : ∀ b p, nl.pinAt? b = some p → nl'.pinAt? b = some p

variable {nl nl' nl'' : Netlist}

namespace Extends

theorem refl (nl : Netlist) : nl.Extends nl where
  net_stays _ net hn := ⟨net, hn, .refl net⟩
  no_new_net _ hn := hn
  pin_stays _ pin hp := ⟨pin, hp, .refl pin⟩
  mapping_stays _ _ hb := hb

theorem trans (h : nl.Extends nl') (h' : nl'.Extends nl'') : nl.Extends nl'' where
  net_stays n net hn := by
    obtain ⟨net', hn', hnet⟩ := h.net_stays n net hn
    obtain ⟨net'', hn'', hnet'⟩ := h'.net_stays n net' hn'
    exact ⟨net'', hn'', hnet.trans hnet'⟩
  no_new_net n hn := h'.no_new_net n (h.no_new_net n hn)
  pin_stays p pin hp := by
    obtain ⟨pin', hp', hpin⟩ := h.pin_stays p pin hp
    obtain ⟨pin'', hp'', hpin'⟩ := h'.pin_stays p pin' hp'
    exact ⟨pin'', hp'', hpin.trans hpin'⟩
  mapping_stays b p hb := h'.mapping_stays b p (h.mapping_stays b p hb)

theorem netOf? (h : nl.Extends nl') {p : PinId} {n : NetId} (hp : nl.netOf? p = some n) :
    nl'.netOf? p = some n := by
  obtain ⟨pin, hpin, hn⟩ := exists_pin_of_netOf? hp
  obtain ⟨pin', hpin', hext⟩ := h.pin_stays p pin hpin
  exact (netOf?_eq hpin').trans (hext.net n hn)

theorem isSome_net? (h : nl.Extends nl') (n : NetId) :
    (nl'.net? n).isSome = (nl.net? n).isSome := by
  cases hn : nl.net? n with
  | none => rw [h.no_new_net n hn]
  | some net =>
    obtain ⟨net', hn', -⟩ := h.net_stays n net hn
    rw [hn']
    rfl

theorem net_before (h : nl.Extends nl') {n : NetId} {net' : Net} (hn' : nl'.net? n = some net') :
    ∃ net, nl.net? n = some net ∧ net.Extends net' := by
  have hlive : (nl.net? n).isSome := by
    rw [← h.isSome_net? n, hn']
    rfl
  obtain ⟨net, hn⟩ := Option.isSome_iff_exists.1 hlive
  obtain ⟨net'', hn'', hext⟩ := h.net_stays n net hn
  obtain rfl : net'' = net' := Option.some.inj (hn''.symm.trans hn')
  exact ⟨net, hn, hext⟩

theorem of_eq (hnets : nl'.nets = nl.nets) (hpins : nl'.pins = nl.pins)
    (hmap : nl'.pinOfBelPin = nl.pinOfBelPin) : nl.Extends nl' where
  net_stays n net hn := ⟨net, by unfold net? at hn ⊢; rwa [hnets], .refl net⟩
  no_new_net n hn := by unfold net? at hn ⊢; rwa [hnets]
  pin_stays p pin hp := ⟨pin, by unfold pin? at hp ⊢; rwa [hpins], .refl pin⟩
  mapping_stays b p hb := by unfold pinAt? at hb ⊢; rwa [hmap]

theorem modifyNet (nl : Netlist) (n : NetId) {f : Net → Net}
    (hf : ∀ net : Net, net.Extends (f net)) : nl.Extends (nl.modifyNet n f) where
  net_stays m net hm := by
    rw [net?_modifyNet, hm]
    split
    · exact ⟨f net, rfl, hf net⟩
    · exact ⟨net, rfl, .refl net⟩
  no_new_net m hm := by
    rw [net?_modifyNet, hm]
    split <;> rfl
  pin_stays _ pin hp := ⟨pin, hp, .refl pin⟩
  mapping_stays _ _ hb := hb

theorem attach_of_off {p : PinId} (n : NetId) (hoff : nl.netOf? p = none) :
    nl.Extends (nl.attach n p) := by
  cases hp : nl.pin? p with
  | none =>
    rw [attach_of_no_pin hp]
    exact refl nl
  | some pin =>
    have hnone : pin.net = none := (netOf?_eq hp).symm.trans hoff
    constructor
    · intro m net hm
      rw [net?_attach_of_off hp hoff, hm]
      split
      · exact ⟨_, rfl, .addPin net p pin.dir⟩
      · exact ⟨net, rfl, .refl net⟩
    · intro m hm
      rw [net?_attach_of_off hp hoff, hm]
      split <;> rfl
    · intro q old hq
      rw [pin?_attach_of_off hp hoff]
      split
      next heq =>
        subst heq
        rw [hp] at hq
        cases hq
        exact ⟨_, rfl, { Pin.Extends.refl pin with net := by simp [hnone] }⟩
      next => exact ⟨old, hq, .refl old⟩
    · intro b q hb
      rw [pinAt?_attach]
      exact hb

theorem addPin (nl : Netlist) (c : CellId) (name : String) (dir : PinDir) (kind : PinKind) :
    nl.Extends (nl.addPin c name dir kind) where
  net_stays _ net hn := ⟨net, hn, .refl net⟩
  no_new_net _ hn := hn
  pin_stays _ pin hp := ⟨pin, pin?_addPin_of_some nl hp c name dir kind, .refl pin⟩
  mapping_stays _ _ hb := hb

theorem addPseudoPin (nl : Netlist) (c : CellId) (name : String) (dir : PinDir) :
    nl.Extends (nl.addPseudoPin c name dir) :=
  (addPin nl c name dir .pseudo).trans (of_eq rfl rfl rfl)

theorem mapPin (p : PinId) {b : BelPinId} (hb : nl.pinAt? b = none) :
    nl.Extends (nl.mapPin p b) where
  net_stays _ net hn := ⟨net, hn, .refl net⟩
  no_new_net _ hn := hn
  pin_stays q pin hq := by
    change ∃ pin', (nl.modifyPin p _).pin? q = some pin' ∧ _
    rw [pin?_modifyPin, hq]
    split
    · exact ⟨_, rfl, { Pin.Extends.refl pin with belPins := List.prefix_append .. }⟩
    · exact ⟨pin, rfl, .refl pin⟩
  mapping_stays c q hc := by
    rw [pinAt?_mapPin, if_neg]
    · exact hc
    · rintro rfl
      rw [hb] at hc
      cases hc

theorem tie (nl : Netlist) (n : NetId) (c : CellId) (name : String) (dir : PinDir) {b : BelPinId}
    (hb : nl.pinAt? b = none) :
    nl.Extends (((nl.addPseudoPin c name dir).attach n nl.nextPin).mapPin nl.nextPin b) := by
  have hoff : (nl.addPseudoPin c name dir).netOf? nl.nextPin = none := by
    rw [netOf?_addPseudoPin, Netlist.netOf?, pin?_nextPin]
    rfl
  have hfree : ((nl.addPseudoPin c name dir).attach n nl.nextPin).pinAt? b = none := by
    rw [pinAt?_attach]
    exact hb
  exact ((addPseudoPin nl c name dir).trans (attach_of_off n hoff)).trans (mapPin nl.nextPin hfree)

end Extends

end Netlist

end Fabric
