import Fabric.Proofs.Netlist.Boundary
import Fabric.Proofs.Netlist.Placement
/-!
# What a tie does to pins and nets

A tie of a port to a constant takes the pin of the port off its net. The net goes away, its other
pins go over to the constant, and so does the partition pin that the port gets. All other pins and
nets are as they were.
-/

namespace Fabric

namespace Netlist

structure Moves (nl nl' : Netlist) : Prop where
  cells : ∀ c, nl'.cell? c = nl.cell? c
  names : nl'.cellIndex = nl.cellIndex
  pins : ∀ p, (nl'.pin? p).map Pin.offNet = (nl.pin? p).map Pin.offNet

variable {nl nl' nl'' : Netlist} {n s : NetId} {p : PinId}

namespace Moves

theorem refl (nl : Netlist) : nl.Moves nl := ⟨fun _ => rfl, rfl, fun _ => rfl⟩

theorem trans (h : nl.Moves nl') (h' : nl'.Moves nl'') : nl.Moves nl'' where
  cells c := (h'.cells c).trans (h.cells c)
  names := h'.names.trans h.names
  pins p := (h'.pins p).trans (h.pins p)

theorem isSome_pin? (h : nl.Moves nl') (p : PinId) : (nl'.pin? p).isSome = (nl.pin? p).isSome := by
  have hmap := congrArg Option.isSome (h.pins p)
  simpa only [Option.isSome_map] using hmap

theorem detach (nl : Netlist) (n : NetId) (p : PinId) : nl.Moves (nl.detach n p) where
  cells := cell?_detach nl n p
  names := (Rejoins.detach nl n p).cellIndex
  pins q := by
    rw [pin?_detach]
    split
    · rw [Option.map_map]
      rfl
    · rfl

theorem attach (nl : Netlist) (n : NetId) (p : PinId) : nl.Moves (nl.attach n p) where
  cells := cell?_attach nl n p
  names := (Rejoins.attach nl n p).cellIndex
  pins q := by
    have off : ∀ {nl : Netlist}, nl.netOf? p = none →
        ((nl.attach n p).pin? q).map Pin.offNet = (nl.pin? q).map Pin.offNet := by
      intro nl hoff
      cases hp : nl.pin? p with
      | none => rw [attach_of_no_pin hp]
      | some pin =>
        rw [pin?_attach_of_off hp hoff]
        split
        next heq => rw [heq, hp]; rfl
        next => rfl
    cases hp : nl.netOf? p with
    | none => exact off hp
    | some m =>
      by_cases hm : m = n
      · rw [attach_of_on (hm ▸ hp)]
      · have hoff : (nl.detach m p).netOf? p = none := by rw [netOf?_detach, if_pos ⟨rfl, hp⟩]
        rw [attach_of_other hp hm, off hoff]
        exact (detach nl m p).pins q

theorem removeNet (nl : Netlist) (n : NetId) : nl.Moves (nl.removeNet n) where
  cells := cell?_removeNet nl n
  names := by
    unfold Netlist.removeNet
    split
    · rfl
    · rw [foldl_setPinNet_eq]
  pins q := by
    rw [pin?_removeNet]
    split
    · rw [Option.map_map]
      rfl
    · rfl

end Moves

/-! ## Dissolving nets -/

theorem connect_all {ps : List PinId} (hc : nl.Consistent)
    (h : ps.foldlM (fun nl p => nl.connect s p) nl = .ok nl') :
    nl'.Consistent ∧ nl.Moves nl' ∧ (∀ k, (nl'.net? k).isSome = (nl.net? k).isSome) ∧
      ∀ q, nl'.netOf? q = if q ∈ ps then some s else nl.netOf? q := by
  induction ps generalizing nl with
  | nil =>
    cases Checked.pure_eq_ok.1 h
    exact ⟨hc, .refl _, fun _ => rfl, fun q => by simp⟩
  | cons p ps ih =>
    rw [List.foldlM_cons] at h
    obtain ⟨mid, hmid, h⟩ := Checked.bind_eq_ok.1 h
    obtain ⟨hs, hp, rfl⟩ := hc.connect_iff.1 hmid
    obtain ⟨pin, hpin⟩ := Option.isSome_iff_exists.1 hp
    obtain ⟨hc', hmoves, hnets, hof⟩ := ih (hc.attach hs p) h
    refine ⟨hc', (Moves.attach nl s p).trans hmoves, fun k => ?_, fun q => ?_⟩
    · rw [hnets, (Rejoins.attach nl s p).isSome_net?]
    · rw [hof, netOf?_attach hpin]
      by_cases hq : q = p <;> simp [hq]

/-- The pins of a net that is dissolved go over to the other net. -/
theorem dissolve_spec (hc : nl.Consistent) (hne : n ≠ s) (h : nl.dissolve n s = .ok nl') :
    nl'.Consistent ∧ nl.Moves nl' ∧ (∀ k, (nl'.net? k).isSome ↔ (nl.net? k).isSome ∧ k ≠ n) ∧
      ∀ q, nl'.netOf? q = if nl.netOf? q = some n then some s else nl.netOf? q := by
  unfold dissolve at h
  obtain ⟨net, hget, h⟩ := Checked.bind_eq_ok.1 h
  obtain ⟨mid, hmid, h⟩ := Checked.bind_eq_ok.1 h
  cases Checked.pure_eq_ok.1 h
  have hn := getNet_eq_ok.1 hget
  obtain ⟨hc', hmoves, hnets, hof⟩ := connect_all hc hmid
  refine ⟨hc'.removeNet n, hmoves.trans (.removeNet mid n), fun k => ?_, fun q => ?_⟩
  · rw [net?_removeNet, ← hnets]
    by_cases hk : k = n <;> simp [hk]
  · have hmem : mid.netOf? q = if nl.netOf? q = some n then some s else nl.netOf? q := by
      simp only [hof, hc.mem_pins hn]
    have hoff : mid.netOf? q ≠ some n := by
      rw [hmem]
      split
      · simpa using hne.symm
      next hother => exact hother
    obtain ⟨net', hn'⟩ : ∃ net', mid.net? n = some net' := by
      rw [← Option.isSome_iff_exists, hnets, hn]
      rfl
    rw [netOf?_removeNet mid n hn', if_neg, hmem]
    rwa [hc'.mem_pins hn']

/-! ## Ties -/

/-- The pin `p` is off its net, and what else was on this net is on the net `s`. -/
structure Freed (nl : Netlist) (s : NetId) (p : PinId) (nl' : Netlist) : Prop where
  consistent : nl'.Consistent
  moves : nl.Moves nl'
  nets : ∀ k, (nl'.net? k).isSome ↔ (nl.net? k).isSome ∧ (nl.netOf? p = some k → k = s)
  netOf : ∀ q, nl'.netOf? q = if q = p then none
    else if (nl.netOf? p).isSome ∧ nl.netOf? q = nl.netOf? p then some s else nl.netOf? q

/-- The port is tied to the net `s` by the new pin `q` in place of its pin `p`. -/
structure Tied (nl : Netlist) (s : NetId) (port : CellId) (p q : PinId) (nl' : Netlist) :
    Prop where
  consistent : nl'.Consistent
  new : nl.pin? q = none
  partition : ∃ pin, nl'.pin? q = some pin ∧ pin.cell = port ∧ pin.kind = .partition none ∧
    pin.net = some s
  pins : ∀ r, (nl.pin? r).isSome → (nl'.pin? r).map Pin.offNet = (nl.pin? r).map Pin.offNet
  names : nl'.cellIndex = nl.cellIndex
  cells : ∀ c, nl'.cell? c =
    if c = port then (nl.cell? c).map fun cell => { cell with partitionPin := some q }
    else nl.cell? c
  nets : ∀ k, (nl'.net? k).isSome ↔ (nl.net? k).isSome ∧ (nl.netOf? p = some k → k = s)
  netOf : ∀ r, (nl.pin? r).isSome → nl'.netOf? r = if r = p then none
    else if (nl.netOf? p).isSome ∧ nl.netOf? r = nl.netOf? p then some s else nl.netOf? r

theorem freed_of_off (hc : nl.Consistent) (hp : nl.netOf? p = none) : Freed nl s p nl where
  consistent := hc
  moves := .refl nl
  nets k := by simp [hp]
  netOf q := by
    by_cases hq : q = p <;> simp [hp, hq]

theorem freed_of_detach (hc : nl.Consistent) (hp : nl.netOf? p = some s) :
    Freed nl s p (nl.detach s p) where
  consistent := hc.detach s p
  moves := .detach nl s p
  nets k := by
    rw [(Rejoins.detach nl s p).isSome_net?, hp]
    exact ⟨fun hk => ⟨hk, fun heq => (Option.some.inj heq).symm⟩, And.left⟩
  netOf q := by
    rw [netOf?_detach]
    by_cases hq : q = p
    · simp [hp, hq]
    · by_cases hon : nl.netOf? q = some s <;> simp [hp, hq, hon]

theorem freed_of_dissolve (hc : nl.Consistent) (hp : nl.netOf? p = some n) (hne : n ≠ s)
    (h : (nl.detach n p).dissolve n s = .ok nl') : Freed nl s p nl' := by
  obtain ⟨hc', hmoves, hnets, hof⟩ := dissolve_spec (hc.detach n p) hne h
  refine ⟨hc', (Moves.detach nl n p).trans hmoves, fun k => ?_, fun q => ?_⟩
  · rw [hnets, (Rejoins.detach nl n p).isSome_net?, hp]
    refine and_congr_right fun _ => ⟨fun hk heq => (hk (Option.some.inj heq).symm).elim, ?_⟩
    rintro hk rfl
    exact hne (hk rfl)
  · rw [hof, netOf?_detach]
    by_cases hq : q = p
    · simp [hp, hq]
    · by_cases hon : nl.netOf? q = some n <;> simp [hp, hq, hon]

theorem tied_of_freed {mid : Netlist} (h : Freed nl s p mid) {port : CellId} {name : String}
    (htie : (do
      let tied ← mid.newPin port name .input (.partition none)
      tied.connect s mid.nextPin) = .ok nl') : ∃ q, Tied nl s port p q nl' := by
  obtain ⟨added, hadd, htie⟩ := Checked.bind_eq_ok.1 htie
  obtain ⟨-, rfl⟩ := newPin_eq_ok.1 hadd
  have hadded := h.consistent.addPin port name .input (.partition none)
  obtain ⟨hs, hq, rfl⟩ := hadded.connect_iff.1 htie
  -- The new pin has a number that no pin had.
  have hqNew : mid.pin? mid.nextPin = none := pin?_nextPin mid
  have hold : ∀ r, (nl.pin? r).isSome → r ≠ mid.nextPin := by
    rintro r hr rfl
    rw [← h.moves.isSome_pin?, hqNew] at hr
    cases hr
  have hqPin : (mid.addPin port name .input (.partition none)).pin? mid.nextPin =
      some { name, cell := port, dir := .input, kind := .partition none } := by
    rw [pin?_addPin, if_pos rfl]
  have hqOff : (mid.addPin port name .input (.partition none)).netOf? mid.nextPin = none := by
    rw [netOf?_addPin]
    exact netOf?_of_new hqNew
  refine ⟨mid.nextPin, hadded.attach hs _, ?_,
    ⟨{ name, cell := port, dir := .input, kind := .partition none, net := some s }, ?_, rfl, rfl,
      rfl⟩, fun r hr => ?_, ?_, fun c => ?_, fun k => ?_, fun r hr => ?_⟩
  · rw [← Option.not_isSome_iff_eq_none, ← h.moves.isSome_pin?, hqNew]
    simp
  · rw [pin?_attach_of_off hqPin hqOff, if_pos rfl]
  · rw [(Moves.attach _ s _).pins, pin?_addPin, if_neg (hold r hr)]
    exact h.moves.pins r
  · exact (Moves.attach _ s _).names.trans h.moves.names
  · rw [cell?_attach, cell?_addPin, h.moves.cells]
    rfl
  · rw [(Rejoins.attach _ s _).isSome_net?]
    exact h.nets k
  · rw [netOf?_attach hqPin, if_neg (hold r hr), netOf?_addPin]
    exact h.netOf r

theorem tied_of_tiePort (hc : nl.Consistent) {port : CellId}
    (h : nl.tiePort s port p = .ok nl') : ∃ q, Tied nl s port p q nl' := by
  unfold tiePort at h
  obtain ⟨pin, hget, h⟩ := Checked.bind_eq_ok.1 h
  have hof := netOf?_eq (getPin_eq_ok.1 hget)
  dsimp only at h
  split at h
  next hnet => exact tied_of_freed (freed_of_off hc (hof.trans hnet)) h
  next n hnet =>
    obtain ⟨off, hoff, h⟩ := Checked.bind_eq_ok.1 h
    obtain ⟨-, -, rfl⟩ := disconnect_eq_ok.1 hoff
    split at h
    next heq =>
      subst heq
      exact tied_of_freed (freed_of_detach hc (hof.trans hnet)) h
    next hne =>
      obtain ⟨mid, hmid, h⟩ := Checked.bind_eq_ok.1 h
      exact tied_of_freed (freed_of_dissolve hc (hof.trans hnet) hne hmid) h

end Netlist

end Fabric
