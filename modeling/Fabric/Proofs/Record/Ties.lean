import Fabric.Proofs.Netlist.Ties
import Fabric.Proofs.Record.Agreement
import Fabric.Proofs.Record.Progress
/-!
# What ties of ports do

A record that ties ports to a constant goes through the ports one after another. The nets that it
does away with are those that the pins of the ports were on when it began, but for the constant
itself. The other constant may be one of them.
-/

namespace Fabric

namespace Netlist

variable {nl₀ nl nl' : Netlist} {s : NetId} {names : List String} {name : String}

def PortsOn (nl : Netlist) (names : List String) (k : NetId) : Prop :=
  ∃ name ∈ names, nl.portNet? name = some k

def PinOfPorts (nl : Netlist) (names : List String) (p : PinId) : Prop :=
  ∃ name ∈ names, nl.portPin? name = some p

/-- The port has a new partition pin without a wire on the net. -/
def TiedAt (nl₀ : Netlist) (s : NetId) (nl : Netlist) (name : String) : Prop :=
  ∃ c cell q pin, nl.cellNamed? name = some c ∧ nl.cell? c = some cell ∧
    cell.partitionPin = some q ∧ nl₀.pin? q = none ∧ nl.pin? q = some pin ∧ pin.cell = c ∧
    pin.kind = .partition none ∧ pin.net = some s

structure AllTied (nl₀ : Netlist) (s : NetId) (names : List String) (nl : Netlist) : Prop where
  consistent : nl.Consistent
  ports : ∀ name, nl.portPin? name = nl₀.portPin? name
  cellIndex : nl.cellIndex = nl₀.cellIndex
  pin_stays : ∀ q, (nl₀.pin? q).isSome → (nl.pin? q).isSome
  nets : ∀ k, (nl.net? k).isSome ↔ (nl₀.net? k).isSome ∧ (nl₀.PortsOn names k → k = s)
  off : ∀ q, nl₀.PinOfPorts names q → nl.netOf? q = none
  joins : ∀ q k, ¬ nl₀.PinOfPorts names q → nl₀.netOf? q = some k → nl₀.PortsOn names k →
    nl.netOf? q = some s
  stays : ∀ q, (nl₀.pin? q).isSome → ¬ nl₀.PinOfPorts names q →
    (∀ k, nl₀.netOf? q = some k → ¬ nl₀.PortsOn names k) → nl.netOf? q = nl₀.netOf? q
  single : ∀ name ∈ names, (nl₀.portPin? name).isSome
  tied : ∀ name ∈ names, TiedAt nl₀ s nl name

theorem allTied_nil (hc : nl.Consistent) (s : NetId) : AllTied nl s [] nl where
  consistent := hc
  ports _ := rfl
  cellIndex := rfl
  pin_stays _ hq := hq
  nets k := by simp [PortsOn]
  off q hq := by simp [PinOfPorts] at hq
  joins q k _ _ hk := by simp [PortsOn] at hk
  stays _ _ _ _ := rfl
  single _ hname := absurd hname List.not_mem_nil
  tied _ hname := absurd hname List.not_mem_nil

theorem portsOn_append_iff {p : PinId} (hp : nl.portPin? name = some p) {k : NetId} :
    nl.PortsOn (names ++ [name]) k ↔ nl.PortsOn names k ∨ nl.netOf? p = some k := by
  simp [PortsOn, portNet?_of_portPin? hp, or_and_right, exists_or]

theorem pinOfPorts_append_iff {p q : PinId} (hp : nl.portPin? name = some p) :
    nl.PinOfPorts (names ++ [name]) q ↔ nl.PinOfPorts names q ∨ q = p := by
  simp [PinOfPorts, hp, or_and_right, exists_or, eq_comm]

theorem portsOn_of_pin {p : PinId} {k : NetId} (hp : nl.PinOfPorts names p)
    (hk : nl.netOf? p = some k) : nl.PortsOn names k := by
  obtain ⟨name, hname, hpin⟩ := hp
  exact ⟨name, hname, (portNet?_of_portPin? hpin).trans hk⟩

theorem Tied.portPin? {port : CellId} {p q : PinId} (h : Tied nl s port p q nl')
    (name : String) : nl'.portPin? name = nl.portPin? name := by
  unfold Netlist.portPin? cellNamed?
  rw [h.names]
  simp only [h.cells, Option.bind_eq_bind]
  congr 1
  funext c
  split
  · cases nl.cell? c <;> rfl
  · rfl

theorem Consistent.live_portPin (h : nl.Consistent) {p : PinId} (hp : nl.portPin? name = some p) :
    (nl.pin? p).isSome := by
  obtain ⟨c, cell, -, hcell, hpins⟩ := portPin?_eq_some.1 hp
  exact h.pin_of_cell c cell hcell p (hpins ▸ List.mem_singleton_self p)

namespace AllTied

section state

variable (h : AllTied nl₀ s names nl)

include h

/-- Where a pin is on a net now, it was on this net or on that of a port in the beginning. -/
theorem netOf?_eq_some {p : PinId} (hp : (nl₀.pin? p).isSome) {k : NetId}
    (hk : nl.netOf? p = some k) : nl₀.netOf? p = some k ∨ k = s := by
  have hnot : ¬ nl₀.PinOfPorts names p := by
    intro hpin
    rw [h.off p hpin] at hk
    cases hk
  by_cases hon : ∃ m, nl₀.netOf? p = some m ∧ nl₀.PortsOn names m
  · obtain ⟨m, hm, hports⟩ := hon
    rw [h.joins p m hnot hm hports] at hk
    exact .inr (Option.some.inj hk).symm
  · rw [h.stays p hp hnot fun m hm hports => hon ⟨m, hm, hports⟩] at hk
    exact .inl hk

theorem netOf?_of_not_portsOn {p : PinId} {k : NetId} (hk : nl₀.netOf? p = some k)
    (hports : ¬ nl₀.PortsOn names k) : nl.netOf? p = some k := by
  obtain ⟨pin, hp, -⟩ := exists_pin_of_netOf? hk
  have hthere : (nl₀.pin? p).isSome := by
    rw [hp]
    rfl
  refine (h.stays p hthere (fun hpin => hports (portsOn_of_pin hpin hk))
    fun m hm hm' => ?_).trans hk
  rw [hk] at hm
  exact hports (Option.some.inj hm ▸ hm')

end state

/-! ## One more port -/

section tie

variable (h : AllTied nl₀ s names nl) (h₀ : nl₀.Consistent) {port : CellId} {p q : PinId}
  (hpin : nl₀.portPin? name = some p) (htied : Tied nl s port p q nl')

include h htied

theorem netOf?_tie {r : PinId} (hr : (nl₀.pin? r).isSome) : nl'.netOf? r = if r = p then none
    else if (nl.netOf? p).isSome ∧ nl.netOf? r = nl.netOf? p then some s else nl.netOf? r :=
  htied.netOf r (h.pin_stays r hr)

theorem pin?_tie {r : PinId} (hr : (nl₀.pin? r).isSome) : (nl'.pin? r).isSome := by
  have hlive := h.pin_stays r hr
  have hmap := congrArg Option.isSome (htied.pins r hlive)
  rw [Option.isSome_map, Option.isSome_map] at hmap
  rw [hmap]
  exact hlive

include h₀ hpin

theorem nets_tie (k : NetId) : (nl'.net? k).isSome ↔
    (nl₀.net? k).isSome ∧ (nl₀.PortsOn (names ++ [name]) k → k = s) := by
  rw [htied.nets, h.nets, portsOn_append_iff hpin, and_assoc]
  refine and_congr_right fun _ => ⟨?_, fun hall => ⟨fun hk => hall (.inl hk), fun hk => ?_⟩⟩
  · rintro ⟨hold, hnew⟩ (hk | hk)
    · exact hold hk
    · by_cases hports : nl₀.PortsOn names k
      · exact hold hports
      · exact hnew (h.netOf?_of_not_portsOn hk hports)
  · rcases h.netOf?_eq_some (h₀.live_portPin hpin) hk with hold | rfl
    · exact hall (.inr hold)
    · rfl

theorem off_tie {r : PinId} (hr : nl₀.PinOfPorts (names ++ [name]) r) : nl'.netOf? r = none := by
  have hlive : (nl₀.pin? r).isSome := by
    obtain ⟨name', -, hpin'⟩ := hr
    exact h₀.live_portPin hpin'
  rw [pinOfPorts_append_iff hpin] at hr
  by_cases hrp : r = p
  · rw [h.netOf?_tie htied hlive, if_pos hrp]
  · rw [h.netOf?_tie htied hlive, if_neg hrp, h.off r (hr.resolve_right hrp), if_neg]
    rintro ⟨hsome, heq⟩
    rw [← heq] at hsome
    cases hsome

omit h₀ in
theorem joins_tie {r : PinId} {k : NetId} (hr : ¬ nl₀.PinOfPorts (names ++ [name]) r)
    (hk : nl₀.netOf? r = some k) (hports : nl₀.PortsOn (names ++ [name]) k) :
    nl'.netOf? r = some s := by
  obtain ⟨pin, hthere, -⟩ := exists_pin_of_netOf? hk
  rw [pinOfPorts_append_iff hpin, not_or] at hr
  rw [portsOn_append_iff hpin] at hports
  rw [h.netOf?_tie htied (by rw [hthere]; rfl), if_neg hr.2]
  split
  · rfl
  next hdiff =>
    by_cases hold : nl₀.PortsOn names k
    · exact h.joins r k hr.1 hk hold
    · have hp := h.netOf?_of_not_portsOn (hports.resolve_left hold) hold
      have hr := h.netOf?_of_not_portsOn hk hold
      exact (hdiff ⟨by rw [hp]; rfl, hr.trans hp.symm⟩).elim

theorem stays_tie {r : PinId} (hthere : (nl₀.pin? r).isSome)
    (hr : ¬ nl₀.PinOfPorts (names ++ [name]) r)
    (hports : ∀ k, nl₀.netOf? r = some k → ¬ nl₀.PortsOn (names ++ [name]) k) :
    nl'.netOf? r = nl₀.netOf? r := by
  rw [pinOfPorts_append_iff hpin, not_or] at hr
  simp only [portsOn_append_iff hpin, not_or] at hports
  rw [h.netOf?_tie htied hthere, if_neg hr.2, h.stays r hthere hr.1 fun k hk => (hports k hk).1]
  split
  next hsame =>
    obtain ⟨k, hk⟩ := Option.isSome_iff_exists.1 hsame.1
    have hrk := hsame.2.trans hk
    rcases h.netOf?_eq_some (h₀.live_portPin hpin) hk with hold | rfl
    · exact ((hports k hrk).2 hold).elim
    · exact hrk.symm
  next => rfl

omit hpin h₀ in
theorem new_tie : nl₀.pin? q = none := by
  rw [← Option.not_isSome_iff_eq_none]
  intro hq
  have hlive := h.pin_stays q hq
  rw [htied.new] at hlive
  cases hlive

omit hpin h₀ in
theorem tiedAt_port (hport : nl.cellNamed? name = some port) (hcell : (nl.cell? port).isSome) :
    TiedAt nl₀ s nl' name := by
  obtain ⟨cell, hcell⟩ := Option.isSome_iff_exists.1 hcell
  obtain ⟨pin, hq, hpin⟩ := htied.partition
  refine ⟨port, { cell with partitionPin := some q }, q, pin, ?_, ?_, rfl, h.new_tie htied, hq,
    hpin⟩
  · unfold cellNamed? at hport ⊢
    rw [htied.names]
    exact hport
  · rw [htied.cells, if_pos rfl, hcell]
    rfl

theorem tiedAt_tie (hcell : (nl.cell? port).isSome) {other : String}
    (hother : TiedAt nl₀ s nl other) : TiedAt nl₀ s nl' other := by
  obtain ⟨c, cell, r, pin, hnamed, hcell', hpart, hnew, hr, hc, hkind, hnet⟩ := hother
  by_cases hsame : c = port
  · exact h.tiedAt_port htied (hsame ▸ hnamed) hcell
  have hlive : (nl.pin? r).isSome := by
    rw [hr]
    rfl
  -- The pin of another port is on the constant, which is where all that moves goes.
  obtain ⟨pin', hr', heq⟩ : ∃ pin', nl'.pin? r = some pin' ∧ pin'.offNet = pin.offNet := by
    have hmap := htied.pins r hlive
    rw [hr] at hmap
    exact Option.map_eq_some_iff.1 hmap
  have hrp : r ≠ p := by
    rintro rfl
    have hlive₀ := h₀.live_portPin hpin
    rw [hnew] at hlive₀
    cases hlive₀
  refine ⟨c, cell, r, pin', ?_, ?_, hpart, hnew, hr', (congrArg Pin.cell heq).trans hc,
    (congrArg Pin.kind heq).trans hkind, ?_⟩
  · unfold cellNamed? at hnamed ⊢
    rw [htied.names]
    exact hnamed
  · rw [htied.cells, if_neg hsame]
    exact hcell'
  · rw [← netOf?_eq hr', htied.netOf r hlive, if_neg hrp, netOf?_eq hr, hnet]
    split <;> rfl

theorem tie (hport : nl.cellNamed? name = some port) (hcell : (nl.cell? port).isSome) :
    AllTied nl₀ s (names ++ [name]) nl' where
  consistent := htied.consistent
  ports name' := (htied.portPin? name').trans (h.ports name')
  cellIndex := htied.names.trans h.cellIndex
  pin_stays _ hr := h.pin?_tie htied hr
  nets := h.nets_tie h₀ hpin htied
  off _ hr := h.off_tie h₀ hpin htied hr
  joins _ _ hr hk hports := h.joins_tie hpin htied hr hk hports
  stays _ hthere hr hports := h.stays_tie h₀ hpin htied hthere hr hports
  single other hother := by
    rcases List.mem_append.1 hother with hold | hlast
    · exact h.single other hold
    · rw [List.mem_singleton.1 hlast, hpin]
      rfl
  tied other hother := by
    rcases List.mem_append.1 hother with hold | hlast
    · exact h.tiedAt_tie h₀ hpin htied hcell (h.tied other hold)
    · obtain rfl := List.mem_singleton.1 hlast
      exact h.tiedAt_port htied hport hcell

end tie

end AllTied

end Netlist

namespace Record

variable {im im' : Importer} {isVcc : Bool} {names : List String}

theorem allTied_of_staticPorts (hc : im.netlist.Consistent)
    (hrun : (staticPorts isVcc names).run.run im = .ok (.ok (), im')) :
    im.netlist.AllTied (Netlist.staticNet isVcc) names im'.netlist := by
  have hnoted : ∀ (im : Importer) port node, im.netlist.Consistent →
      (im.notePort port node).netlist.Consistent := fun im port node hc =>
    hc.congr (fun _ => rfl) (fun _ => rfl) hc.pin_of_cell
  have hloop : Ensures True (fun im => im.netlist.Consistent) (staticPorts isVcc names) im
      fun _ im' => im.netlist.AllTied (Netlist.staticNet isVcc) names im'.netlist := by
    refine Ensures.forM_done
      (P := fun done im' => im.netlist.AllTied (Netlist.staticNet isVcc) done im'.netlist)
      (f := staticPort isVcc) (fun done name _ im₁ hc₁ hdone => ?_) [] hc
      (Netlist.allTied_nil hc _)
    refine (ensures_staticPort hc₁ (fun node => hnoted im₁ name node hc₁) (fun _ hc => hc)
      (fun _ _ => .inl trivial) (.inl trivial) fun node port im₂ _ hties => ?_).post
      fun _ im₂ _ hout => ?_
    · exact hties.consistent (hnoted im₁ name node hc₁)
    · obtain ⟨node, port, hnamed, hties⟩ := hout
      cases hties with
      | @intro cell p nl hcell hpins htie =>
        obtain ⟨q, htied⟩ := Netlist.tied_of_tiePort (hnoted im₁ name node hc₁) htie
        have hdone' : im.netlist.AllTied (Netlist.staticNet isVcc) done
            (im₁.notePort name node).netlist :=
          { hdone with consistent := hnoted im₁ name node hc₁ }
        have hpin : (im₁.notePort name node).netlist.portPin? name = some p :=
          Netlist.portPin?_eq_some.2 ⟨port, cell, hnamed, hcell, hpins⟩
        rw [hdone'.ports] at hpin
        exact hdone'.tie hc hpin htied hnamed (by rw [hcell]; rfl)
  exact hloop.result hrun

/-- A net is still there unless the pin of a port was on it and it is not the constant. The pins of
the ports are off, and each port has a new partition pin on the constant. Of all other pins those
of nets that are gone are on the constant, and the rest are where they were. -/
theorem staticPorts_spec (h : im.netlist.Built)
    (hrun : (staticPorts isVcc names).run.run im = .ok (.ok (), im')) :
    (∀ k, (im'.netlist.net? k).isSome ↔ (im.netlist.net? k).isSome ∧
      (k = Netlist.staticNet isVcc ∨ ∀ name ∈ names, im.netlist.portNet? name ≠ some k)) ∧
    (∀ name ∈ names, (∃ p, im.netlist.portPin? name = some p ∧ im'.netlist.netOf? p = none) ∧
      Netlist.TiedAt im.netlist (Netlist.staticNet isVcc) im'.netlist name) ∧
    (∀ q k, (∀ name ∈ names, im.netlist.portPin? name ≠ some q) → im.netlist.netOf? q = some k →
      im'.netlist.net? k = none → im'.netlist.netOf? q = some (Netlist.staticNet isVcc)) ∧
    ∀ q, (im.netlist.pin? q).isSome → (∀ name ∈ names, im.netlist.portPin? name ≠ some q) →
      (∀ k, im.netlist.netOf? q = some k → (im'.netlist.net? k).isSome) →
      im'.netlist.netOf? q = im.netlist.netOf? q := by
  have hc := h.consistent
  have htied := allTied_of_staticPorts hc hrun
  refine ⟨fun k => ?_, fun name hname => ⟨?_, htied.tied name hname⟩, fun q k hq hk hgone => ?_,
    fun q hthere hq hlive => ?_⟩
  · rw [htied.nets]
    refine and_congr_right fun _ => ⟨fun hk => ?_, ?_⟩
    · by_cases hports : im.netlist.PortsOn names k
      · exact .inl (hk hports)
      · exact .inr fun name hname hon => hports ⟨name, hname, hon⟩
    · rintro (rfl | hother) ⟨name, hname, hon⟩
      · rfl
      · exact (hother name hname hon).elim
  · obtain ⟨p, hp⟩ := Option.isSome_iff_exists.1 (htied.single name hname)
    exact ⟨p, hp, htied.off p ⟨name, hname, hp⟩⟩
  · refine htied.joins q k (fun ⟨name, hname, hp⟩ => hq name hname hp) hk ?_
    by_contra hports
    have hstill := (htied.nets k).2 ⟨hc.live_net hk, fun hon => (hports hon).elim⟩
    rw [hgone] at hstill
    cases hstill
  · have hnot : ¬ im.netlist.PinOfPorts names q := fun ⟨name, hname, hp⟩ => hq name hname hp
    by_cases hports : ∃ k, im.netlist.netOf? q = some k ∧ im.netlist.PortsOn names k
    · obtain ⟨k, hk, hon⟩ := hports
      obtain rfl := ((htied.nets k).1 (hlive k hk)).2 hon
      rw [hk]
      exact htied.joins q _ hnot hk hon
    · exact htied.stays q hthere hnot fun k hk hon => hports ⟨k, hk, hon⟩

/-- Two ports are tied, one of them twice. The net of the one goes over to VCC, and the ground
stays. -/
theorem staticPorts_spec_twoPorts : ∃ d nl im', Netlist.ofDescription d twoPorts = .ok nl ∧
    nl.Built ∧
    (staticPorts true ["din", "tie", "din"]).run.run (.ofNetlist nl) = .ok (.ok (), im') ∧
    im'.netlist.net? ⟨2⟩ = none ∧ (im'.netlist.net? Netlist.gnd).isSome ∧
    im'.netlist.netOf? ⟨0⟩ = none ∧ im'.netlist.netOf? ⟨2⟩ = some Netlist.vcc := by
  have hrun : (do
      let d ← (Device.ofDescription inlet).toOption
      let nl ← (Netlist.ofDescription d twoPorts).toOption
      let (r, _) ← ((staticPorts true ["din", "tie", "din"]).run.run (.ofNetlist nl)).toOption
      return (r.toOption, decide (nl.portPin? "din" = some ⟨0⟩ ∧ nl.portPin? "tie" = some ⟨1⟩ ∧
        nl.portNet? "din" = some ⟨2⟩ ∧ nl.portNet? "tie" = some ⟨3⟩ ∧ nl.netOf? ⟨2⟩ = some ⟨2⟩ ∧
        (nl.net? Netlist.gnd).isSome))) = some (some (), true) := by
    decide +kernel
  simp only [Option.bind_eq_bind, Option.bind_eq_some_iff, Checked.toOption_eq_some,
    Option.pure_def, Option.some.injEq, Prod.mk.injEq, decide_eq_true_eq] at hrun
  obtain ⟨d, -, nl, hnl, ⟨r, im'⟩, hrun, rfl, hdinPin, htiePin, hdin, htie, hof, hgnd⟩ := hrun
  have hbuilt : (Importer.ofNetlist nl).netlist.Built := .loaded hnl
  obtain ⟨hnets, hports, hjoins, -⟩ := staticPorts_spec hbuilt hrun
  have hgone : im'.netlist.net? ⟨2⟩ = none := by
    rw [← Option.not_isSome_iff_eq_none, hnets]
    rintro ⟨-, hconstant | hother⟩
    · cases hconstant
    · exact hother "din" (by simp) hdin
  refine ⟨d, nl, im', hnl, hbuilt, hrun, hgone, (hnets _).2 ⟨hgnd, .inr ?_⟩, ?_, ?_⟩
  · simp only [List.forall_mem_cons, List.not_mem_nil, false_imp_iff, implies_true, and_true,
      Importer.ofNetlist, hdin, htie]
    decide
  · obtain ⟨⟨p, hp, hoff⟩, -⟩ := hports "din" (by simp)
    obtain rfl : ⟨0⟩ = p := Option.some.inj (hdinPin.symm.trans hp)
    exact hoff
  · refine hjoins ⟨2⟩ ⟨2⟩ ?_ hof hgone
    simp only [List.forall_mem_cons, List.not_mem_nil, false_imp_iff, implies_true, and_true,
      Importer.ofNetlist, hdinPin, htiePin]
    decide

def groundedPort : NetlistDescription where
  name := "top"
  mode := .outOfContext
  cells := [⟨"din", "IBUF", none, true, ∅, [⟨"O", .output, []⟩]⟩]
  nets := [⟨"GND", .gnd, ["din/O"]⟩]
  staticNetOf := ∅
  staticRoutes := ∅

/-- A tie of a grounded port to VCC does away with the ground. -/
theorem staticPorts_loses_gnd : ∃ d nl im', Device.ofDescription inlet = .ok d ∧
    Netlist.ofDescription d groundedPort = .ok nl ∧ (nl.net? Netlist.gnd).isSome ∧
    (staticPorts true ["din"]).run.run (.ofNetlist nl) = .ok (.ok (), im') ∧
    im'.netlist.net? Netlist.gnd = none := by
  have hrun : (do
      let d ← (Device.ofDescription inlet).toOption
      let nl ← (Netlist.ofDescription d groundedPort).toOption
      let (r, im') ← ((staticPorts true ["din"]).run.run (.ofNetlist nl)).toOption
      return (r.toOption, (nl.net? Netlist.gnd).isSome, (im'.netlist.net? Netlist.gnd).isNone)) =
        some (some (), true, true) := by
    decide +kernel
  simp only [Option.bind_eq_bind, Option.bind_eq_some_iff, Checked.toOption_eq_some,
    Option.pure_def, Option.some.injEq, Prod.mk.injEq, Option.isNone_iff_eq_none] at hrun
  obtain ⟨d, hd, nl, hnl, ⟨r, im'⟩, hrun, rfl, hbefore, hafter⟩ := hrun
  exact ⟨d, nl, im', hd, hnl, hbefore, hrun, hafter⟩

end Record

end Fabric
