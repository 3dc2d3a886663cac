import Fabric.Proofs.Netlist.Boundary
import Fabric.Proofs.Record.Walk
/-!
# Records about ports

A tie of a port to a constant may remove a net. It is safe if no route waits for this net and the
net is not the other constant.
-/

namespace Fabric

def Netlist.portPin? (nl : Netlist) (name : String) : Option PinId := do
  let c ← nl.cellNamed? name
  let cell ← nl.cell? c
  match cell.pins with
  | [p] => some p
  | _ => none

def Netlist.portNet? (nl : Netlist) (name : String) : Option NetId := do
  let c ← nl.cellNamed? name
  let cell ← nl.cell? c
  match cell.pins with
  | [p] => nl.netOf? p
  | _ => none

namespace Netlist

variable {nl nl' : Netlist} {name : String}

theorem portNet?_eq {c : CellId} {cell : Cell} {p : PinId} (hname : nl.cellNamed? name = some c)
    (hcell : nl.cell? c = some cell) (hpins : cell.pins = [p]) :
    nl.portNet? name = nl.netOf? p := by
  simp only [portNet?, hname, hcell, hpins, Option.bind_eq_bind, Option.bind_some]

theorem portNet?_eq_some {n : NetId} (h : nl.portNet? name = some n) :
    ∃ c cell p, nl.cellNamed? name = some c ∧ nl.cell? c = some cell ∧ cell.pins = [p] ∧
      nl.netOf? p = some n := by
  simp only [portNet?, Option.bind_eq_bind, Option.bind_eq_some_iff] at h
  obtain ⟨c, hc, cell, hcell, hn⟩ := h
  split at hn
  next p hpins => exact ⟨c, cell, p, hc, hcell, hpins, hn⟩
  next => cases hn

theorem portPin?_eq_some {p : PinId} : nl.portPin? name = some p ↔
    ∃ c cell, nl.cellNamed? name = some c ∧ nl.cell? c = some cell ∧ cell.pins = [p] := by
  simp only [portPin?, Option.bind_eq_bind, Option.bind_eq_some_iff]
  refine exists_congr fun c => ?_
  constructor
  · rintro ⟨hc, cell, hcell, hp⟩
    split at hp
    next p' hpins => exact ⟨cell, hc, hcell, by rw [hpins, Option.some.inj hp]⟩
    next => cases hp
  · rintro ⟨cell, hc, hcell, hpins⟩
    exact ⟨hc, cell, hcell, by rw [hpins]⟩

theorem portNet?_of_portPin? {p : PinId} (h : nl.portPin? name = some p) :
    nl.portNet? name = nl.netOf? p := by
  obtain ⟨c, cell, hname, hcell, hpins⟩ := portPin?_eq_some.1 h
  exact portNet?_eq hname hcell hpins

theorem Merges.portNet? {m n : NetId} {gone : NetId → Prop} {lost : PinId → NetId → Prop} {F : Prop}
    (h : Merges F m gone lost nl nl') (hn : nl'.portNet? name = some n) :
    n = m ∨ nl.portNet? name = some n := by
  obtain ⟨c, cell', p, hname, hcell', hpins', hon⟩ := portNet?_eq_some hn
  refine (h.moves p n hon).imp_right fun hon => ?_
  have hmap := h.cells c
  rw [hcell', Option.map_some, eq_comm, Option.map_eq_some_iff] at hmap
  obtain ⟨cell, hcell, hpins⟩ := hmap
  unfold cellNamed? at hname
  rw [h.names] at hname
  exact (portNet?_eq hname hcell (hpins.trans hpins')).trans hon

end Netlist

namespace Record

variable {d : Device} {S : NetId → Prop} {C F : Prop} {I : Importer → Prop} {im im' : Importer}

/-! ## What the changes do -/

theorem reworks_reserve {nl : Netlist} {lost : PinId → NetId → Prop} (h : F ∨ nl.Closed)
    (reservedNodes : Table Wire NetId) :
    Netlist.Reworks F lost nl { nl with reservedNodes } where
  rewires := .of_eq rfl rfl rfl rfl
  repins := .of_eq rfl
  closed := h.imp_right fun h =>
    h.rejoin (h.toConsistent.congr (fun _ => rfl) (fun _ => rfl) h.pin_of_cell)
      ⟨rfl, rfl, rfl, rfl, rfl, fun _ => rfl, fun _ => rfl⟩
  net_stays _ hn := hn
  pin_stays _ hp := hp

theorem Bounds.reworks (h : Bounds im im') (hc : F ∨ im.netlist.Closed) :
    im'.siteRoutes = im.siteRoutes ∧ ∃ p, im'.netlist.Replaced p ∧
      Netlist.Reworks F (fun p' _ => p' = p) im.netlist im'.netlist := by
  cases h with
  | @intro port cell p q wire isSource nl hcell hpin hadd reservedNodes =>
    obtain ⟨hreworks, hreplaced, -⟩ := (Netlist.yields_addPartitionPin hc hcell
      (hpin ▸ List.mem_singleton_self p) im.multiPortNets wire isSource).result hadd
    have hreserve : Netlist.Reworks F (fun p' _ => p' = p) nl { nl with reservedNodes } :=
      reworks_reserve hreworks.closed reservedNodes
    exact ⟨rfl, p, hreserve.rewires.replaced p hreplaced, hreworks.trans hreserve⟩

theorem Ties.merges {isVcc : Bool} {port : CellId} (h : Ties isVcc port im im')
    (hc : im.netlist.Consistent) (hclosed : F ∨ im.netlist.Closed)
    (hother : ∀ cell p, im.netlist.cell? port = some cell → cell.pins = [p] →
      F ∨ im.netlist.netOf? p ≠ some (Netlist.staticNet !isVcc)) :
    im'.siteRoutes = im.siteRoutes ∧ ∃ cell p, im.netlist.cell? port = some cell ∧
      cell.pins = [p] ∧ im'.netlist.Replaced p ∧
      Netlist.Merges F (Netlist.staticNet isVcc)
        (fun k => k ≠ Netlist.staticNet isVcc ∧ im.netlist.netOf? p = some k) (fun p' _ => p' = p)
        im.netlist im'.netlist := by
  cases h with
  | @intro cell p nl hcell hpin htie =>
    obtain ⟨hmerges, hreplaced⟩ := (Netlist.yields_tiePort hc hclosed hcell
      (hpin ▸ List.mem_singleton_self p) (hother cell p hcell hpin)).result htie
    exact ⟨rfl, cell, p, hcell, hpin, hreplaced, hmerges⟩

theorem Bounds.consistent (h : Bounds im im') (hc : im.netlist.Consistent) :
    im'.netlist.Consistent := by
  obtain ⟨-, p, -, hreworks⟩ := h.reworks (F := True) (.inl trivial)
  exact hreworks.rewires.consistent hc

theorem Bounds.repins (h : Bounds im im') : im.netlist.Repins im'.netlist := by
  obtain ⟨-, p, -, hreworks⟩ := h.reworks (F := True) (.inl trivial)
  exact hreworks.repins

section ties

variable {isVcc : Bool} {port : CellId} (h : Ties isVcc port im im') (hc : im.netlist.Consistent)

include h hc

theorem Ties.consistent : im'.netlist.Consistent := by
  obtain ⟨-, cell, p, -, -, -, hmerges⟩ :=
    h.merges (F := True) hc (.inl trivial) fun _ _ _ _ => .inl trivial
  exact hmerges.rewires.consistent hc

theorem Ties.repins : im.netlist.Repins im'.netlist := by
  obtain ⟨-, cell, p, -, -, -, hmerges⟩ :=
    h.merges (F := True) hc (.inl trivial) fun _ _ _ _ => .inl trivial
  exact hmerges.repins

end ties

/-! ## Records -/

theorem ensures_setPortNode {port node : String} (him : I im) (hnode : I (im.notePort port node)) :
    Ensures F I (setPortNode port node) im fun _ im' => im' = im.notePort port node := by
  unfold setPortNode
  refine (ensures_edit him (.inr ?_) fun nl hnl => ?_).post fun _ im' _ him' => ?_
  · exact ⟨_, rfl⟩
  · cases hnl
    exact hnode
  · obtain ⟨nl, hnl, rfl⟩ := him'
    cases hnl
    rfl

theorem notedPort_notePort (im : Importer) {name : String} {port : CellId}
    (hnamed : im.netlist.cellNamed? name = some port) (node : String) :
    NotedPort (im.notePort name node).netlist port :=
  ⟨name, hnamed, by simp [Importer.notePort]⟩

inductive Partitions (d : Device) (im : Importer) : List String → Importer → Prop
  | intro {portName node : String} {port : CellId} {cell : Cell} {p q : PinId} {wire : Wire}
      {isSource : Bool} {nl : Netlist} {pin : Pin}
      (hnamed : im.netlist.cellNamed? portName = some port)
      (hcell : im.netlist.cell? port = some cell) (hpins : cell.pins = [p])
      (hwire : StandsFor d node wire)
      (hadd : (im.notePort portName node).netlist.addPartitionPin im.multiPortNets port p wire
        isSource = .ok (q, nl))
      (hq : nl.pin? q = some pin) :
      Partitions d im [portName, node, if isSource then "OUT" else "IN"]
        { im.notePort portName node with
          netlist := { nl with
            reservedNodes := pin.net.elim nl.reservedNodes (nl.reservedNodes.insert wire) } }

theorem ensures_partitionPin (h : Admits d S C F I)
    (hbounds : ∀ im im', I im → Bounds im im' → I im') (him : I im) (args : List String) :
    Ensures F I (partitionPin d args) im fun _ im' => Partitions d im args im' := by
  unfold partitionPin
  split
  next portName node dir =>
    refine (reads_findCell him (h.netlist_closed him) portName).bind fun port hport => ?_
    obtain ⟨hnamed, hport⟩ := hport
    refine (reads_findPartitionWire d him node).bind fun wire hwire => ?_
    refine (reads_readDirection him dir).bind fun isSource hdir => ?_
    refine (ensures_setPortNode him (h.adds im _ him (.portNode portName node))).bind
      fun _ im' him' heq => ?_
    have hport' : F ∨ (im'.netlist.cell? port).isSome := by
      rw [heq]
      exact hport
    have hnoted : NotedPort im'.netlist port := by
      rw [heq]
      exact notedPort_notePort im hnamed node
    refine (reads_portPin him' hport').bind fun p hp => ?_
    obtain ⟨cell, hcell, hpins⟩ := hp
    refine (Reads.of_get him').bind fun _ hget => ?_
    subst hget
    have hadd := Netlist.yields_addPartitionPin (h.netlist_closed him') hcell
      (hpins ▸ List.mem_singleton_self p) im'.multiPortNets wire isSource
    refine (Reads.of_lift hadd.exists_eq_ok him' fun _ ha => ha).bind fun (q, nl) hok => ?_
    obtain ⟨-, -, hq⟩ := hadd.result hok
    dsimp only at hq ⊢
    refine (Reads.of_yields (Netlist.yields_getPin (.inr hq)) him').bind fun pin hpin => ?_
    have hbound := fun reservedNodes => Bounds.intro hcell hpins hok reservedNodes hnoted
    subst heq hdir
    have hpartitions := Partitions.intro hnamed hcell hpins hwire hok hpin
    cases hnet : pin.net with
    | none =>
      rw [hnet] at hpartitions
      exact .of_set (hbounds _ _ him' (hbound nl.reservedNodes)) hpartitions
    | some n =>
      rw [hnet] at hpartitions
      exact .of_set (hbounds _ _ him' (hbound (nl.reservedNodes.insert wire n))) hpartitions
  next => exact .of_throw him

structure AdmitsTies (F : Prop) (I : Importer → Prop) (isVcc : Bool)
    (names : List String) : Prop where
  nodes : ∀ im port node, I im → I (im.notePort port node)
  consistent : ∀ im, I im → im.netlist.Consistent
  closed : ∀ im, I im → F ∨ im.netlist.Closed
  other : ∀ im, I im → ∀ name ∈ names,
    F ∨ im.netlist.portNet? name ≠ some (Netlist.staticNet !isVcc)
  ties : ∀ im im', I im → ∀ name ∈ names, ∀ port, im.netlist.cellNamed? name = some port →
    Ties isVcc port im im' → I im'

theorem ensures_staticPort {isVcc : Bool} {name : String} (him : I im)
    (hnodes : ∀ node, I (im.notePort name node))
    (hconsistent : ∀ im, I im → im.netlist.Consistent)
    (hclosed : ∀ im, I im → F ∨ im.netlist.Closed)
    (hother : F ∨ im.netlist.portNet? name ≠ some (Netlist.staticNet !isVcc))
    (hties : ∀ node port im', im.netlist.cellNamed? name = some port →
      Ties isVcc port (im.notePort name node) im' → I im') :
    Ensures F I (staticPort isVcc name) im fun _ im' => ∃ node port,
      im.netlist.cellNamed? name = some port ∧ Ties isVcc port (im.notePort name node) im' := by
  refine (ensures_setPortNode him (hnodes _)).bind fun _ im' him' heq => ?_
  refine (reads_findCell him' (hclosed im' him') name).bind fun port hport => ?_
  obtain ⟨hnamed, hport⟩ := hport
  refine (reads_portPin him' hport).bind fun p hp => ?_
  obtain ⟨cell, hcell, hpins⟩ := hp
  subst heq
  have hnoted := notedPort_notePort im hnamed
    (if isVcc then Netlist.vccName else Netlist.gndName)
  have hnet : im.netlist.portNet? name = im.netlist.netOf? p :=
    Netlist.portNet?_eq hnamed hcell hpins
  have htie := Netlist.yields_tiePort (hconsistent _ him') (hclosed _ him') hcell
    (hpins ▸ List.mem_singleton_self p) (hnet ▸ hother)
  refine (ensures_edit him' htie.exists_eq_ok fun nl hok => ?_).post fun _ im'' _ hout => ?_
  · exact hties _ port _ hnamed (.intro hcell hpins hok hnoted)
  · obtain ⟨nl, hok, rfl⟩ := hout
    exact ⟨_, port, hnamed, .intro hcell hpins hok hnoted⟩

theorem ensures_staticPorts {isVcc : Bool} {names : List String} (h : AdmitsTies F I isVcc names)
    (him : I im) : Ensures F I (staticPorts isVcc names) im fun _ _ => True := by
  refine .forM (fun name hname im him _ => ?_) him trivial
  refine (ensures_staticPort him (fun node => h.nodes im name node him) h.consistent h.closed
    (h.other im him name hname) fun node port im' hnamed hties => ?_).post fun _ _ _ _ => trivial
  exact h.ties _ im' (h.nodes im name node him) name hname port hnamed hties

end Record

end Fabric
