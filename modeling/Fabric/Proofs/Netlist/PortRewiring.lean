import Fabric.Proofs.Netlist.Ties
/-!
# What a partition pin does to pins and nets

A partition pin takes the place of the pin of a port. This pin goes off its net, and all other pins
stay where they are. With the partition pin there may come a LUT: one that a net without sinks ends
at, or one that leads to the partition pin where the net itself may not.
-/

namespace Fabric.Netlist

variable {nl nl' nl'' : Netlist} {n m : NetId} {p q : PinId}

/-! ## Nets and LUTs -/

theorem mem_sinks {net : Net} : p ∈ net.sinks ↔ p ∈ net.pins ∧ net.source ≠ some p := by
  simp [Net.sinks, @eq_comm _ (some p)]

theorem mem_sinks_addPin {net : Net} (hp : net.source ≠ some p) :
    p ∈ (net.addPin p .input).sinks :=
  mem_sinks.2 ⟨by simp [Net.addPin], by simpa [Net.addPin] using hp⟩

/-- The net is no constant, and what drives it, if anything, is neither at the boundary of the
module nor a pin of a port. -/
structure IsInner (nl : Netlist) (net : Net) : Prop where
  signal : net.isStatic = false
  source : ∀ p, net.source = some p → ∃ pin cell, nl.pin? p = some pin ∧
    pin.kind.isPartition = false ∧ nl.cell? pin.cell = some cell ∧ cell.isPort = false

/-- The cell is a LUT that passes its input on to its output. -/
structure IsBuffer (nl : Netlist) (c : CellId) (input output : PinId) : Prop where
  cell : ∃ name, nl.cell? c = some
    { name, type := "LUT1", pins := [input, output]
      properties := (∅ : Table String String).insert "INIT" bufferInit }
  input : (nl.pin? input).map Pin.offNet =
    some { name := "I0", cell := c, dir := .input, kind := .regular }
  output : (nl.pin? output).map Pin.offNet =
    some { name := "O", cell := c, dir := .output, kind := .regular }

theorem pin?_addBuffer_input (nl : Netlist) (name : String) :
    (nl.addBuffer name).pin? nl.nextPin =
      some { name := "I0", cell := nl.nextCell, dir := .input, kind := .regular } := by
  rw [pin?_addBuffer, if_neg (by simp [Key.ext_iff]), if_pos rfl]

theorem pin?_addBuffer_output (nl : Netlist) (name : String) :
    (nl.addBuffer name).pin? ⟨nl.nextPin.index + 1⟩ =
      some { name := "O", cell := nl.nextCell, dir := .output, kind := .regular } := by
  rw [pin?_addBuffer, if_pos rfl]

theorem pin?_addBuffer_of_some {pin : Pin} (hp : nl.pin? p = some pin) (name : String) :
    (nl.addBuffer name).pin? p = some pin := by
  have hlt : p.index < nl.pins.size := (Array.getElem?_eq_some_iff.1 hp).1
  rw [pin?_addBuffer, if_neg, if_neg, hp] <;> simp [Key.ext_iff, nextPin] <;> omega

theorem cell?_addBuffer_of_some {c : CellId} {cell : Cell} (hc : nl.cell? c = some cell)
    (name : String) : (nl.addBuffer name).cell? c = some cell := by
  have hne : c ≠ nl.nextCell := by
    rintro rfl
    rw [cell?_nextCell] at hc
    cases hc
  unfold addBuffer
  rw [cell?_modifyCell, if_neg hne, cell?_addPin, if_neg hne, cell?_addPin, if_neg hne,
    cell?_addCell, if_neg hne, hc]

theorem isBuffer_addBuffer (nl : Netlist) (name : String) :
    (nl.addBuffer name).IsBuffer nl.nextCell nl.nextPin ⟨nl.nextPin.index + 1⟩ where
  cell := by
    refine ⟨name, ?_⟩
    unfold addBuffer
    rw [cell?_modifyCell, if_pos rfl, cell?_addPin, if_pos rfl, cell?_addPin, if_pos rfl,
      cell?_addCell, if_pos rfl]
    simp [PinKind.isPartition, nextPin, addPin, addCell, modifyCell]
  input := by
    rw [pin?_addBuffer_input]
    rfl
  output := by
    rw [pin?_addBuffer_output]
    rfl

theorem IsBuffer.isInner {c : CellId} {input output : PinId} (h : nl.IsBuffer c input output)
    {net : Net} (hsignal : net.isStatic = false) (hsource : net.source = some output) :
    nl.IsInner net where
  signal := hsignal
  source p hp := by
    cases hsource.symm.trans hp
    obtain ⟨pin, hpin, hsame⟩ := Option.map_eq_some_iff.1 h.output
    obtain ⟨-, rfl, -, hkind, -⟩ := Pin.mk.inj hsame
    obtain ⟨name, hc⟩ := h.cell
    exact ⟨pin, _, hpin, by rw [hkind]; rfl, hc, rfl⟩

theorem isDrivenByBoundary_eq_false {net : Net} :
    nl.isDrivenByBoundary net = .ok false ↔ ∀ p, net.source = some p →
      ∃ pin cell, nl.pin? p = some pin ∧ pin.kind.isPartition = false ∧
        nl.cell? pin.cell = some cell ∧ cell.isPort = false := by
  unfold isDrivenByBoundary
  split
  next hnone => simp [hnone, Checked.pure_eq_ok]
  next p hsource =>
    simp only [hsource, Option.some.injEq, forall_eq', Checked.bind_eq_ok, getPin_eq_ok]
    refine exists_congr fun pin => ?_
    split
    next hpartition => simp [hpartition, Checked.pure_eq_ok]
    next hpartition =>
      simp only [Checked.bind_eq_ok, getCell_eq_ok, Checked.pure_eq_ok, hpartition, true_and,
        @eq_comm Bool false, exists_and_left]

theorem live_of_isDrivenByBoundary {net : Net} {driven : Bool}
    (h : nl.isDrivenByBoundary net = .ok driven) (hp : net.source = some p) :
    (nl.pin? p).isSome := by
  unfold isDrivenByBoundary at h
  rw [hp] at h
  obtain ⟨pin, hpin, -⟩ := Checked.bind_eq_ok.1 h
  rw [getPin_eq_ok.1 hpin]
  rfl

namespace Moves

theorem of_eq (hcells : nl'.cells = nl.cells) (hindex : nl'.cellIndex = nl.cellIndex)
    (hpins : nl'.pins = nl.pins) : nl.Moves nl' where
  cells c := congrArg (fun cells => cells[c.index]?) hcells
  names := hindex
  pins p := congrArg (fun pins => pins[p.index]?.map Pin.offNet) hpins

theorem exists_pin (h : nl.Moves nl') {pin : Pin} (hp : nl.pin? p = some pin) :
    ∃ pin', nl'.pin? p = some pin' ∧ pin'.cell = pin.cell ∧ pin'.dir = pin.dir ∧
      pin'.kind = pin.kind := by
  have hmap := h.pins p
  rw [hp] at hmap
  obtain ⟨pin', hpin', hsame⟩ := Option.map_eq_some_iff.1 hmap
  obtain ⟨-, hcell, hdir, hkind, -⟩ := Pin.mk.inj hsame
  exact ⟨pin', hpin', hcell, hdir, hkind⟩

theorem isBuffer (h : nl.Moves nl') {c : CellId} {input output : PinId}
    (hbuffer : nl.IsBuffer c input output) : nl'.IsBuffer c input output where
  cell := (h.cells c).symm ▸ hbuffer.cell
  input := (h.pins input).trans hbuffer.input
  output := (h.pins output).trans hbuffer.output

theorem isInner (h : nl.Moves nl') {net net' : Net} (hnet : nl.IsInner net)
    (hkind : net'.kind = net.kind) (hsource : net'.source = net.source) : nl'.IsInner net' where
  signal := by
    unfold Net.isStatic
    rw [hkind]
    exact hnet.signal
  source p hp := by
    obtain ⟨pin, cell, hpin, hpartition, hcell, hport⟩ := hnet.source p (hsource ▸ hp)
    obtain ⟨pin', hpin', hcell', -, hkind'⟩ := h.exists_pin hpin
    exact ⟨pin', cell, hpin', hkind'.symm ▸ hpartition, by rw [h.cells, hcell', hcell], hport⟩

end Moves

/-! ## New pins -/

/-- The pins `ps` are new, and all others are as they were but for their nets. -/
structure Gains (nl : Netlist) (ps : List PinId) (nl' : Netlist) : Prop where
  old : ∀ p, (nl.pin? p).isSome → (nl'.pin? p).map Pin.offNet = (nl.pin? p).map Pin.offNet
  new : ∀ p, (nl'.pin? p).isSome ↔ (nl.pin? p).isSome ∨ p ∈ ps
  fresh : ∀ p ∈ ps, nl.pin? p = none

namespace Gains

variable {ps ps' : List PinId}

theorem of_moves (h : nl.Moves nl') : nl.Gains [] nl' where
  old p _ := h.pins p
  new p := by simp [h.isSome_pin?]
  fresh := by simp

theorem trans (h : nl.Gains ps nl') (h' : nl'.Gains ps' nl'') : nl.Gains (ps ++ ps') nl'' where
  old p hp := (h'.old p ((h.new p).2 (.inl hp))).trans (h.old p hp)
  new p := by rw [h'.new, h.new, List.mem_append, or_assoc]
  fresh p hp := by
    rcases List.mem_append.1 hp with hp | hp
    · exact h.fresh p hp
    · rw [← Option.not_isSome_iff_eq_none]
      intro hold
      have hlive := (h.new p).2 (.inl hold)
      rw [h'.fresh p hp] at hlive
      cases hlive

theorem addPin (nl : Netlist) (c : CellId) (name : String) (dir : PinDir) (kind : PinKind) :
    nl.Gains [nl.nextPin] (nl.addPin c name dir kind) where
  old p hp := by
    obtain ⟨pin, hpin⟩ := Option.isSome_iff_exists.1 hp
    rw [pin?_addPin_of_some nl hpin, hpin]
  new p := by
    rw [pin?_addPin]
    split
    next heq => simp [heq]
    next hne => simp [hne]
  fresh := by simp [pin?_nextPin]

theorem addBuffer (nl : Netlist) (name : String) :
    nl.Gains [nl.nextPin, ⟨nl.nextPin.index + 1⟩] (nl.addBuffer name) where
  old p hp := by
    obtain ⟨pin, hpin⟩ := Option.isSome_iff_exists.1 hp
    rw [pin?_addBuffer_of_some hpin, hpin]
  new p := by
    rw [pin?_addBuffer]
    split
    next houtput => simp [houtput]
    next houtput =>
      split
      next hinput => simp [hinput]
      next hinput => simp [houtput, hinput]
  fresh := by simp [pin?, nextPin]

end Gains

/-- The pins `ps` are new and nothing else is, if `alone` holds. Or there is a new LUT as well, with
its pins where `buffers` says. -/
inductive Comes (nl : Netlist) (ps : List PinId) (alone : Prop) (buffers : PinId → PinId → Prop)
    (nl' : Netlist) : Prop
  | alone (hgains : nl.Gains ps nl') (h : alone)
  | buffered {c : CellId} {input output : PinId} (hgains : nl.Gains (ps ++ [input, output]) nl')
      (hcell : nl.cell? c = none) (hbuffer : nl'.IsBuffer c input output)
      (hat : buffers input output)

theorem Comes.after {ps ps' : List PinId} {alone : Prop} {buffers : PinId → PinId → Prop}
    (h : nl'.Comes ps' alone buffers nl'') (hgains : nl.Gains ps nl')
    (hcells : ∀ c, nl'.cell? c = none → nl.cell? c = none) :
    nl.Comes (ps ++ ps') alone buffers nl'' := by
  cases h with
  | alone hmore h => exact .alone (hgains.trans hmore) h
  | buffered hmore hcell hbuffer hat =>
    refine .buffered ?_ (hcells _ hcell) hbuffer hat
    rw [List.append_assoc]
    exact hgains.trans hmore

theorem Comes.before {ps : List PinId} {alone : Prop} {buffers buffers' : PinId → PinId → Prop}
    (h : nl.Comes ps alone buffers nl') (hmoves : nl'.Moves nl'')
    (hat : ∀ input output, buffers input output → buffers' input output) :
    nl.Comes ps alone buffers' nl'' := by
  have hgains : ∀ ps, nl.Gains ps nl' → nl.Gains ps nl'' := fun ps hps => by
    simpa using hps.trans (.of_moves hmoves)
  cases h with
  | alone hps h => exact .alone (hgains _ hps) h
  | buffered hps hcell hbuffer hold =>
    exact .buffered (hgains _ hps) hcell (hmoves.isBuffer hbuffer) (hat _ _ hold)

theorem comes_of_addBuffer {mid : Netlist} {alone : Prop} {buffers : PinId → PinId → Prop}
    {name : String} (hbefore : nl.Moves mid) (hafter : (mid.addBuffer name).Moves nl')
    (hat : buffers mid.nextPin ⟨mid.nextPin.index + 1⟩) : nl.Comes [] alone buffers nl' := by
  refine .buffered (c := mid.nextCell) ?_ ?_ (hafter.isBuffer (isBuffer_addBuffer mid name)) hat
  · exact ((Gains.of_moves hbefore).trans (.addBuffer mid name)).trans (.of_moves hafter)
  · rw [← hbefore.cells, cell?_nextCell]

theorem cell?_of_addBuffer {mid : Netlist} {name : String} (hbefore : nl.Moves mid)
    (hafter : (mid.addBuffer name).Moves nl') {c : CellId} (hc : (nl.cell? c).isSome) :
    nl'.cell? c = nl.cell? c := by
  obtain ⟨cell, hcell⟩ := Option.isSome_iff_exists.1 hc
  rw [hafter.cells, cell?_addBuffer_of_some ((hbefore.cells c).trans hcell), hcell]

/-! ## Putting pins on nets -/

structure Lands (nl : Netlist) (n : NetId) (p : PinId) (nl' : Netlist) : Prop where
  moves : nl.Moves nl'
  nodes : nl'.portNodes = nl.portNodes
  netOf : ∀ r, nl'.netOf? r = if r = p then some n else nl.netOf? r

structure Joins (nl : Netlist) (n : NetId) (p : PinId) (dir : PinDir) (nl' : Netlist) : Prop
    extends nl.Lands n p nl' where
  live : (nl.net? n).isSome
  net : ∀ k, nl'.net? k = if k = n then (nl.net? k).map fun net => net.addPin p dir else nl.net? k

theorem joins_of_connect {pin : Pin} {dir : PinDir} (hp : nl.pin? p = some pin)
    (hdir : pin.dir = dir) (hoff : nl.netOf? p = none) (h : nl.connect n p = .ok nl') :
    nl.Joins n p dir nl' := by
  subst hdir
  obtain ⟨-, hnets, rfl⟩ := connect_eq_ok.1 h
  rcases hnets with hon | ⟨-, hlive⟩
  · rw [hoff] at hon
    cases hon
  · exact {
      moves := .attach nl n p
      nodes := by rw [attach_of_off hp hoff]; rfl
      live := hlive
      netOf := netOf?_attach hp
      net := net?_attach_of_off hp hoff }

theorem lands_of_connectSource {pin : Pin} (hp : nl.pin? p = some pin) (hoff : nl.netOf? p = none)
    (h : nl.connectSource n p = .ok nl') :
    nl.Lands n p nl' ∧ ∀ net, nl'.net? n = some net → net.source = some p := by
  obtain ⟨joined, hjoined, -, rfl⟩ := connectSource_eq_ok.1 h
  have hjoin := joins_of_connect hp rfl hoff hjoined
  obtain ⟨-, -, rfl⟩ := connect_eq_ok.1 hjoined
  refine ⟨⟨hjoin.moves.trans (.of_eq rfl rfl rfl), hjoin.nodes, hjoin.netOf⟩, fun net hnet => ?_⟩
  unfold attachSource at hnet
  obtain ⟨old, -, rfl⟩ := exists_of_ite_map (net?_modifyNet .. ▸ hnet)
  rw [if_pos rfl]
  rfl

theorem Lands.netOf_self (h : nl.Lands n p nl') : nl'.netOf? p = some n := by
  rw [h.netOf, if_pos rfl]

theorem Lands.netOf_of_ne (h : nl.Lands n p nl') (hq : q ≠ p) : nl'.netOf? q = nl.netOf? q := by
  rw [h.netOf, if_neg hq]

theorem Joins.net_self {dir : PinDir} (h : nl.Joins n p dir nl') {net : Net}
    (hn : nl.net? n = some net) : nl'.net? n = some (net.addPin p dir) := by
  rw [h.net, if_pos rfl, hn, Option.map_some]

theorem Joins.net_of_ne {dir : PinDir} (h : nl.Joins n p dir nl') (hm : m ≠ n) :
    nl'.net? m = nl.net? m := by
  rw [h.net, if_neg hm]

theorem joins_input {name : String} (h : (nl.addBuffer name).connect n nl.nextPin = .ok nl') :
    (nl.addBuffer name).Joins n nl.nextPin .input nl' :=
  joins_of_connect (pin?_addBuffer_input nl name) rfl (netOf?_eq (pin?_addBuffer_input nl name)) h

/-! ## The net of a partition pin -/

structure Seats (nl : Netlist) (q : PinId) (m : NetId) (alone : Prop)
    (buffers : PinId → PinId → Prop) (nl' : Netlist) : Prop where
  on : nl'.netOf? q = some m
  others : ∀ r, (nl.pin? r).isSome → r ≠ q → nl'.netOf? r = nl.netOf? r
  cells : ∀ c, (nl.cell? c).isSome → nl'.cell? c = nl.cell? c
  nodes : nl'.portNodes = nl.portNodes
  comes : nl.Comes [] alone buffers nl'

theorem ne_of_new {r : PinId} (hp : (nl.pin? p).isSome) (hr : nl.pin? r = none) : p ≠ r := by
  rintro rfl
  rw [hr] at hp
  cases hp

theorem seats_of_drive {pin : Pin} (hq : nl.pin? q = some pin) (hoff : nl.netOf? q = none)
    {cellName : String}
    (h : (do
      let nl ← nl.connectSource n q
      if (← nl.getNet n).fanOut = 0 then
        let buffer := nl.insertBuffer cellName
        buffer.2.2.connect n buffer.1
      else return nl) = .ok nl') :
    (∃ net, nl'.net? n = some net ∧ net.source = some q ∧ net.sinks ≠ []) ∧
      nl.Seats q n True (fun input _ => nl'.netOf? input = some n) nl' := by
  obtain ⟨driven, hdriven, h⟩ := Checked.bind_eq_ok.1 h
  obtain ⟨hland, hsources⟩ := lands_of_connectSource hq hoff hdriven
  obtain ⟨net, hget, h⟩ := Checked.bind_eq_ok.1 h
  have hnet := getNet_eq_ok.1 hget
  have hsource := hsources net hnet
  split at h
  next hnone =>
    have hfeeds : (driven.addBuffer cellName).Joins n driven.nextPin .input nl' := joins_input h
    have hstays : ∀ r, (nl.pin? r).isSome → nl'.netOf? r = driven.netOf? r := by
      intro r hr
      have hne := ne_of_new ((hland.moves.isSome_pin? r).trans hr) (pin?_nextPin driven)
      rw [hfeeds.netOf_of_ne hne, netOf?_addBuffer]
    have hqlive : (nl.pin? q).isSome := Option.isSome_iff_exists.2 ⟨pin, hq⟩
    have hne : net.source ≠ some driven.nextPin := by
      rw [hsource]
      have hne := ne_of_new ((hland.moves.isSome_pin? q).trans hqlive) (pin?_nextPin driven)
      simpa using hne
    refine ⟨⟨_, hfeeds.net_self hnet, hsource, List.ne_nil_of_mem (mem_sinks_addPin hne)⟩, ?_, ?_,
      ?_, ?_, ?_⟩
    · rw [hstays q hqlive, hland.netOf_self]
    · intro r hr hrq
      rw [hstays r hr, hland.netOf_of_ne hrq]
    · exact fun c => cell?_of_addBuffer hland.moves hfeeds.moves
    · exact hfeeds.nodes.trans hland.nodes
    · exact comes_of_addBuffer hland.moves hfeeds.moves hfeeds.netOf_self
  next hsome =>
    cases Checked.pure_eq_ok.1 h
    exact ⟨⟨net, hnet, hsource, fun hnil => hsome (congrArg List.length hnil)⟩, hland.netOf_self,
      fun r _ hr => hland.netOf_of_ne hr, fun c _ => hland.moves.cells c, hland.nodes,
      .alone (.of_moves hland.moves) trivial⟩

theorem seats_of_driveFromBoundary {pin : Pin} (hq : nl.pin? q = some pin)
    (hoff : nl.netOf? q = none) {port : String} {old : Option NetId}
    (h : nl.driveFromBoundary port old q = .ok nl') :
    ∃ m, (∀ n ∈ old, m = n) ∧
      (∃ net, nl'.net? m = some net ∧ net.source = some q ∧ net.sinks ≠ []) ∧
      nl.Seats q m True (fun input _ => nl'.netOf? input = some m) nl' := by
  unfold driveFromBoundary at h
  cases old with
  | some n =>
    obtain ⟨hnet, hseats⟩ := seats_of_drive hq hoff h
    exact ⟨n, by simp, hnet, hseats⟩
  | none =>
    have hq' : (nl.addNet port .wire).pin? q = some pin := hq
    obtain ⟨hnet, hseats⟩ := seats_of_drive hq' hoff h
    have hmoves : nl.Moves (nl.addNet port .wire) := .of_eq rfl rfl rfl
    exact ⟨nl.nextNet, by simp, hnet, hseats.on, hseats.others, hseats.cells, hseats.nodes,
      hseats.comes.after (.of_moves hmoves) fun _ => id⟩

structure Leads (nl : Netlist) (n m : NetId) (input output : PinId) : Prop where
  input_on : nl.netOf? input = some n
  output_on : nl.netOf? output = some m
  feeds : ∃ net, nl.net? n = some net ∧ input ∈ net.sinks
  drives : ∃ net, nl.net? m = some net ∧ net.source = some output

section led

variable {fed led : Netlist} {cellName netName : String}
  (hfeeds : (nl.addBuffer cellName).Joins n nl.nextPin .input fed)
  (hleads : (fed.addNet netName .wire).Joins fed.nextNet ⟨nl.nextPin.index + 1⟩ .output led)

include hfeeds hleads

theorem moves_of_led : (nl.addBuffer cellName).Moves led := by
  have hadds : fed.Moves (fed.addNet netName .wire) := .of_eq rfl rfl rfl
  exact (hfeeds.moves.trans hadds).trans hleads.moves

theorem netOf?_of_led (hp : (nl.pin? p).isSome) : led.netOf? p = nl.netOf? p := by
  have hin := ne_of_new hp (pin?_nextPin nl)
  have hout : p ≠ ⟨nl.nextPin.index + 1⟩ := ne_of_new hp (by simp [pin?, nextPin])
  rw [hleads.netOf_of_ne hout, netOf?_addNet, hfeeds.netOf_of_ne hin, netOf?_addBuffer]

theorem seats_of_led (hq : (nl.pin? q).isSome) (hjoins : led.Joins fed.nextNet q .input nl')
    {net : Net} (hnet : nl.net? n = some net)
    (hlive : ∀ p, net.source = some p → (nl.pin? p).isSome) (alone : Prop) :
    ∃ net, nl'.net? fed.nextNet = some net ∧ nl'.IsInner net ∧
      nl.Seats q fed.nextNet alone (nl'.Leads n fed.nextNet) nl' := by
  have hin := ne_of_new hq (pin?_nextPin nl)
  have hout : q ≠ ⟨nl.nextPin.index + 1⟩ := ne_of_new hq (by simp [pin?, nextPin])
  have hne : nl.nextPin ≠ ⟨nl.nextPin.index + 1⟩ := by simp [Key.ext_iff]
  have hmoves : (nl.addBuffer cellName).Moves nl' := (moves_of_led hfeeds hleads).trans hjoins.moves
  have hbuffer : nl'.IsBuffer nl.nextCell nl.nextPin ⟨nl.nextPin.index + 1⟩ :=
    hmoves.isBuffer (isBuffer_addBuffer nl cellName)
  have hnew : (fed.addNet netName .wire).net? fed.nextNet =
      some { name := netName, kind := .wire } := by
    rw [net?_addNet, if_pos rfl]
  have hfed : fed.net? n = some (net.addPin nl.nextPin .input) := hfeeds.net_self hnet
  have hother : n ≠ fed.nextNet := by
    rintro rfl
    rw [net?_nextNet] at hfed
    cases hfed
  have hlast := hjoins.net_self (hleads.net_self hnew)
  refine ⟨_, hlast, hbuffer.isInner rfl rfl, hjoins.netOf_self, ?_, ?_, ?_, ?_⟩
  · intro r hr hrq
    rw [hjoins.netOf_of_ne hrq, netOf?_of_led hfeeds hleads hr]
  · exact fun c => cell?_of_addBuffer (.refl nl) hmoves
  · exact hjoins.nodes.trans (hleads.nodes.trans hfeeds.nodes)
  · refine comes_of_addBuffer (.refl nl) hmoves ⟨?_, ?_, ?_, ?_⟩
    · rw [hjoins.netOf_of_ne hin.symm, hleads.netOf_of_ne hne]
      exact hfeeds.netOf_self
    · rw [hjoins.netOf_of_ne hout.symm, hleads.netOf_self]
    · have hsource : net.source ≠ some nl.nextPin := fun hsource =>
        ne_of_new (hlive _ hsource) (pin?_nextPin nl) rfl
      refine ⟨_, ?_, mem_sinks_addPin hsource⟩
      rw [hjoins.net_of_ne hother, hleads.net_of_ne hother, net?_addNet, if_neg hother, hfed]
    · exact ⟨_, hlast, rfl⟩

end led

/-- The net goes on through a LUT to a net of its own, which gets the pin. -/
theorem seats_of_leadThrough {pin : Pin} (hq : nl.pin? q = some pin) (hdir : pin.dir = .input)
    (hoff : nl.netOf? q = none) {net : Net} (hnet : nl.net? n = some net)
    (hlive : ∀ p, net.source = some p → (nl.pin? p).isSome) {alone : NetId → Prop}
    {cellName netName : String}
    (h : (do
      let buffer := nl.insertBuffer cellName
      let nl ← buffer.2.2.connect n buffer.1
      let m := nl.nextNet
      let nl := nl.addNet netName .wire
      let nl ← nl.connect m buffer.2.1
      nl.connect m q) = .ok nl') :
    ∃ m net, nl'.net? m = some net ∧ nl'.IsInner net ∧
      nl.Seats q m (alone m) (nl'.Leads n m) nl' := by
  obtain ⟨fed, hfed, h⟩ := Checked.bind_eq_ok.1 h
  obtain ⟨led, hled, h⟩ := Checked.bind_eq_ok.1 h
  have hqlive : (nl.pin? q).isSome := Option.isSome_iff_exists.2 ⟨pin, hq⟩
  have hfeeds : (nl.addBuffer cellName).Joins n nl.nextPin .input fed := joins_input hfed
  have hleads : (fed.addNet netName .wire).Joins fed.nextNet ⟨nl.nextPin.index + 1⟩ .output
      led := by
    have hnew := pin?_addBuffer_output nl cellName
    obtain ⟨output, houtput, -, houtputDir, -⟩ := hfeeds.moves.exists_pin hnew
    have houtputOff : fed.netOf? ⟨nl.nextPin.index + 1⟩ = none := by
      rw [hfeeds.netOf_of_ne (by simp [Key.ext_iff])]
      exact netOf?_eq hnew
    exact joins_of_connect houtput houtputDir houtputOff hled
  have hjoins : led.Joins fed.nextNet q .input nl' := by
    obtain ⟨pin', hpin', -, hdir', -⟩ :=
      (moves_of_led hfeeds hleads).exists_pin (pin?_addBuffer_of_some hq cellName)
    have hqoff : led.netOf? q = none := (netOf?_of_led hfeeds hleads hqlive).trans hoff
    exact joins_of_connect hpin' (hdir'.trans hdir) hqoff h
  exact ⟨fed.nextNet, seats_of_led hfeeds hleads hqlive hjoins hnet hlive _⟩

theorem seats_of_sinkAtBoundary {pin : Pin} (hq : nl.pin? q = some pin) (hdir : pin.dir = .input)
    (hoff : nl.netOf? q = none) {multiPortNets : KeySet NetId} {port : String} {old : Option NetId}
    (h : nl.sinkAtBoundary multiPortNets port old q = .ok nl') :
    ∃ m net, nl'.net? m = some net ∧ nl'.IsInner net ∧
      nl.Seats q m (m = old.getD gnd) (nl'.Leads (old.getD gnd) m) nl' := by
  unfold sinkAtBoundary at h
  obtain ⟨net, hget, h⟩ := Checked.bind_eq_ok.1 h
  obtain ⟨driven, hdriven, h⟩ := Checked.bind_eq_ok.1 h
  have hnet := getNet_eq_ok.1 hget
  split at h
  next =>
    exact seats_of_leadThrough hq hdir hoff hnet (fun p => live_of_isDrivenByBoundary hdriven) h
  next hinner =>
    have hjoin := joins_of_connect hq hdir hoff h
    have hboundary : nl.IsInner net := by
      simp only [Bool.or_eq_true, not_or, Bool.not_eq_true] at hinner
      exact ⟨hinner.1.1, isDrivenByBoundary_eq_false.1 (hinner.2 ▸ hdriven)⟩
    refine ⟨_, _, hjoin.net_self hnet, hjoin.moves.isInner hboundary rfl ?_, ?_, ?_, ?_, ?_, ?_⟩
    · simp [Net.addPin]
    · exact hjoin.netOf_self
    · exact fun r _ hr => hjoin.netOf_of_ne hr
    · exact fun c _ => hjoin.moves.cells c
    · exact hjoin.nodes
    · exact .alone (.of_moves hjoin.moves) rfl

/-! ## Partition pins -/

structure Leaves (nl : Netlist) (p : PinId) (nl' : Netlist) : Prop where
  moves : nl.Moves nl'
  nodes : nl'.portNodes = nl.portNodes
  netOf : ∀ r, nl'.netOf? r = if r = p then none else nl.netOf? r

theorem leaves_of_disconnect {old : Option NetId} (hold : nl.netOf? p = old)
    (h : (old.elim (pure nl) fun n => nl.disconnect n p) = .ok nl') : nl.Leaves p nl' := by
  cases old with
  | none =>
    cases Checked.pure_eq_ok.1 h
    refine ⟨.refl nl, rfl, fun r => ?_⟩
    split
    next heq => rw [heq, hold]
    next => rfl
  | some n =>
    obtain ⟨-, -, rfl⟩ := disconnect_eq_ok.1 h
    refine ⟨.detach nl n p, ?_, fun r => ?_⟩
    · unfold detach
      dsimp only
      split <;> rfl
    · rw [netOf?_detach]
      simp [hold]

/-- The pin `q`, new on the port, takes the place of its pin `p` and is on the net `m`. All other
pins stay where they are. -/
structure Replaces (nl : Netlist) (port : CellId) (p q : PinId) (dir : PinDir) (wire : Wire)
    (m : NetId) (alone : Prop) (buffers : PinId → PinId → Prop) (nl' : Netlist) : Prop where
  new : nl.pin? q = none
  partition : ∃ name, (nl'.pin? q).map Pin.offNet =
    some { name, cell := port, dir, kind := .partition (some wire) }
  off : nl'.netOf? p = none
  on : nl'.netOf? q = some m
  others : ∀ r, (nl.pin? r).isSome → r ≠ p → nl'.netOf? r = nl.netOf? r
  cells : ∀ c, (nl.cell? c).isSome → nl'.cell? c =
    if c = port then (nl.cell? c).map fun cell => { cell with partitionPin := some q }
    else nl.cell? c
  comes : nl.Comes [q] alone buffers nl'

theorem Replaces.congr {base last : Netlist} {port : CellId} {dir : PinDir} {wire : Wire}
    {alone : Prop} {buffers buffers' : PinId → PinId → Prop}
    (h : nl.Replaces port p q dir wire m alone buffers nl') (hbase : base.Moves nl)
    (hbaseOf : ∀ r, nl.netOf? r = base.netOf? r) (hlast : nl'.Moves last)
    (hlastOf : ∀ r, last.netOf? r = nl'.netOf? r)
    (hat : ∀ input output, buffers input output → buffers' input output) :
    base.Replaces port p q dir wire m alone buffers' last where
  new := by
    rw [← Option.not_isSome_iff_eq_none, ← hbase.isSome_pin?, h.new]
    nofun
  partition := by
    rw [hlast.pins]
    exact h.partition
  off := (hlastOf p).trans h.off
  on := (hlastOf q).trans h.on
  others r hr hrp := by
    rw [hlastOf, h.others r (hbase.isSome_pin? r ▸ hr) hrp, hbaseOf]
  cells c hc := by
    rw [hlast.cells, h.cells c (hbase.cells c ▸ hc), hbase.cells]
  comes := (h.comes.after (.of_moves hbase) fun c hc => hbase.cells c ▸ hc).before hlast hat

theorem replaces_of_seats {port : CellId} {pin : Pin} {name : String} {dir : PinDir} {wire : Wire}
    {mid : Netlist} {alone : Prop} {buffers : PinId → PinId → Prop} (hp : nl.pin? p = some pin)
    (hleaves : (nl.addPin port name dir (.partition (some wire))).Leaves p mid)
    (hseats : mid.Seats nl.nextPin m alone buffers nl') :
    nl.Replaces port p nl.nextPin dir wire m alone buffers nl' := by
  have hlive : (nl.pin? p).isSome := Option.isSome_iff_exists.2 ⟨pin, hp⟩
  have hgains : nl.Gains [nl.nextPin] mid :=
    (Gains.addPin nl port name dir (.partition (some wire))).trans (.of_moves hleaves.moves)
  have hcells : ∀ c, mid.cell? c =
      if c = port then (nl.cell? c).map fun cell => { cell with partitionPin := some nl.nextPin }
      else nl.cell? c := fun c => (hleaves.moves.cells c).trans (cell?_addPin ..)
  have hlives : ∀ c, (mid.cell? c).isSome = (nl.cell? c).isSome := by
    intro c
    rw [hcells]
    split
    · exact Option.isSome_map
    · rfl
  have hcomes : nl.Comes [nl.nextPin] alone buffers nl' := hseats.comes.after hgains fun c hc => by
    rw [← Option.not_isSome_iff_eq_none, ← hlives, hc]
    nofun
  have hold : ∀ r, (nl.pin? r).isSome → nl'.netOf? r = mid.netOf? r := fun r hr =>
    hseats.others r ((hgains.new r).2 (.inl hr)) (ne_of_new hr (pin?_nextPin nl))
  refine ⟨pin?_nextPin nl, ⟨name, ?_⟩, ?_, hseats.on, fun r hr hrp => ?_, fun c hc => ?_, hcomes⟩
  · have hq : (mid.pin? nl.nextPin).isSome := (hgains.new _).2 (.inr (by simp))
    have hsame : (nl'.pin? nl.nextPin).map Pin.offNet = (mid.pin? nl.nextPin).map Pin.offNet := by
      cases hseats.comes with
      | alone hmore => exact hmore.old _ hq
      | buffered hmore => exact hmore.old _ hq
    rw [hsame, hleaves.moves.pins, pin?_addPin, if_pos rfl]
    rfl
  · rw [hold p hlive, hleaves.netOf, if_pos rfl]
  · rw [hold r hr, hleaves.netOf, if_neg hrp, netOf?_addPin]
  · rw [hseats.cells c ((hlives c).trans hc), hcells]

/-- A partition pin that is a source drives the net that the port was on, if there is one, and a
LUT is put in where this net has no other pins. Else the partition pin is on a net that comes from
inside the module: the one that the port was on, or one that a LUT leads to from there. -/
theorem replaces_of_addPartitionPin {port : CellId} {multiPortNets : KeySet NetId} {wire : Wire}
    {isSource : Bool} (h : nl.addPartitionPin multiPortNets port p wire isSource = .ok (q, nl')) :
    nl'.portNodes = nl.portNodes ∧ ∃ m net, nl'.net? m = some net ∧
      if isSource then
        nl.Replaces port p q .output wire m True (fun input _ => nl'.netOf? input = some m) nl' ∧
          net.source = some q ∧ net.sinks ≠ [] ∧ ∀ n, nl.netOf? p = some n → m = n
      else
        nl.Replaces port p q .input wire m (m = (nl.netOf? p).getD gnd)
          (nl'.Leads ((nl.netOf? p).getD gnd) m) nl' ∧ nl'.IsInner net := by
  unfold addPartitionPin at h
  obtain ⟨cell, -, h⟩ := Checked.bind_eq_ok.1 h
  obtain ⟨pin, hget, h⟩ := Checked.bind_eq_ok.1 h
  obtain ⟨added, hadded, h⟩ := Checked.bind_eq_ok.1 h
  obtain ⟨-, rfl⟩ := newPin_eq_ok.1 hadded
  obtain ⟨off, hoff, h⟩ := Checked.bind_eq_ok.1 h
  have hp := getPin_eq_ok.1 hget
  have hof := netOf?_eq hp
  have hleaves := leaves_of_disconnect ((netOf?_addPin ..).trans hof) hoff
  have hqoff : off.netOf? nl.nextPin = none := by
    rw [hleaves.netOf, (new_addPin ..).2]
    split <;> rfl
  obtain ⟨new, hnew, -, hdir, -⟩ := hleaves.moves.exists_pin
    ((pin?_addPin _ _ _ _ _ nl.nextPin).trans (if_pos rfl))
  rw [hof]
  dsimp only at h
  split at h
  next hsource =>
    rw [if_pos hsource] at hleaves
    obtain ⟨put, hput, heq⟩ := Checked.bind_eq_ok.1 h
    cases Checked.pure_eq_ok.1 heq
    obtain ⟨m, hold, ⟨net, hnet, hdrives, hsinks⟩, hseats⟩ :=
      seats_of_driveFromBoundary hnew hqoff hput
    refine ⟨hseats.nodes.trans hleaves.nodes, m, net, hnet, ?_⟩
    rw [if_pos hsource]
    exact ⟨replaces_of_seats hp hleaves hseats, hdrives, hsinks, hold⟩
  next hsink =>
    rw [if_neg hsink] at hleaves hdir
    obtain ⟨put, hput, heq⟩ := Checked.bind_eq_ok.1 h
    cases Checked.pure_eq_ok.1 heq
    obtain ⟨m, net, hnet, hinner, hseats⟩ := seats_of_sinkAtBoundary hnew hdir hqoff hput
    refine ⟨hseats.nodes.trans hleaves.nodes, m, net, hnet, ?_⟩
    rw [if_neg hsink]
    exact ⟨replaces_of_seats hp hleaves hseats, hinner⟩

end Fabric.Netlist
