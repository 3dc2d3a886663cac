import Fabric.Proofs.Distinct
import Fabric.Proofs.Netlist.Described
import Fabric.Proofs.Netlist.Names
/-!
# Nets as they are described

The entries for a constant add up, so that one entry describes each net. The pins of the net are
those that the paths of the entry lead to, and the first output among them is the source.
-/

namespace Fabric

open CellDescription (LeadsTo)
open Checked (foldlM_done)

namespace NetDescription

/-! ## One entry for each net -/

/-- The entries for a constant in one. The last of them has the name. -/
def ofConstant (nets : List NetDescription) (isVcc : Bool) : NetDescription :=
  let entries := nets.filter fun entry => entry.kind = .ofStatic isVcc
  { name := (entries.getLast?.map name).getD (Netlist.staticName isVcc)
    kind := .ofStatic isVcc
    pins := entries.flatMap pins }

/-- The nets that entries are loaded into, by their numbers. -/
def perNet (nets : List NetDescription) : List NetDescription :=
  ofConstant nets true :: ofConstant nets false :: nets.filter fun entry => entry.kind = .wire

def netFor (nets : List NetDescription) (entry : NetDescription) : NetId :=
  match entry.kind with
  | .vcc => Netlist.vcc
  | .gnd => Netlist.gnd
  | .wire => ⟨(perNet nets).length⟩

def addPath (path : String) (entry : NetDescription) : NetDescription :=
  { entry with pins := entry.pins ++ [path] }

variable {nets : List NetDescription} {entry : NetDescription}

theorem perNet_concat_of_wire (hkind : entry.kind = .wire) :
    perNet (nets ++ [entry]) = perNet nets ++ [entry] := by
  simp [perNet, ofConstant, hkind, NetKind.ofStatic]

theorem perNet_concat_of_static {isVcc : Bool} (hkind : entry.kind = .ofStatic isVcc) :
    perNet (nets ++ [entry]) = (perNet nets).modify (Netlist.staticNet isVcc).index fun old =>
      { old with name := entry.name, pins := old.pins ++ entry.pins } := by
  cases isVcc <;>
    simp [perNet, ofConstant, hkind, NetKind.ofStatic, Netlist.staticNet, Netlist.vcc, Netlist.gnd]

theorem netFor_eq (nets : List NetDescription) (entry : NetDescription) :
    (∃ isVcc, entry.kind = .ofStatic isVcc ∧ netFor nets entry = Netlist.staticNet isVcc) ∨
      entry.kind = .wire ∧ netFor nets entry = ⟨(perNet nets).length⟩ := by
  unfold netFor
  cases hkind : entry.kind with
  | wire => exact .inr ⟨rfl, rfl⟩
  | vcc => exact .inl ⟨true, rfl, rfl⟩
  | gnd => exact .inl ⟨false, rfl, rfl⟩

theorem netFor_lt : (netFor nets entry).index < (perNet (nets ++ [entry])).length := by
  rcases netFor_eq nets entry with ⟨isVcc, -, hn⟩ | ⟨hkind, hn⟩
  · rw [hn]
    cases isVcc <;> simp [perNet, Netlist.staticNet, Netlist.vcc, Netlist.gnd]
  · rw [hn, perNet_concat_of_wire hkind]
    simp

theorem getElem?_perNet_concat {m : NetId} (hm : m ≠ netFor nets entry) :
    (perNet (nets ++ [entry]))[m.index]? = (perNet nets)[m.index]? := by
  rcases netFor_eq nets entry with ⟨isVcc, hkind, hn⟩ | ⟨hkind, hn⟩
  · rw [hn] at hm
    rw [perNet_concat_of_static hkind, List.getElem?_modify_ne _ _ fun heq => hm (Key.ext heq.symm)]
  · rw [hn] at hm
    have hne : m.index ≠ (perNet nets).length := fun heq => hm (Key.ext heq)
    ext old
    rw [perNet_concat_of_wire hkind, getElem?_concat, or_iff_left fun h => hne h.1]

theorem perNet_concat_addPath (path : String) :
    perNet (nets ++ [entry.addPath path]) =
      (perNet (nets ++ [entry])).modify (netFor nets entry).index (addPath path) := by
  rcases netFor_eq nets entry with ⟨isVcc, hkind, hn⟩ | ⟨hkind, hn⟩
  · have hkind' : (entry.addPath path).kind = .ofStatic isVcc := hkind
    rw [hn, perNet_concat_of_static hkind, perNet_concat_of_static hkind', List.modify_modify_eq]
    congr 1
    funext old
    simp [addPath]
  · have hkind' : (entry.addPath path).kind = .wire := hkind
    rw [hn, perNet_concat_of_wire hkind, perNet_concat_of_wire hkind', modify_concat]

theorem exists_mem_of_mem_perNet {path : String} (hentry : entry ∈ perNet nets)
    (hpath : path ∈ entry.pins) : ∃ entry' ∈ nets, path ∈ entry'.pins := by
  have hconstant : ∀ isVcc, path ∈ (ofConstant nets isVcc).pins →
      ∃ entry' ∈ nets, path ∈ entry'.pins := by
    intro isVcc hmem
    obtain ⟨entry', hentry', hpath'⟩ := List.mem_flatMap.1 hmem
    exact ⟨entry', List.mem_of_mem_filter hentry', hpath'⟩
  simp only [perNet, List.mem_cons] at hentry
  rcases hentry with rfl | rfl | hsignal
  · exact hconstant true hpath
  · exact hconstant false hpath
  · exact ⟨entry, List.mem_of_mem_filter hsignal, hpath⟩

/-! ## One net -/

/-- A net as it is described. A pin that several paths lead to comes where the first of them
stands. -/
structure Describes (cells : List CellDescription) (isOutput : PinId → Bool)
    (entry : NetDescription) (net : Net) : Prop where
  name : net.name = entry.name
  kind : net.kind = entry.kind
  pins : ∃ ps, List.Forall₂ (LeadsTo cells) entry.pins ps ∧ net.pins = ps.eraseDups
  source : net.source = if entry.kind = .wire then net.pins.find? isOutput else none

namespace Describes

variable {cells : List CellDescription} {isOutput : PinId → Bool} {net : Net} {path : String}
  {p : PinId}

theorem exists_path (h : entry.Describes cells isOutput net) (hp : p ∈ net.pins) :
    ∃ path ∈ entry.pins, LeadsTo cells path p := by
  obtain ⟨ps, hps, hpins⟩ := h.pins
  rw [hpins, List.mem_eraseDups] at hp
  obtain ⟨i, hi⟩ := List.mem_iff_getElem?.1 hp
  obtain ⟨path, hpath, hleads⟩ := Checked.getElem?_of_forall₂ hps.flip hi
  exact ⟨path, List.mem_of_getElem? hpath, hleads⟩

theorem pins_addPath (h : entry.Describes cells isOutput net) (hpath : LeadsTo cells path p) :
    ∃ ps, List.Forall₂ (LeadsTo cells) (entry.addPath path).pins ps ∧
      (if p ∈ net.pins then net.pins else net.pins ++ [p]) = ps.eraseDups := by
  obtain ⟨ps, hps, hpins⟩ := h.pins
  refine ⟨ps ++ [p], List.rel_append hps (.cons hpath .nil), ?_⟩
  simp only [hpins, eraseDups_concat, List.mem_eraseDups]

theorem addPin {dir : PinDir} (h : entry.Describes cells isOutput net)
    (hpath : LeadsTo cells path p) (hp : p ∉ net.pins) (hdir : isOutput p = (dir == .output)) :
    (entry.addPath path).Describes cells isOutput (net.addPin p dir) where
  name := h.name
  kind := h.kind
  pins := by
    have hpins := h.pins_addPath hpath
    rwa [if_neg hp] at hpins
  source := by
    have hstatic : net.isStatic = decide (entry.kind ≠ .wire) := by rw [Net.isStatic, h.kind]
    have hfind : (net.pins ++ [p]).find? isOutput =
        (net.pins.find? isOutput).or (if dir = .output then some p else none) := by
      simp [List.find?_append, List.find?_singleton, hdir]
    change (if dir = .output ∧ net.source = none ∧ !net.isStatic then some p else net.source) =
      if entry.kind = .wire then (net.pins ++ [p]).find? isOutput else none
    rw [hfind, hstatic, h.source]
    by_cases hkind : entry.kind = .wire
    · cases net.pins.find? isOutput <;> simp [hkind]
    · simp [hkind]

theorem again (h : entry.Describes cells isOutput net) (hpath : LeadsTo cells path p)
    (hp : p ∈ net.pins) : (entry.addPath path).Describes cells isOutput net where
  name := h.name
  kind := h.kind
  pins := by
    have hpins := h.pins_addPath hpath
    rwa [if_pos hp] at hpins
  source := h.source

end Describes

end NetDescription

/-- No two entries list paths of one pin. -/
def NetlistDescription.Apart (desc : NetlistDescription) : Prop :=
  desc.nets.Pairwise fun entry entry' => ∀ path ∈ entry.pins, ∀ path' ∈ entry'.pins,
    ∀ p, LeadsTo desc.cells path p → ¬ LeadsTo desc.cells path' p

namespace Netlist

open NetDescription (addPath netFor perNet)

def isOutput (nl : Netlist) (p : PinId) : Bool := (nl.pin? p).any fun pin => pin.dir == .output

variable {d : Device} {nl nl' : Netlist} {cells : List CellDescription}
  {entries : List NetDescription} {n : NetId} {path : String} {p : PinId}

theorem isOutput_eq {pin : Pin} (hp : nl.pin? p = some pin) :
    nl.isOutput p = (pin.dir == .output) := by
  rw [isOutput, hp, Option.any_some]

theorem Still.isOutput {C : Prop} (h : Still C nl nl') : nl'.isOutput = nl.isOutput := by
  funext p
  have hmap := congrArg (Option.any fun pin => pin.dir == .output) (h.pins p)
  rw [Option.any_map, Option.any_map] at hmap
  exact hmap

structure HasNets (cells : List CellDescription) (entries : List NetDescription)
    (nl : Netlist) : Prop where
  netCount : nl.nets.size = entries.length
  net : ∀ i entry, entries[i]? = some entry →
    ∃ net, nl.net? ⟨i⟩ = some net ∧ entry.Describes cells nl.isOutput net

namespace HasNets

theorem exists_entry (h : HasNets cells entries nl) {net : Net} (hn : nl.net? n = some net) :
    ∃ entry, entries[n.index]? = some entry ∧ entry.Describes cells nl.isOutput net := by
  have hlt : n.index < entries.length := h.netCount ▸ lt_size_of_net? hn
  obtain ⟨net', hn', hdescribes⟩ := h.net n.index _ (List.getElem?_eq_getElem hlt)
  cases hn.symm.trans hn'
  exact ⟨_, List.getElem?_eq_getElem hlt, hdescribes⟩

theorem isSome_net? (h : HasNets cells entries nl) (hn : n.index < entries.length) :
    (nl.net? n).isSome := by
  obtain ⟨net, hnet, -⟩ := h.net n.index _ (List.getElem?_eq_getElem hn)
  exact Option.isSome_iff_exists.2 ⟨net, hnet⟩

theorem modify (h : HasNets cells entries nl) {f : NetDescription → NetDescription}
    (hsize : nl'.nets.size = nl.nets.size) (hout : nl'.isOutput = nl.isOutput)
    (hother : ∀ m, m ≠ n → nl'.net? m = nl.net? m)
    (hnet : ∀ entry net, nl.net? n = some net → entry.Describes cells nl.isOutput net →
      ∃ net', nl'.net? n = some net' ∧ (f entry).Describes cells nl.isOutput net') :
    HasNets cells (entries.modify n.index f) nl' where
  netCount := by rw [hsize, h.netCount, List.length_modify]
  net i entry hi := by
    rw [List.getElem?_modify] at hi
    obtain ⟨old, hold, rfl⟩ := Option.map_eq_some_iff.1 hi
    obtain ⟨net, hn, hdescribes⟩ := h.net i old hold
    rw [hout]
    split
    next heq =>
      subst heq
      exact hnet old net hn hdescribes
    next hne =>
      rw [hother ⟨i⟩ fun heq => hne (congrArg Key.index heq).symm]
      exact ⟨net, hn, hdescribes⟩

theorem addNet (h : HasNets cells entries nl) (name : String) :
    HasNets cells (entries ++ [⟨name, .wire, []⟩]) (nl.addNet name .wire) where
  netCount := by
    rw [Netlist.addNet, Array.size_push, h.netCount, List.length_append, List.length_singleton]
  net i entry hi := by
    rw [net?_addNet, nextNet, h.netCount]
    rcases getElem?_concat.1 hi with hi | ⟨rfl, rfl⟩
    · have hne : i ≠ entries.length := Nat.ne_of_lt (List.getElem?_eq_some_iff.1 hi).1
      rw [if_neg fun heq => hne (congrArg Key.index heq)]
      exact h.net i entry hi
    · rw [if_pos rfl]
      exact ⟨_, rfl, rfl, rfl, ⟨[], .nil, rfl⟩, rfl⟩

theorem renameNet (h : HasNets cells entries nl) (n : NetId) (name : String) :
    HasNets cells (entries.modify n.index fun old => { old with name })
      (nl.renameNet n name) := by
  have hstill : Still True nl (nl.renameNet n name) := .renameNet nl n name
  refine h.modify ?_ hstill.isOutput (fun m hm => ?_) fun entry net hn hdescribes => ?_
  · unfold Netlist.renameNet
    split
    · rfl
    · exact Array.size_modify
  · rw [net?_renameNet, if_neg hm]
  · rw [net?_renameNet, if_pos rfl, hn]
    exact ⟨_, rfl, rfl, hdescribes.kind, hdescribes.pins, hdescribes.source⟩

theorem attach (h : HasNets cells entries nl) (hc : nl.Consistent) {pin : Pin}
    (hp : nl.pin? p = some pin) (hpath : LeadsTo cells path p)
    (hfree : ∀ m, nl.netOf? p = some m → m = n) :
    HasNets cells (entries.modify n.index (addPath path)) (nl.attach n p) := by
  cases hof : nl.netOf? p with
  | some m =>
    obtain rfl := hfree m hof
    rw [attach_of_on hof]
    refine h.modify rfl rfl (fun _ _ => rfl) fun entry net hn hdescribes => ?_
    exact ⟨net, hn, hdescribes.again hpath ((hc.mem_pins hn p).2 hof)⟩
  | none =>
    have hstill : Still True nl (nl.attach n p) := .attach nl n p
    refine h.modify ?_ hstill.isOutput (fun m hm => ?_) fun entry net hn hdescribes => ?_
    · rw [attach_of_off hp hof]
      simp [modifyNet, setPinNet, modifyPin]
    · rw [net?_attach_of_off hp hof, if_neg hm]
    · have hoff : p ∉ net.pins := by simp [hc.mem_pins hn, hof]
      rw [net?_attach_of_off hp hof, if_pos rfl, hn]
      exact ⟨_, rfl, hdescribes.addPin hpath hoff (isOutput_eq hp)⟩

end HasNets

/-! ## All entries -/

/-- The netlist has the cells and the nets that are described, and a pin knows the net that it is
on. -/
structure Matches (d : Device) (cells : List CellDescription) (entries : List NetDescription)
    (nl : Netlist) : Prop extends HasCells d cells nl, HasNets cells entries nl where
  consistent : nl.Consistent

namespace Matches

variable {done : List NetDescription} {entry : NetDescription}

theorem attach (h : Matches d cells entries nl) (hn : (nl.net? n).isSome)
    (hpath : LeadsTo cells path p) (hfree : ∀ m, nl.netOf? p = some m → m = n) :
    Matches d cells (entries.modify n.index (addPath path)) (nl.attach n p) := by
  have hrejoins := Rejoins.attach nl n p
  obtain ⟨pin, hpin, -⟩ := Checked.bind_eq_ok.1 (h.pinFullName_eq hpath)
  exact ⟨h.toHasCells.keep hrejoins.cells hrejoins.cellIndex (.attach nl n p),
    h.toHasNets.attach h.consistent (getPin_eq_ok.1 hpin) hpath hfree, h.consistent.attach hn p⟩

/-- A pin that is not on the net of the last entry was put where it is for an earlier one. -/
theorem exists_path (h : Matches d cells (perNet (done ++ [entry])) nl) (hp : nl.netOf? p = some n)
    (hn : n ≠ netFor done entry) : ∃ old ∈ done, ∃ path ∈ old.pins, LeadsTo cells path p := by
  obtain ⟨net, hnet, hon⟩ := h.consistent.exists_net hp
  obtain ⟨merged, hmerged, hdescribes⟩ := h.exists_entry hnet
  obtain ⟨path, hpath, hleads⟩ := hdescribes.exists_path hon
  rw [NetDescription.getElem?_perNet_concat hn] at hmerged
  obtain ⟨old, hold, hpath'⟩ :=
    NetDescription.exists_mem_of_mem_perNet (List.mem_of_getElem? hmerged) hpath
  exact ⟨old, hold, path, hpath', hleads⟩

/-- The pins of an entry join its net. None of them is on another one. -/
theorem sinks (h : Matches d cells (perNet (done ++ [{ entry with pins := [] }])) nl)
    (hapart : ∀ old ∈ done, ∀ path ∈ old.pins, ∀ path' ∈ entry.pins, ∀ p,
      LeadsTo cells path p → ¬ LeadsTo cells path' p)
    (hfold : entry.pins.foldlM (addDescribedSink (netFor done entry)) nl = .ok nl') :
    Matches d cells (perNet (done ++ [entry])) nl' := by
  refine foldlM_done
    (fun paths mid => Matches d cells (perNet (done ++ [{ entry with pins := paths }])) mid)
    (fun paths path rest mid mid' hpaths hmid hsink => ?_) h hfold
  unfold addDescribedSink at hsink
  split at hsink
  · cases hsink
  next p hp =>
    cases hsink
    have hpath : LeadsTo cells path p := hmid.pinAtPath?_eq_some_iff.1 hp
    have hfree : ∀ m, mid.netOf? p = some m → m = netFor done entry := by
      intro m hm
      by_contra hne
      obtain ⟨old, hold, path', hpath', hleads⟩ := hmid.exists_path hm hne
      exact hapart old hold path' hpath' path (by simp [hpaths]) p hleads hpath
    have hjoined := hmid.attach (hmid.isSome_net? NetDescription.netFor_lt) hpath hfree
    rwa [← NetDescription.perNet_concat_addPath] at hjoined

theorem renameNet (h : Matches d cells entries nl) (n : NetId) (name : String) :
    Matches d cells (entries.modify n.index fun old => { old with name })
      (nl.renameNet n name) := by
  have hcells : (nl.renameNet n name).cells = nl.cells ∧
      (nl.renameNet n name).cellIndex = nl.cellIndex := by
    unfold Netlist.renameNet
    split <;> exact ⟨rfl, rfl⟩
  exact ⟨h.toHasCells.keep hcells.1 hcells.2 (.renameNet nl n name),
    h.toHasNets.renameNet n name, h.consistent.renameNet n name⟩

theorem addNet (h : Matches d cells entries nl) (name : String) :
    Matches d cells (entries ++ [⟨name, .wire, []⟩]) (nl.addNet name .wire) :=
  ⟨h.toHasCells.keep rfl rfl (.of_eq rfl rfl rfl rfl (.inr rfl)), h.toHasNets.addNet name,
    h.consistent.addNet name .wire⟩

theorem openNet (h : Matches d cells (perNet done) nl)
    (hopen : nl.openNet entry = .ok (n, nl')) : n = netFor done entry ∧
      Matches d cells (perNet (done ++ [{ entry with pins := [] }])) nl' := by
  have hconstant : ∀ isVcc, entry.kind = .ofStatic isVcc →
      Matches d cells (perNet (done ++ [{ entry with pins := [] }]))
        (nl.renameNet (staticNet isVcc) entry.name) := by
    intro isVcc hkind
    have hrenamed := h.renameNet (staticNet isVcc) entry.name
    have hkind' : { entry with pins := [] }.kind = .ofStatic isVcc := hkind
    rw [NetDescription.perNet_concat_of_static hkind']
    simpa using hrenamed
  unfold Netlist.openNet at hopen
  split at hopen
  next hkind =>
    cases hopen
    exact ⟨by rw [netFor, hkind], hconstant true hkind⟩
  next hkind =>
    cases hopen
    exact ⟨by rw [netFor, hkind], hconstant false hkind⟩
  next hkind =>
    split at hopen
    · cases hopen
    · cases hopen
      have hkind' : { entry with pins := [] }.kind = .wire := hkind
      rw [NetDescription.perNet_concat_of_wire hkind', netFor, hkind, nextNet, h.netCount]
      exact ⟨rfl, h.addNet entry.name⟩

theorem addEntry {seen seen' : KeySet String} (h : Matches d cells (perNet done) nl)
    (hapart : ∀ old ∈ done, ∀ path ∈ old.pins, ∀ path' ∈ entry.pins, ∀ p,
      LeadsTo cells path p → ¬ LeadsTo cells path' p)
    (hadd : addDescribedNet (seen, nl) entry = .ok (seen', nl')) :
    Matches d cells (perNet (done ++ [entry])) nl' := by
  unfold addDescribedNet at hadd
  dsimp only at hadd
  split at hadd
  · cases hadd
  · obtain ⟨⟨n, opened⟩, hopen, hadd⟩ := Checked.bind_eq_ok.1 hadd
    obtain ⟨joined, hjoin, hadd⟩ := Checked.bind_eq_ok.1 hadd
    cases Checked.pure_eq_ok.1 hadd
    obtain ⟨rfl, hopened⟩ := h.openNet hopen
    exact hopened.sinks hapart hjoin

theorem of_addDescribedCells {name : String} {mode : Mode}
    (h : cells.foldlM (addDescribedCell d) (empty name mode) = .ok nl) :
    Matches d cells (perNet []) nl := by
  have hnets : nl.nets = (empty name mode).nets :=
    congrArg Prod.fst (naming_of_addDescribedCells h)
  have hclosed : nl.Closed :=
    closed_of_loads (loads_of_addDescribedCells h) (closed_empty name mode)
  refine ⟨.of_addDescribedCells h, ⟨?_, fun i entry hi => ?_⟩, hclosed.toConsistent⟩
  · rw [hnets]
    rfl
  · unfold net?
    rw [hnets]
    match i with
    | 0 =>
      cases hi
      exact ⟨_, rfl, rfl, rfl, ⟨[], .nil, rfl⟩, rfl⟩
    | 1 =>
      cases hi
      exact ⟨_, rfl, rfl, rfl, ⟨[], .nil, rfl⟩, rfl⟩

end Matches

/-- A netlist is what its description says if no pin is listed in two entries. -/
theorem matches_of_ofDescription {desc : NetlistDescription} (h : ofDescription d desc = .ok nl)
    (hapart : desc.Apart) : Matches d desc.cells (perNet desc.nets) nl := by
  unfold ofDescription at h
  obtain ⟨placed, hplaced, h⟩ := Checked.bind_eq_ok.1 h
  obtain ⟨⟨seen, joined⟩, hjoined, h⟩ := Checked.bind_eq_ok.1 h
  cases Checked.pure_eq_ok.1 h
  have hmatches : Matches d desc.cells (perNet desc.nets) joined := by
    refine foldlM_done (fun done state => Matches d desc.cells (perNet done) state.2)
      (fun done entry rest state state' hnets hdone hadd => ?_)
      (.of_addDescribedCells hplaced) hjoined
    refine hdone.addEntry (fun old hold => ?_) hadd
    rw [NetlistDescription.Apart, hnets] at hapart
    exact (List.pairwise_append.1 hapart).2.2 old hold entry List.mem_cons_self
  have hc := hmatches.consistent
  exact ⟨hmatches.toHasCells.keep rfl rfl (.of_eq rfl rfl rfl rfl (.inr rfl)),
    ⟨hmatches.netCount, hmatches.net⟩, hc.congr (fun _ => rfl) (fun _ => rfl) hc.pin_of_cell⟩

/-- Different paths lead to different pins, so it is enough that entries share no path. -/
theorem apart_of_ofDescription {desc : NetlistDescription} (h : ofDescription d desc = .ok nl)
    (hpaths : desc.nets.Pairwise fun entry entry' => ∀ path ∈ entry.pins, path ∉ entry'.pins) :
    desc.Apart := by
  obtain ⟨placed, hplaced, -⟩ := Checked.bind_eq_ok.1 h
  have hcells : HasCells d desc.cells placed := .of_addDescribedCells hplaced
  refine hpaths.imp fun hdisjoint path hpath path' hpath' p hleads hleads' => ?_
  have hname := hcells.pinFullName_eq hleads
  rw [hcells.pinFullName_eq hleads', Except.ok.injEq] at hname
  exact hdisjoint path hpath (hname ▸ hpath')

def lutSite : DeviceDescription where
  name := "lut"
  family := .other
  tiles := [⟨"CLB", "LOGIC", []⟩]
  siteTypes := [⟨"SLICE", [],
    [⟨"LUT", [⟨"A1", .input, "L"⟩, ⟨"A2", .input, "M"⟩, ⟨"O", .output, "N"⟩]⟩], []⟩]
  sites := [⟨"S", "SLICE", "CLB"⟩]

/-- The pin `O` of the cell `a/b` is not the pin `b/O` of the cell `a`. -/
def hierarchy : NetlistDescription where
  name := "top"
  mode := .regular
  cells := [
    ⟨"a", "BUF", none, false, ∅, [⟨"I", .input, []⟩, ⟨"I", .input, []⟩, ⟨"b/O", .output, []⟩]⟩,
    ⟨"a/b", "LUT2", some "S/LUT", false, ∅,
      [⟨"I0", .input, ["A2", "A1"]⟩, ⟨"I1", .input, []⟩, ⟨"O", .output, ["O"]⟩]⟩]
  nets := [⟨"P1", .vcc, ["a/b/I0"]⟩, ⟨"n", .wire, ["a/I", "a/b/O", "a/I"]⟩,
    ⟨"P2", .vcc, ["a/b/I1"]⟩]
  staticNetOf := ∅
  staticRoutes := ∅

theorem matches_of_ofDescription_hierarchy : ∃ d nl,
    Device.ofDescription lutSite = .ok d ∧ ofDescription d hierarchy = .ok nl ∧ hierarchy.Apart ∧
    Matches d hierarchy.cells (perNet hierarchy.nets) nl ∧
    perNet hierarchy.nets = [⟨"P2", .vcc, ["a/b/I0", "a/b/I1"]⟩, ⟨"GND", .gnd, []⟩,
      ⟨"n", .wire, ["a/I", "a/b/O", "a/I"]⟩] ∧
    (nl.net? vcc).map (fun net => (net.pins, net.source)) = some ([⟨3⟩, ⟨4⟩], none) ∧
    (nl.net? ⟨2⟩).map (fun net => (net.pins, net.source)) = some ([⟨0⟩, ⟨5⟩], some ⟨5⟩) ∧
    (nl.pin? ⟨3⟩).map Pin.belPins = some [⟨1⟩, ⟨0⟩] := by
  have hload : (do
      let d ← (Device.ofDescription lutSite).toOption
      let nl ← (ofDescription d hierarchy).toOption
      return ((nl.net? vcc).map fun net => (net.pins, net.source),
        (nl.net? ⟨2⟩).map fun net => (net.pins, net.source),
        (nl.pin? ⟨3⟩).map Pin.belPins)) =
      some (some ([⟨3⟩, ⟨4⟩], none), some ([⟨0⟩, ⟨5⟩], some ⟨5⟩), some [⟨1⟩, ⟨0⟩]) := by
    decide +kernel
  simp only [Option.bind_eq_bind, Option.bind_eq_some_iff, Checked.toOption_eq_some,
    Option.pure_def, Option.some.injEq, Prod.mk.injEq] at hload
  obtain ⟨d, hd, nl, hnl, hvcc, hn, hmapped⟩ := hload
  have hapart : hierarchy.Apart := apart_of_ofDescription hnl (by decide)
  exact ⟨d, nl, hd, hnl, hapart, matches_of_ofDescription hnl hapart, by decide, hvcc, hn, hmapped⟩

end Netlist

end Fabric
