import Fabric.Netlist.Build
import Fabric.Proofs.Netlist.Placement
/-!
# Cells and pins as they are described

Cells are numbered by their places in the description. The pins of a cell stand together, behind
those of the cells in front of it, and a path leads to the first pin of its name.
-/

namespace Fabric

open Checked (foldlM_done)

/-! ## Lists and texts -/

theorem modify_concat {α : Type} (as : List α) (a : α) (f : α → α) :
    (as ++ [a]).modify as.length f = as ++ [f a] :=
  List.modifyTailIdx_add _ 0 as [a]

theorem modify_push {α : Type} (as : Array α) (a : α) (f : α → α) :
    (as.push a).modify as.size f = as.push (f a) := by
  refine Array.toList_inj.1 ?_
  rw [Array.toList_modify, Array.toList_push, Array.toList_push, ← Array.length_toList,
    modify_concat]

theorem getElem?_concat {α : Type} {as : List α} {a b : α} {i : Nat} :
    (as ++ [a])[i]? = some b ↔ as[i]? = some b ∨ i = as.length ∧ b = a := by
  rcases Nat.lt_trichotomy i as.length with hlt | rfl | hgt
  · simp [List.getElem?_append_left hlt, Nat.ne_of_lt hlt]
  · simp [eq_comm]
  · rw [List.getElem?_eq_none (by simp; omega), List.getElem?_eq_none (Nat.le_of_lt hgt)]
    simp [Nat.ne_of_gt hgt]

theorem find?_range' {α : Type} (as : List α) {p : α → Bool} {q : Nat → Bool} {s : Nat}
    (h : ∀ i a, as[i]? = some a → q (s + i) = p a) :
    (List.range' s as.length).find? q = (as.findIdx? p).map (s + ·) := by
  induction as generalizing s with
  | nil => rfl
  | cons a as ih =>
    have hhead : q s = p a := h 0 a rfl
    have htail : ∀ i b, as[i]? = some b → q (s + 1 + i) = p b := by
      intro i b hb
      rw [Nat.add_assoc, Nat.add_comm 1]
      exact h (i + 1) b hb
    rw [List.length_cons, List.range'_succ, List.find?_cons, List.findIdx?_cons, hhead, ih htail]
    cases p a with
    | true => rfl
    | false =>
      have hnext : (fun i => s + i) ∘ (· + 1) = (s + 1 + ·) := by
        funext i
        simp only [Function.comp_apply]
        omega
      rw [if_neg Bool.false_ne_true, Option.map_map, hnext]

theorem Text.cutLast_eq_some_iff {sep : Char} {s front back : String} :
    cutLast sep s = some (front, back) ↔
      s.toList = front.toList ++ sep :: back.toList ∧ sep ∉ back.toList := by
  constructor
  · intro h
    have hsplit : s.toList.reverse.takeWhile (· ≠ sep) ++ s.toList.reverse.dropWhile (· ≠ sep) =
        s.toList.reverse := List.takeWhile_append_dropWhile
    unfold cutLast at h
    dsimp only at h
    split at h
    · cases h
    next c before hdrop =>
      cases h
      have hc : c = sep := by
        have hhead := List.head?_dropWhile_not (· ≠ sep) s.toList.reverse
        rw [hdrop] at hhead
        simpa using hhead
      rw [hdrop, hc, eq_comm, List.reverse_eq_append_iff, List.reverse_cons] at hsplit
      refine ⟨hsplit.trans (by simp), fun hmem => ?_⟩
      rw [String.toList_ofList, List.mem_reverse] at hmem
      simpa using List.all_eq_true.1 List.all_takeWhile sep hmem
  · rintro ⟨hs, hsep⟩
    have hkeep : ∀ c ∈ back.toList.reverse, decide (c ≠ sep) = true := by
      intro c hc
      refine decide_eq_true fun heq => hsep ?_
      rwa [← heq, ← List.mem_reverse]
    have hreverse : s.toList.reverse = back.toList.reverse ++ sep :: front.toList.reverse := by
      simp [hs]
    unfold cutLast
    dsimp only
    rw [hreverse, List.dropWhile_append_of_pos hkeep, List.takeWhile_append_of_pos hkeep]
    simp

/-! ## What is described -/

namespace CellDescription

def place? (d : Device) (cell : CellDescription) : Option (SiteId × BelId) :=
  cell.bel.bind d.belAtPath?

def bel? (d : Device) (cell : CellDescription) : Option BelId := (cell.place? d).map Prod.snd

/-- A cell as it is described. Its pins are numbered from `first` on. -/
def toCell (d : Device) (cell : CellDescription) (first : Nat) : Cell where
  name := cell.name
  type := cell.type
  bel := cell.bel? d
  site := (cell.place? d).map Prod.fst
  isPort := cell.isPort
  properties := cell.properties
  pins := (List.range' first cell.pins.length).map Key.mk

/-- The number of the first pin of a cell: all pins of the cells in front have smaller ones. -/
def firstPin (cells : List CellDescription) (i : Nat) : Nat :=
  ((cells.take i).flatMap CellDescription.pins).length

/-- The path is that of a pin: behind its last slash stands the name of the pin, and before it the
name of the cell. Of the pins of one name the first is meant. -/
def LeadsTo (cells : List CellDescription) (path : String) (p : PinId) : Prop :=
  ∃ i cell j name, cells[i]? = some cell ∧ path = cell.name ++ "/" ++ name ∧ '/' ∉ name.toList ∧
    cell.pins.findIdx? (fun pin => pin.name = name) = some j ∧ p = ⟨firstPin cells i + j⟩

end CellDescription

/-- A pin as it is described, whatever net it is on. It is mapped to the pins of the BEL that have
the described names, in the described order. -/
structure PinDescription.Describes (d : Device) (c : CellId) (bel : Option BelId)
    (described : PinDescription) (pin : Pin) : Prop where
  name : pin.name = described.name
  cell : pin.cell = c
  dir : pin.dir = described.dir
  kind : pin.kind = .regular
  belPins : List.Forall₂ (fun name b => (bel.bind fun bel => d.belPinNamed? bel name) = some b)
    described.belPins pin.belPins

theorem PinDescription.Describes.of_offNet {d : Device} {c : CellId} {bel : Option BelId}
    {described : PinDescription} {pin pin' : Pin} (h : described.Describes d c bel pin)
    (heq : pin'.offNet = pin.offNet) : described.Describes d c bel pin' where
  name := (congrArg Pin.name heq).trans h.name
  cell := (congrArg Pin.cell heq).trans h.cell
  dir := (congrArg Pin.dir heq).trans h.dir
  kind := (congrArg Pin.kind heq).trans h.kind
  belPins := by
    have hbelPins := congrArg Pin.belPins heq
    change pin'.belPins = pin.belPins at hbelPins
    rw [hbelPins]
    exact h.belPins

open CellDescription (firstPin LeadsTo)

namespace Netlist

variable {d : Device} {nl nl' : Netlist} {cell : CellDescription} {cells : List CellDescription}

/-! ## One cell -/

structure AddsPin (d : Device) (c : CellId) (bel : Option BelId) (described : PinDescription)
    (nl nl' : Netlist) : Prop where
  cells : nl'.cells = nl.cells.modify c.index fun cell =>
    { cell with pins := cell.pins ++ [nl.nextPin] }
  pins : ∃ pin, nl'.pins = nl.pins.push pin ∧ described.Describes d c bel pin
  cellIndex : nl'.cellIndex = nl.cellIndex

theorem addsPin_addPin (c : CellId) (bel : Option BelId) (described : PinDescription) :
    AddsPin d c bel { described with belPins := [] } nl
      (nl.addPin c described.name described.dir .regular) where
  cells := rfl
  pins := ⟨_, rfl, rfl, rfl, rfl, rfl, .nil⟩
  cellIndex := rfl

theorem AddsPin.addMapping {c : CellId} {bel : BelId} {described : PinDescription}
    {names : List String} {name : String} {mid : Netlist}
    (h : AddsPin d c (some bel) { described with belPins := names } nl mid)
    (hmap : addMapping d cell bel nl.nextPin mid name = .ok nl') :
    AddsPin d c (some bel) { described with belPins := names ++ [name] } nl nl' := by
  obtain ⟨pin, hpins, hpin⟩ := h.pins
  unfold Netlist.addMapping at hmap
  split at hmap
  · cases hmap
  next b hb =>
    split at hmap
    · cases hmap
    · cases hmap
      have hmapped : (mid.mapPin nl.nextPin b).pins =
          nl.pins.push { pin with belPins := pin.belPins ++ [b] } := by
        rw [← modify_push nl.pins pin fun pin => { pin with belPins := pin.belPins ++ [b] },
          ← hpins]
        rfl
      have hnames := List.rel_append hpin.belPins (.cons hb .nil)
      exact ⟨h.cells, ⟨_, hmapped, { hpin with belPins := hnames }⟩, h.cellIndex⟩

theorem addsPin_of_addDescribedPin {c : CellId} {bel : Option BelId} {described : PinDescription}
    (h : addDescribedPin d cell c bel nl described = .ok nl') :
    AddsPin d c bel described nl nl' := by
  unfold addDescribedPin at h
  split at h
  next hnone =>
    cases h
    have hadds : AddsPin d c bel { described with belPins := [] } nl _ :=
      addsPin_addPin c bel described
    rwa [← List.isEmpty_iff.1 hnone] at hadds
  next =>
    split at h
    · cases h
    next bel =>
      exact foldlM_done
        (fun names mid => AddsPin d c (some bel) { described with belPins := names } nl mid)
        (fun _ _ _ _ _ _ hdone hmap => hdone.addMapping hmap) (addsPin_addPin c _ described) h

structure AddsCell (d : Device) (cell : CellDescription) (nl nl' : Netlist) : Prop where
  cells : nl'.cells = nl.cells.push (cell.toCell d nl.pins.size)
  pins : ∃ pins, nl'.pins.toList = nl.pins.toList ++ pins ∧
    List.Forall₂ (fun described pin => described.Describes d nl.nextCell (cell.bel? d) pin)
      cell.pins pins
  cellIndex : nl'.cellIndex = nl.cellIndex.insert cell.name nl.nextCell

theorem AddsCell.addPin {pins : List PinDescription} {described : PinDescription} {mid : Netlist}
    (h : AddsCell d { cell with pins } nl mid)
    (hpin : AddsPin d nl.nextCell (cell.bel? d) described mid nl') :
    AddsCell d { cell with pins := pins ++ [described] } nl nl' := by
  obtain ⟨new, hnew, hall⟩ := h.pins
  obtain ⟨pin, hpush, hpin'⟩ := hpin.pins
  have hnext : mid.nextPin = ⟨nl.pins.size + pins.length⟩ := by
    have hlength := congrArg List.length hnew
    have hcount : pins.length = new.length := hall.length_eq
    simp only [List.length_append, Array.length_toList] at hlength
    rw [nextPin, hlength, hcount]
  refine ⟨?_, ⟨new ++ [pin], ?_, List.rel_append hall (.cons hpin' .nil)⟩, ?_⟩
  · rw [hpin.cells, h.cells, nextCell, modify_push, hnext]
    simp [CellDescription.toCell, CellDescription.bel?, CellDescription.place?,
      List.range'_1_concat]
  · rw [hpush, Array.toList_push, hnew, List.append_assoc]
  · rw [hpin.cellIndex, h.cellIndex]

theorem addsCell_of_pins {mid : Netlist} (h : AddsCell d { cell with pins := [] } nl mid)
    (hfold : cell.pins.foldlM (addDescribedPin d cell nl.nextCell (cell.bel? d)) mid = .ok nl') :
    AddsCell d cell nl nl' :=
  foldlM_done (fun pins mid => AddsCell d { cell with pins } nl mid)
    (fun _ _ _ _ _ _ hdone hpin => hdone.addPin (addsPin_of_addDescribedPin hpin)) h hfold

def addBare (nl : Netlist) (cell : CellDescription) : Netlist :=
  (nl.addCell cell.name cell.type).modifyCell nl.nextCell fun old =>
    { old with isPort := cell.isPort, properties := cell.properties }

theorem addsCell_addBare (hplace : cell.place? d = none) :
    AddsCell d { cell with pins := [] } nl (nl.addBare cell) where
  cells := by
    have hplace' : { cell with pins := [] }.place? d = none := hplace
    simp [addBare, addCell, modifyCell, nextCell, modify_push, CellDescription.toCell,
      CellDescription.bel?, hplace']
  pins := ⟨[], (List.append_nil _).symm, .nil⟩
  cellIndex := rfl

theorem addsCell_place {s : SiteId} {b : BelId} (hplace : cell.place? d = some (s, b)) :
    AddsCell d { cell with pins := [] } nl ((nl.addBare cell).place nl.nextCell s b) where
  cells := by
    have hplace' : { cell with pins := [] }.place? d = some (s, b) := hplace
    simp [addBare, addCell, modifyCell, place, nextCell, modify_push, CellDescription.toCell,
      CellDescription.bel?, hplace']
  pins := ⟨[], (List.append_nil _).symm, .nil⟩
  cellIndex := rfl

theorem addsCell_of_addDescribedCell (h : addDescribedCell d nl cell = .ok nl') :
    nl.cellNamed? cell.name = none ∧ (cell.bel.isSome → (cell.place? d).isSome) ∧
      AddsCell d cell nl nl' := by
  unfold addDescribedCell at h
  split at h
  · cases h
  next hnew =>
    refine ⟨by simpa using hnew, ?_⟩
    dsimp only at h
    split at h
    next hbel =>
      have hplace : cell.place? d = none := by rw [CellDescription.place?, hbel, Option.bind_none]
      refine ⟨by simp [hbel], addsCell_of_pins (addsCell_addBare hplace) ?_⟩
      rw [CellDescription.bel?, hplace]
      exact h
    next path hbel =>
      split at h
      · cases h
      next s b hpath =>
        have hplace : cell.place? d = some (s, b) := by
          rw [CellDescription.place?, hbel, Option.bind_some, hpath]
        refine ⟨by simp [hplace], addsCell_of_pins (addsCell_place hplace) ?_⟩
        rw [CellDescription.bel?, hplace]
        exact h

namespace AddsCell

theorem cell?_eq (h : AddsCell d cell nl nl') (c : CellId) :
    nl'.cell? c = if c = nl.nextCell then some (cell.toCell d nl.pins.size) else nl.cell? c := by
  simp only [cell?, h.cells, Array.getElem?_push, nextCell, Key.ext_iff]

theorem cellNamed?_eq (h : AddsCell d cell nl nl') (name : String) :
    nl'.cellNamed? name = if name = cell.name then some nl.nextCell else nl.cellNamed? name := by
  simp only [cellNamed?, h.cellIndex, Std.ExtTreeMap.getElem?_insert,
    Std.LawfulEqCmp.compare_eq_iff_eq, @eq_comm _ cell.name]

theorem pinCount (h : AddsCell d cell nl nl') :
    nl'.pins.size = nl.pins.size + cell.pins.length := by
  obtain ⟨pins, hpins, hdescribes⟩ := h.pins
  rw [← Array.length_toList, hpins, List.length_append, hdescribes.length_eq, Array.length_toList]

theorem pin?_old (h : AddsCell d cell nl nl') {p : PinId} {pin : Pin} (hp : nl.pin? p = some pin) :
    nl'.pin? p = some pin := by
  obtain ⟨pins, hpins, -⟩ := h.pins
  rw [pin?, ← Array.getElem?_toList] at hp ⊢
  rw [hpins, List.getElem?_append_left (List.getElem?_eq_some_iff.1 hp).1, hp]

theorem pin?_new (h : AddsCell d cell nl nl') {j : Nat} {described : PinDescription}
    (hj : cell.pins[j]? = some described) : ∃ pin, nl'.pin? ⟨nl.pins.size + j⟩ = some pin ∧
      described.Describes d nl.nextCell (cell.bel? d) pin := by
  obtain ⟨pins, hpins, hdescribes⟩ := h.pins
  obtain ⟨pin, hpin, hdescribed⟩ := Checked.getElem?_of_forall₂ hdescribes hj
  refine ⟨pin, ?_, hdescribed⟩
  rw [pin?, ← Array.getElem?_toList, hpins, ← Array.length_toList,
    List.getElem?_append_right (Nat.le_add_right ..), Nat.add_sub_cancel_left, hpin]

end AddsCell

/-! ## All cells -/

theorem firstPin_concat {i : Nat} {old : CellDescription} (hi : cells[i]? = some old)
    (cell : CellDescription) : firstPin (cells ++ [cell]) i = firstPin cells i := by
  have hle : i ≤ cells.length := Nat.le_of_lt (List.getElem?_eq_some_iff.1 hi).1
  rw [firstPin, firstPin, List.take_append_of_le_length hle]

theorem firstPin_concat_length (cells : List CellDescription) (cell : CellDescription) :
    firstPin (cells ++ [cell]) cells.length = (cells.flatMap CellDescription.pins).length := by
  rw [firstPin, List.take_left]

structure HasCells (d : Device) (cells : List CellDescription) (nl : Netlist) : Prop where
  cellCount : nl.cells.size = cells.length
  cell : ∀ i cell, cells[i]? = some cell →
    nl.cell? ⟨i⟩ = some (cell.toCell d (firstPin cells i))
  placed : ∀ cell ∈ cells, cell.bel.isSome → (cell.place? d).isSome
  pinCount : nl.pins.size = (cells.flatMap CellDescription.pins).length
  pin : ∀ i cell j described, cells[i]? = some cell → cell.pins[j]? = some described →
    ∃ pin, nl.pin? ⟨firstPin cells i + j⟩ = some pin ∧
      described.Describes d ⟨i⟩ (cell.bel? d) pin
  named : ∀ name c, nl.cellNamed? name = some c ↔
    ∃ cell, cells[c.index]? = some cell ∧ cell.name = name

theorem hasCells_empty (d : Device) (name : String) (mode : Mode) :
    HasCells d [] (empty name mode) where
  cellCount := rfl
  cell := by simp
  placed := by simp
  pinCount := rfl
  pin := by simp
  named := by simp [cellNamed?, empty, addNet]

namespace HasCells

theorem add (h : HasCells d cells nl) (hadds : AddsCell d cell nl nl')
    (hnew : nl.cellNamed? cell.name = none)
    (hplaced : cell.bel.isSome → (cell.place? d).isSome) : HasCells d (cells ++ [cell]) nl' where
  cellCount := by
    rw [hadds.cells, Array.size_push, h.cellCount, List.length_append, List.length_singleton]
  cell i cell' hi := by
    rw [hadds.cell?_eq, nextCell, h.cellCount]
    rcases getElem?_concat.1 hi with hold | ⟨rfl, rfl⟩
    · have hne : i ≠ cells.length := Nat.ne_of_lt (List.getElem?_eq_some_iff.1 hold).1
      rw [if_neg fun heq => hne (congrArg Key.index heq), firstPin_concat hold]
      exact h.cell i cell' hold
    · rw [if_pos rfl, firstPin_concat_length, h.pinCount]
  placed cell' hmem := by
    rcases List.mem_append.1 hmem with hold | hlast
    · exact h.placed cell' hold
    · exact List.mem_singleton.1 hlast ▸ hplaced
  pinCount := by
    rw [hadds.pinCount, h.pinCount]
    simp
  pin i cell' j described hi hj := by
    rcases getElem?_concat.1 hi with hold | ⟨rfl, rfl⟩
    · obtain ⟨pin, hpin, hdescribed⟩ := h.pin i cell' j described hold hj
      rw [firstPin_concat hold]
      exact ⟨pin, hadds.pin?_old hpin, hdescribed⟩
    · rw [firstPin_concat_length, ← h.pinCount, ← h.cellCount]
      exact hadds.pin?_new hj
  named name c := by
    have hname := h.named name c
    rw [hadds.cellNamed?_eq, nextCell, h.cellCount]
    simp only [getElem?_concat, or_and_right, exists_or, ← hname]
    split
    next heq =>
      subst heq
      simp [hnew, Key.ext_iff, eq_comm]
    next hne =>
      refine ⟨.inl, fun hor => hor.resolve_right ?_⟩
      rintro ⟨_, ⟨-, rfl⟩, heq⟩
      exact hne heq.symm

theorem of_addDescribedCells {name : String} {mode : Mode}
    (h : cells.foldlM (addDescribedCell d) (empty name mode) = .ok nl) : HasCells d cells nl :=
  foldlM_done (fun done mid => HasCells d done mid)
    (fun _ _ _ _ _ _ hdone hcell => by
      obtain ⟨hnew, hplaced, hadds⟩ := addsCell_of_addDescribedCell hcell
      exact hdone.add hadds hnew hplaced) (hasCells_empty d name mode) h

/-- Nothing matters but the cells, their names, and what the pins are but for their nets. -/
theorem keep (h : HasCells d cells nl) (hcells : nl'.cells = nl.cells)
    (hindex : nl'.cellIndex = nl.cellIndex) (hstill : Still True nl nl') :
    HasCells d cells nl' where
  cellCount := by rw [hcells, h.cellCount]
  cell := by
    unfold cell?
    rw [hcells]
    exact h.cell
  placed := h.placed
  pinCount := hstill.size.trans h.pinCount
  pin i cell j described hi hj := by
    obtain ⟨pin, hpin, hdescribed⟩ := h.pin i cell j described hi hj
    have hmap := hstill.pins ⟨firstPin cells i + j⟩
    rw [hpin, Option.map_some, Option.map_eq_some_iff] at hmap
    obtain ⟨pin', hpin', heq⟩ := hmap
    exact ⟨pin', hpin', hdescribed.of_offNet heq⟩
  named := by
    unfold cellNamed?
    rw [hindex]
    exact h.named

/-! ## Paths -/

theorem pinNamed_eq (h : HasCells d cells nl) {i : Nat} (hi : cells[i]? = some cell)
    (name : String) : nl.pinNamed ⟨i⟩ name =
      .ok ((cell.pins.findIdx? fun pin => pin.name = name).map fun j =>
        ⟨firstPin cells i + j⟩) := by
  have hfind := find?_range' cell.pins (p := fun pin => pin.name = name)
    (q := fun k => (nl.pin? ⟨k⟩).any fun pin => pin.name = name) (s := firstPin cells i)
    fun j described hj => by
      obtain ⟨pin, hpin, hdescribed⟩ := h.pin i cell j described hi hj
      rw [hpin, Option.any_some, hdescribed.name]
  have hcell : nl.getCell ⟨i⟩ = .ok (cell.toCell d (firstPin cells i)) :=
    getCell_eq_ok.2 (h.cell i cell hi)
  rw [pinNamed, hcell, Checked.ok_bind]
  refine congrArg Except.ok ?_
  rw [CellDescription.toCell, List.find?_map]
  exact (congrArg (Option.map Key.mk) hfind).trans (Option.map_map ..)

/-- The netlist finds the pins that the paths of the description lead to. -/
theorem pinAtPath?_eq_some_iff (h : HasCells d cells nl) {path : String} {p : PinId} :
    nl.pinAtPath? path = some p ↔ LeadsTo cells path p := by
  have hpath : ∀ cellName pinName : String, Text.cutLast '/' path = some (cellName, pinName) ↔
      path = cellName ++ "/" ++ pinName ∧ '/' ∉ pinName.toList := by
    intro cellName pinName
    rw [Text.cutLast_eq_some_iff, ← String.toList_inj]
    simp
  unfold pinAtPath?
  simp only [Option.bind_eq_bind, Option.bind_eq_some_iff, Prod.exists, hpath, h.named]
  constructor
  · rintro ⟨_, pinName, ⟨rfl, hname⟩, ⟨i⟩, ⟨cell, hi, rfl⟩, hp⟩
    rw [h.pinNamed_eq hi] at hp
    obtain ⟨j, hj, rfl⟩ := Option.map_eq_some_iff.1 hp
    exact ⟨i, cell, j, pinName, hi, rfl, hname, hj, rfl⟩
  · rintro ⟨i, cell, j, pinName, hi, rfl, hname, hj, rfl⟩
    refine ⟨cell.name, pinName, ⟨rfl, hname⟩, ⟨i⟩, ⟨cell, hi, rfl⟩, ?_⟩
    rw [h.pinNamed_eq hi, hj]
    rfl

theorem pinFullName_eq (h : HasCells d cells nl) {path : String} {p : PinId}
    (hpath : LeadsTo cells path p) : nl.pinFullName p = .ok path := by
  obtain ⟨i, cell, j, name, hi, rfl, -, hj, rfl⟩ := hpath
  obtain ⟨hlt, hname, -⟩ := List.findIdx?_eq_some_iff_getElem.1 hj
  obtain ⟨pin, hpin, hdescribed⟩ := h.pin i cell j _ hi (List.getElem?_eq_getElem hlt)
  have hcell : nl.getCell pin.cell = .ok (cell.toCell d (firstPin cells i)) := by
    rw [hdescribed.cell]
    exact getCell_eq_ok.2 (h.cell i cell hi)
  have hpin' : nl.getPin ⟨firstPin cells i + j⟩ = .ok pin := getPin_eq_ok.2 hpin
  rw [pinFullName, hpin', Checked.ok_bind, hcell, Checked.ok_bind, hdescribed.name,
    of_decide_eq_true hname]
  rfl

end HasCells

end Netlist

end Fabric
