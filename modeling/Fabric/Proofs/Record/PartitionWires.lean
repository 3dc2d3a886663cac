import Fabric.Proofs.Device.Furnished
import Fabric.Proofs.Record.Walk
import Fabric.RouteText.OfTree
/-!
# Partition pins and the routes that start at them

The wire of a partition pin is read by the type of its tile, and written by the name of its tile.
Reading and writing agree where the boundary tiles by type are the boundary tile by name.
-/

namespace Fabric

/-- The parts of a text, with the separators between them again, are the text. -/
theorem Text.intercalate_partsFrom (sep : Char) (part cs : List Char) :
    [sep].intercalate (partsFrom sep part cs) = part.reverse ++ cs := by
  induction cs generalizing part with
  | nil => simp [partsFrom, List.intercalate]
  | cons c cs ih =>
    unfold partsFrom
    split
    next hc =>
      have hrest := ih []
      cases hparts : partsFrom sep [] cs with
      | nil =>
        have hlength := length_partsFrom sep [] cs
        simp [hparts] at hlength
      | cons first rest =>
        rw [hparts] at hrest
        rw [List.intercalate, List.intersperse_cons_cons, List.flatten_cons, List.flatten_cons]
        rw [List.intercalate] at hrest
        simp [hrest, hc]
    next => simp [ih]

theorem Text.eq_of_parts_eq_pair {sep : Char} {s a b : String} (h : parts sep s = [a, b]) :
    s = a ++ String.singleton sep ++ b := by
  unfold parts at h
  obtain ⟨as, rest, hparts, rfl, hrest⟩ := List.map_eq_cons_iff.1 h
  obtain ⟨bs, last, hparts', rfl, hlast⟩ := List.map_eq_cons_iff.1 hrest
  obtain rfl := List.map_eq_nil_iff.1 hlast
  have hall := intercalate_partsFrom sep [] s.toList
  rw [hparts, hparts'] at hall
  refine String.toList_inj.1 ?_
  simp [List.intercalate] at hall
  simp [← hall]

namespace Device

variable {d : Device} {desc : DeviceDescription}

/-! ## Names of a loaded device -/

theorem tileName_of_tileNamed? (hd : ofDescription desc = .ok d) {name : String} {t : TileId}
    (ht : d.tileNamed? name = some t) : d.tileName t = name := by
  have htyped := (furnished_of_ofDescription hd).typed
  have hplace := (htyped.tileIndex name t).1 ht
  rw [List.getElem?_map] at hplace
  obtain ⟨td, htd, hname⟩ := Option.map_eq_some_iff.1 hplace
  obtain ⟨tile, htile, hdeclares⟩ := htyped.exists_tile htd
  unfold tileName
  rw [htile, Option.map_some, Option.getD_some, hdeclares.name, hname]

theorem wireName_of_wireNamed? (hd : ofDescription desc = .ok d) {name : String} {v : WireName}
    (hv : d.wireNamed? name = some v) : d.wireName v = name := by
  have hnames := (furnished_of_ofDescription hd).typed.names
  unfold wireNamed? at hv
  unfold wireName
  rw [hnames] at hv ⊢
  rw [(NameTable.coherent_ofList desc.mentions name v).1 hv, Option.getD_some]

end Device

/-! ## The root of a written route -/

theorem RouteText.wire_ofTree {name : Wire → String} {t : RouteTree} {w : Wire}
    (hw : t.wire? 0 = some w) : (ofTree name t).wire = name w := by
  obtain ⟨node, hnode, -⟩ := Option.map_eq_some_iff.1 hw
  have hsize : 0 < t.size := (Array.getElem?_eq_some_iff.1 hnode).1
  obtain ⟨depth, hdepth⟩ := Nat.exists_eq_add_of_lt hsize
  rw [ofTree, hdepth, Nat.zero_add]
  unfold runFrom
  rw [hw, Option.map_some, Option.getD_some]
  dsimp only
  split <;> rfl

namespace Record

variable {d : Device} {F : Prop} {I : Importer → Prop} {im im' : Importer}

theorem reads_findPartitionWire_named (him : I im) (token : String) :
    Reads F I (findPartitionWire d token) im fun w => ∃ tile wire t v,
      Text.parts '/' token = [tile, wire] ∧ d.tileNamed? tile = some t ∧
      d.wireNamed? (if d.tileType t = boundaryTileType then token else wire) = some v ∧
      w = .tile t v :=
  reads_findPartitionWire d him token

/-- The wire of a partition pin is written as it was read if the tile is a boundary tile by type
exactly when it is the one by name, and otherwise never. A route from there starts with what is
written. -/
theorem routeName_of_findPartitionWire {desc : DeviceDescription}
    (hd : Device.ofDescription desc = .ok d) {token : String} {w : Wire}
    (hw : (findPartitionWire d token).run.run im = .ok (.ok w, im')) :
    let t := d.wireTile w
    (d.routeName w = token ↔
      (d.tileType t = boundaryTileType ↔ d.tileName t = Device.boundaryTile)) ∧
    (d.tileType t = boundaryTileType → d.tileName t ≠ Device.boundaryTile →
      d.routeName w = d.tileName t ++ "/" ++ token) ∧
    (d.tileType t ≠ boundaryTileType → d.tileName t = Device.boundaryTile →
      token = d.tileName t ++ "/" ++ d.routeName w) ∧
    ∀ tree : RouteTree, tree.wire? 0 = some w → (d.routeText tree).wire = d.routeName w := by
  obtain ⟨-, tile, wire, t, v, hparts, ht, hv, rfl⟩ :=
    (reads_findPartitionWire_named (F := True) (I := fun _ => True) trivial token).result hw
  have htoken : token = tile ++ "/" ++ wire := Text.eq_of_parts_eq_pair hparts
  have htile := Device.tileName_of_tileNamed? hd ht
  have hwire := Device.wireName_of_wireNamed? hd hv
  have hname : d.routeName (.tile t v) =
      if tile = Device.boundaryTile then d.wireName v else tile ++ "/" ++ d.wireName v := by
    unfold Device.routeName Device.wireTile
    rw [htile]
    rfl
  dsimp only [Device.wireTile]
  rw [hname, htile, hwire]
  refine ⟨?_, ?_, ?_, fun tree htree => ?_⟩
  · by_cases hboundary : tile = Device.boundaryTile
    · by_cases htype : d.tileType t = boundaryTileType
      · simp [hboundary, htype]
      · simp [hboundary, htype, htoken, eq_comm (a := wire)]
    · by_cases htype : d.tileType t = boundaryTileType
      · simp [hboundary, htype]
      · simp [hboundary, htype, htoken]
  · intro htype hother
    rw [if_neg hother, if_pos htype]
  · intro htype hboundary
    rw [if_pos hboundary, if_neg htype, htoken]
  · rw [Device.routeText, RouteText.wire_ofTree htree, hname, hwire]

def twoBoundaries : DeviceDescription where
  name := "two boundaries"
  family := .other
  tiles := [
    ⟨"OOC_WIRE_X0Y0", "OOC_WIRE", [⟨"OOC_WIRE_X0Y0/P", [⟨"IN", some "INT", .pip⟩]⟩]⟩,
    ⟨"OOC_WIRE_X1Y0", "OOC_WIRE", [⟨"OOC_WIRE_X1Y0/P", [⟨"IN", some "INT", .pip⟩]⟩]⟩,
    ⟨"INT", "SWITCH", [⟨"IN", []⟩]⟩]
  siteTypes := []
  sites := []

def bareModule : Importer := .ofNetlist { name := "top", mode := .outOfContext }

theorem routeName_of_findPartitionWire_twoBoundaries :
    ∃ d w, Device.ofDescription twoBoundaries = .ok d ∧
      (findPartitionWire d "OOC_WIRE_X0Y0/P").run.run bareModule = .ok (.ok w, bareModule) ∧
      d.routeName w = "OOC_WIRE_X0Y0/P" ∧
      (d.routeText (.ofRoot w)).wire = "OOC_WIRE_X0Y0/P" := by
  have hd : Device.ofDescription twoBoundaries =
      .ok ((Device.ofDescription twoBoundaries).toOption.get rfl) := rfl
  have hrun : (findPartitionWire ((Device.ofDescription twoBoundaries).toOption.get rfl)
      "OOC_WIRE_X0Y0/P").run.run bareModule = .ok (.ok (.tile ⟨0⟩ ⟨0⟩), bareModule) := rfl
  obtain ⟨hread, -, -, hroot⟩ := routeName_of_findPartitionWire hd hrun
  have hname := hread.2 (by decide +kernel)
  exact ⟨_, _, hd, hrun, hname, (hroot _ rfl).trans hname⟩

/-- At a boundary tile of another name a wire is written with its tile twice. -/
theorem routeName_ne_of_findPartitionWire_twoBoundaries :
    ∃ d w, Device.ofDescription twoBoundaries = .ok d ∧
      (findPartitionWire d "OOC_WIRE_X1Y0/P").run.run bareModule = .ok (.ok w, bareModule) ∧
      d.routeName w = "OOC_WIRE_X1Y0/OOC_WIRE_X1Y0/P" ∧ d.routeName w ≠ "OOC_WIRE_X1Y0/P" := by
  refine ⟨(Device.ofDescription twoBoundaries).toOption.get rfl, .tile ⟨1⟩ ⟨2⟩, rfl, rfl, ?_, ?_⟩
  all_goals decide +kernel

end Record

end Fabric
