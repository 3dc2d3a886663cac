import Std.Data.ExtTreeMap
import Std.Data.ExtTreeSet
/-!
# Numbered resources

Every resource of a device or a netlist is named by the number it got when it was
created, counted from zero within its kind. The kind is part of the type, so a pin
number is never taken for a net number.

Numbers are not bounded here. They agree with words of 32 bits as long as there are fewer
than 2^32 resources of a kind, which is stated with the numbers of wire names.
-/

namespace Fabric

inductive Kind
  | wireName | tile | siteType | site | bel | belPin | sitePin | cell | cellPin | net
deriving DecidableEq, Repr

def Kind.text : Kind → String
  | wireName => "wire"
  | tile => "tile"
  | siteType => "site type"
  | site => "site"
  | bel => "BEL"
  | belPin => "BEL pin"
  | sitePin => "site pin"
  | cell => "cell"
  | cellPin => "cell pin"
  | net => "net"

/-- The number of a resource of one kind. -/
@[ext] structure Key (k : Kind) where
  index : Nat
deriving DecidableEq, Hashable, Repr, Inhabited

namespace Key

variable {k : Kind}

instance : Ord (Key k) := ⟨compareOn Key.index⟩

instance : Std.TransOrd (Key k) :=
  inferInstanceAs (Std.TransCmp (compareOn (Key.index : Key k → Nat)))

theorem compare_eq (a b : Key k) : compare a b = compare a.index b.index := rfl

instance : Std.LawfulEqOrd (Key k) where
  eq_of_compare {a b} h := by
    rw [compare_eq] at h
    exact Key.ext (Std.LawfulEqOrd.eq_of_compare h)

end Key

abbrev WireName := Key .wireName
abbrev TileId := Key .tile
abbrev SiteTypeId := Key .siteType
abbrev SiteId := Key .site
abbrev BelId := Key .bel
abbrev BelPinId := Key .belPin
abbrev SitePinId := Key .sitePin
abbrev CellId := Key .cell
abbrev PinId := Key .cellPin
abbrev NetId := Key .net

/-- Tables and sets, kept in the order of their keys. -/
abbrev Table (α : Type) [Ord α] (β : Type) := Std.ExtTreeMap α β
abbrev KeySet (α : Type) [Ord α] := Std.ExtTreeSet α

/-- A table holds what its list of entries says. -/
theorem Table.insertMany_toList (t : Table String β) :
    (∅ : Table String β).insertMany t.toList = t := by
  refine Std.ExtTreeMap.ext_getElem? fun k => ?_
  match h : t[k]? with
  | some v =>
    exact Std.ExtTreeMap.getElem?_insertMany_list_of_mem Std.ReflCmp.compare_self
      Std.ExtTreeMap.distinct_keys_toList (Std.ExtTreeMap.mem_toList_iff_getElem?_eq_some.2 h)
  | none =>
    rw [Std.ExtTreeMap.getElem?_insertMany_list_of_contains_eq_false]
    · rfl
    · rw [List.contains_eq_mem, decide_eq_false_iff_not]
      intro hk
      obtain ⟨⟨_, v⟩, hv, rfl⟩ := List.mem_map.1 hk
      simp [Std.ExtTreeMap.mem_toList_iff_getElem?_eq_some.1 hv] at h

end Fabric
