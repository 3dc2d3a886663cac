import Fabric.Key
/-!
# Wire names

A device names its wires over and over, so each distinct name is stored once and is
numbered by its first appearance.
-/

namespace Fabric

/-- Distinct names in order of first appearance, with the way back from name to number. -/
structure NameTable where
  names : Array String
  index : Table String WireName

namespace NameTable

def empty : NameTable := ⟨#[], ∅⟩

instance : Inhabited NameTable := ⟨empty⟩

def size (t : NameTable) : Nat := t.names.size

def isEmpty (t : NameTable) : Bool := t.names.isEmpty

def lookup? (t : NameTable) (s : String) : Option WireName := t.index[s]?

def name? (t : NameTable) (w : WireName) : Option String := t.names[w.index]?

/-- A known name keeps its number, a new one gets the next. -/
def intern (t : NameTable) (s : String) : WireName × NameTable :=
  match t.lookup? s with
  | some w => (w, t)
  | none => (⟨t.size⟩, ⟨t.names.push s, t.index.insert s ⟨t.size⟩⟩)

def insert (t : NameTable) (s : String) : NameTable := (t.intern s).2

def ofList (names : List String) : NameTable := names.foldl insert empty

/-- Numbers and names, by number. -/
def toList (t : NameTable) : List (WireName × String) :=
  t.names.toList.zipIdx.map fun (s, i) => (⟨i⟩, s)

theorem intern_of_lookup?_eq_some {t : NameTable} {s : String} {w : WireName}
    (h : t.lookup? s = some w) : t.intern s = (w, t) := by
  simp [intern, h]

theorem intern_of_lookup?_eq_none {t : NameTable} {s : String} (h : t.lookup? s = none) :
    t.intern s = (⟨t.size⟩, ⟨t.names.push s, t.index.insert s ⟨t.size⟩⟩) := by
  simp [intern, h]

end NameTable

end Fabric
