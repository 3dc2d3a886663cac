import Fabric.Json.Basic
import Fabric.FileFormat
/-!
# Reading records from JSON

A record type lists its fields in order. A value of it is an object with those keys, each at
most once and others passed over. In JSON it may also be a list of the fields from the first
on. Whether a field may be missing is for the record type to say.
-/

namespace Fabric.Json

/-- Reads a value written in one of the formats. YAML takes a plain number or word for a text,
and knows choices by their names only. -/
abbrev Decoder (α : Type) := FileFormat → Json → Option α

def asText : Decoder String
  | _, text s => some s
  | .yaml, number s => some s
  | .yaml, bool b => some (if b then "true" else "false")
  | .yaml, null => some "null"
  | _, _ => none

def asBool : Decoder Bool
  | _, bool b => some b
  | _, _ => none

def asList (d : Decoder α) : Decoder (List α)
  | n, list items => items.mapM (d n)
  | _, _ => none

/-- `null` stands for the absent value. -/
def asOption (d : Decoder α) : Decoder (Option α)
  | _, null => some none
  | n, v => (d n v).map some

/-- One of several named choices. -/
def asChoice (choices : List (String × α)) : Decoder α
  | _, text s => choices.lookup s
  | .json, record [(s, null)] => choices.lookup s
  | _, _ => none

/-- A table of texts. The last value of a key counts. -/
def asTable : Decoder (Table String String)
  | n, record fields =>
    fields.foldlM (fun t field => (asText n field.2).map (t.insert field.1)) ∅
  | _, _ => none

/-- The fields of a record with the given names, in order. The result tells the value of each
that is there. -/
def fields? (names : List String) : FileFormat → Json → Option (String → Option Json)
  | _, record fields =>
    if (fields.filter fun f => names.contains f.1).map Prod.fst |>.Nodup then
      some fun name => fields.lookup name
    else none
  | .json, list items =>
    if items.length ≤ names.length then
      some fun name => (names.idxOf? name).bind fun i => items[i]?
    else none
  | _, _ => none

/-- A field that has to be there. -/
def required (d : Decoder α) (n : FileFormat) (v : Option Json) : Option α := v.bind (d n)

/-- A field that may be missing. -/
def withDefault (d : Decoder α) (default : α) (n : FileFormat) : Option Json → Option α
  | none => some default
  | some v => d n v

/-! ## What was written is read back -/

theorem asText_text (n : FileFormat) (s : String) : asText n (text s) = some s := by
  cases n <;> rfl

theorem asBool_bool (n : FileFormat) (b : Bool) : asBool n (bool b) = some b := by
  cases n <;> rfl

theorem asOption_ofOption (n : FileFormat) (a : Option String) :
    asOption asText n (ofOption text a) = some a := by
  cases a with
  | none => rfl
  | some s => rw [ofOption, asOption, asText_text, Option.map_some]; exact nofun

theorem asList_map {d : Decoder α} {f : α → Json} {n : FileFormat}
    (h : ∀ a, d n (f a) = some a) (as : List α) : asList d n (list (as.map f)) = some as := by
  induction as with
  | nil => rfl
  | cons a as ih => simp_all [asList]

theorem asList_texts (n : FileFormat) (ss : List String) : asList asText n (texts ss) = some ss :=
  asList_map (asText_text n) ss

theorem asTable_ofTable (n : FileFormat) (t : Table String String) :
    asTable n (ofTable t) = some t := by
  have insertAll (l : List (String × String)) (s : Table String String) :
      (l.map fun entry => (entry.1, text entry.2)).foldlM
        (fun s field => (asText n field.2).map (s.insert field.1)) s = some (s.insertMany l) := by
    induction l generalizing s with
    | nil => simp
    | cons entry l ih =>
      rw [List.map_cons, List.foldlM_cons, asText_text, Std.ExtTreeMap.insertMany_cons, ← ih]
      rfl
  rw [ofTable, asTable, insertAll, Table.insertMany_toList]

end Fabric.Json
