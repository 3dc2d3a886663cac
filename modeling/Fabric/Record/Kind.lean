/-!
# Routing records

A routing file has one record a line. The first word tells the kind of the record, the words
behind it are its arguments. The PIPs of a constant net stand on a line that begins with the
name of the constant, and a line of start wires goes with it.
-/

namespace Fabric

inductive RecordKind
  /-- Site PIPs in use: a site and `pip:input` choices. -/
  | sitePips
  /-- Site pins of a net: the net and `site/pin` names. -/
  | intersite
  /-- A net that stays in its site. -/
  | intrasite
  /-- PIPs of a net: the net and PIP tokens. -/
  | route
  /-- LUTs that pass a signal on, as `site/bel/in/out`. -/
  | routethroughs
  /-- Sources of a constant, as `site/bel/pin`. -/
  | staticSources (isVcc : Bool)
  /-- The partition pin of a port: the port, `tile/wire` and a direction. -/
  | partitionPin
  /-- Ports that are tied to a constant. -/
  | staticPorts (isVcc : Bool)
deriving DecidableEq, Repr

namespace RecordKind

/-- The first word of the records of a kind. -/
def keyword : RecordKind → String
  | sitePips => "SITE_PIPS"
  | intersite => "INTERSITE"
  | intrasite => "INTRASITE"
  | route => "ROUTE"
  | routethroughs => "LUT_RTS"
  | staticSources true => "VCC_SOURCES"
  | staticSources false => "GND_SOURCES"
  | partitionPin => "PART_PIN"
  | staticPorts true => "VCC_PART_PINS"
  | staticPorts false => "GND_PART_PINS"

def all : List RecordKind :=
  [sitePips, intersite, intrasite, route, routethroughs, staticSources true, staticSources false,
    partitionPin, staticPorts true, staticPorts false]

/-- The kind that a word begins records of. -/
def ofKeyword? (word : String) : Option RecordKind := all.find? fun k => k.keyword = word

/-- The constant whose PIPs a word begins, told by whether it is VCC. -/
def staticNet? (word : String) : Option Bool :=
  if word = "VCC" then some true else if word = "GND" then some false else none

/-- The first word of a line of start wires. -/
def startWires : String := "START_WIRES"

theorem mem_all (k : RecordKind) : k ∈ all := by
  cases k with
  | staticSources isVcc => cases isVcc <;> simp [all]
  | staticPorts isVcc => cases isVcc <;> simp [all]
  | _ => simp [all]

theorem keyword_injective {k l : RecordKind} (h : k.keyword = l.keyword) : k = l := by
  have all_pairs : ∀ k ∈ all, ∀ l ∈ all, k.keyword = l.keyword → k = l := by decide
  exact all_pairs k (mem_all k) l (mem_all l) h

/-- No record begins like a line of start wires. -/
theorem keyword_ne_startWires (k : RecordKind) : k.keyword ≠ startWires := by
  have all_kinds : ∀ k ∈ all, k.keyword ≠ startWires := by decide
  exact all_kinds k (mem_all k)

/-- No record that stands on one line begins with the name of a constant. -/
theorem staticNet?_keyword (k : RecordKind) : staticNet? k.keyword = none := by
  have all_kinds : ∀ k ∈ all, staticNet? k.keyword = none := by decide
  exact all_kinds k (mem_all k)

end RecordKind

end Fabric
