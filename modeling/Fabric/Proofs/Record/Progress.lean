import Fabric.Proofs.Netlist.Loading
import Fabric.Proofs.Record.Lines
/-!
# Imports come to an end

A tie of a port to a constant removes the net that the port is on. As long as this net is not
the other constant and no route waits for it, an import never names anything that is not there.
-/

namespace Fabric

namespace Importer

/-- Ties of ports to a constant that remove neither the other constant nor a net that a route
waits for. -/
def TiesSafely (im : Importer) (isVcc : Bool) (names : List String) : Prop :=
  ∀ name ∈ names, ∀ n, im.netlist.portNet? name = some n →
    n = Netlist.staticNet isVcc ∨ n ≠ Netlist.staticNet (!isVcc) ∧
      ∀ (p : SitePinId) (r : SiteRoute), im.siteRoutes[p]? = some r → r.net ≠ n

instance (im : Importer) (isVcc : Bool) (names : List String) :
    Decidable (im.TiesSafely isVcc names) :=
  decidable_of_iff
    (∀ name ∈ names, ∀ n ∈ im.netlist.portNet? name,
      n = Netlist.staticNet isVcc ∨ n ≠ Netlist.staticNet (!isVcc) ∧
        ∀ route ∈ im.siteRoutes.toList, route.2.net ≠ n)
    (by simp only [TiesSafely, Prod.forall, Std.ExtTreeMap.mem_toList_iff_getElem?_eq_some,
      Option.mem_def])

theorem TiesSafely.other {im : Importer} {isVcc : Bool} {names : List String}
    (h : im.TiesSafely isVcc names) {name : String} (hname : name ∈ names) :
    im.netlist.portNet? name ≠ some (Netlist.staticNet !isVcc) := by
  intro hother
  rcases h name hname _ hother with hsame | ⟨hne, -⟩
  · cases isVcc <;> cases hsame
  · exact hne rfl

theorem closed_ofNetlist {nl : Netlist} (h : nl.Closed) : (ofNetlist nl).Closed where
  netlist := h
  waiting p r hr := by
    rw [siteRoutes_ofNetlist] at hr
    cases hr

end Importer

namespace Record

theorem admitsTies_safely (d : Device) (isVcc : Bool) (names : List String) :
    AdmitsTies False (fun im => im.Closed ∧ im.TiesSafely isVcc names) isVcc names where
  nodes im port node him :=
    ⟨(Adds.portNode (d := d) (S := fun _ => True) (C := True) port node).closed him.1, him.2⟩
  consistent im him := him.1.netlist.toConsistent
  closed im him := .inr him.1.netlist
  other im him name hname := .inr (him.2.other hname)
  ties im im' him name hname port hnamed hties := by
    obtain ⟨hclosed, hsafe⟩ := him
    have hother : ∀ cell p, im.netlist.cell? port = some cell → cell.pins = [p] →
        False ∨ im.netlist.netOf? p ≠ some (Netlist.staticNet !isVcc) := by
      intro cell p hcell hpins
      rw [← Netlist.portNet?_eq hnamed hcell hpins]
      exact .inr (hsafe.other hname)
    obtain ⟨hroutes, cell, p, hcell, hpins, -, hmerges⟩ :=
      hties.merges hclosed.netlist.toConsistent (.inr hclosed.netlist) hother
    refine ⟨⟨hmerges.closed.resolve_left id, fun q r hr => ?_⟩, fun name' hname' n hn => ?_⟩
    · rw [hroutes] at hr
      refine (hmerges.net_stays r.net (hclosed.waiting q r hr)).resolve_left ?_
      rintro ⟨hne, hon⟩
      rw [← Netlist.portNet?_eq hnamed hcell hpins] at hon
      rcases hsafe name hname _ hon with hsame | ⟨-, hwaiting⟩
      · exact hne hsame
      · exact hwaiting q r hr rfl
    · rw [hroutes]
      exact (hmerges.portNet? hn).elim .inl (hsafe name' hname' n)

/-- Wherever ports are tied to a constant, this is safe in the state that the lines before
lead to. -/
def SafeLines (d : Device) (im : Importer) (lines : List (Nat × List String)) : Prop :=
  ∀ i line isVcc names im',
    lines[i]? = some (line, (RecordKind.staticPorts isVcc).keyword :: names) →
    (processLines d (lines.take i)).run.run im = .ok (.ok (), im') → im'.TiesSafely isVcc names

theorem SafeLines.of_leads {d : Device} {im im' : Importer} {lines rest : List (Nat × List String)}
    (h : SafeLines d im (lines ++ rest)) (hleads : Leads d im lines im') :
    SafeLines d im' rest := by
  intro i line isVcc names im'' hline hpre
  refine h (lines.length + i) line isVcc names im'' ?_ ?_
  · rw [List.getElem?_append_right (Nat.le_add_right _ _), Nat.add_sub_cancel_left]
    exact hline
  · rw [List.take_length_add_append, hleads]
    exact hpre

theorem admitsLines_safely (d : Device) : AdmitsLines d False Importer.Closed (SafeLines d) where
  adds _ _ him hadds := hadds.closed him
  closed _ him := .inr him
  blank im line rest hsafe := hsafe.of_leads (.blank d im line)
  static im im' line startLine keyword args words rest isVcc hstatic hstart hsafe hrun :=
    hsafe.of_leads (.static hstatic hstart hrun)
  record im line keyword args rest kind hstatic hkind him hsafe := by
    have hname := keyword_of_ofKeyword? hkind
    have hkeeps : Admits d (fun _ => True) True False Importer.Closed :=
      ⟨fun _ _ him hadds => hadds.closed him, fun _ him => .inr him⟩
    refine (ensures_process hkeeps him kind args (fun _ _ => trivial) (fun _ => trivial)
      ?_ ?_).with_run.post
      fun _ im' _ hrun => hsafe.of_leads (.record hstatic hkind line hrun.2)
    · rintro - im im' him hbounds
      obtain ⟨hroutes, p, -, hreworks⟩ := hbounds.reworks (.inr him.netlist)
      refine ⟨hreworks.closed.resolve_left id, fun q r hr => hreworks.net_stays r.net ?_⟩
      rw [hroutes] at hr
      exact him.waiting q r hr
    · rintro isVcc rfl
      have hties : im.TiesSafely isVcc args :=
        hsafe 0 line isVcc args im (by rw [hname]; rfl) rfl
      exact (ensures_staticPorts (admitsTies_safely d isVcc args) ⟨him, hties⟩).mono
        (fun _ him => him.1) fun _ _ _ _ => trivial

/-- An import into a loaded netlist comes to its end, be it that a record is refused. -/
theorem exists_importText {desc : NetlistDescription} {nl : Netlist}
    (hload : Netlist.ofDescription d desc = .ok nl) {text : String}
    (hsafe : SafeLines d (.ofNetlist nl) (numberedLines text)) :
    ∃ r im', (Importer.ofNetlist nl).importText d text = .ok (r, im') :=
  (ensures_importText (admitsLines_safely d)
    (Importer.closed_ofNetlist (Netlist.closed_of_ofDescription hload)) hsafe).exists_run

def inlet : DeviceDescription where
  name := "inlet"
  family := .other
  tiles := [
    ⟨"INT", "SWITCH", [⟨"N", [⟨"P", none, .pip⟩]⟩, ⟨"P", [⟨"I", some "CLB", .wire⟩]⟩]⟩,
    ⟨"CLB", "LOGIC", []⟩]
  siteTypes := [⟨"SLICE", [⟨"A", [⟨"L", none, .wire⟩]⟩], [⟨"LUT", [⟨"A1", .input, "L"⟩]⟩],
    [⟨"A", .input, "A", "I"⟩]⟩]
  sites := [⟨"S", "SLICE", "CLB"⟩]

def twoPorts : NetlistDescription where
  name := "top"
  mode := .outOfContext
  cells := [
    ⟨"din", "IBUF", none, true, ∅, [⟨"O", .output, []⟩]⟩,
    ⟨"tie", "IBUF", none, true, ∅, [⟨"O", .output, []⟩]⟩,
    ⟨"lut", "LUT1", some "S/LUT", false, ∅, [⟨"I0", .input, ["A1"]⟩]⟩]
  nets := [⟨"a", .wire, ["din/O", "lut/I0"]⟩, ⟨"b", .wire, ["tie/O"]⟩]
  staticNetOf := ∅
  staticRoutes := ∅

def tieText (port : String) : String :=
  "INTERSITE a S/A\nVCC_PART_PINS " ++ port ++ "\nVCC INT/SWITCH.N->P\nSTART_WIRES INT/N"

theorem exists_importText_tie : ∃ d nl, Device.ofDescription inlet = .ok d ∧
    Netlist.ofDescription d twoPorts = .ok nl ∧
    SafeLines d (.ofNetlist nl) (numberedLines (tieText "tie")) ∧
    ∃ r im', (Importer.ofNetlist nl).importText d (tieText "tie") = .ok (r, im') := by
  have hlines : numberedLines (tieText "tie") = [(1, ["INTERSITE", "a", "S/A"]),
      (2, ["VCC_PART_PINS", "tie"]), (3, ["VCC", "INT/SWITCH.N->P"]),
      (4, ["START_WIRES", "INT/N"])] := by
    decide +kernel
  have hfirst : (do
      let d ← (Device.ofDescription inlet).toOption
      let nl ← (Netlist.ofDescription d twoPorts).toOption
      let (_, im') ← ((processLines d [(1, ["INTERSITE", "a", "S/A"])]).run.run
        (.ofNetlist nl)).toOption
      return decide (im'.TiesSafely true ["tie"])) = some true := by
    decide +kernel
  simp only [Option.bind_eq_bind, Option.bind_eq_some_iff, Checked.toOption_eq_some,
    Option.pure_def, Option.some.injEq, decide_eq_true_eq] at hfirst
  obtain ⟨d, hd, nl, hnl, ⟨r, im'⟩, hrun, hties⟩ := hfirst
  have hsafe : SafeLines d (.ofNetlist nl) (numberedLines (tieText "tie")) := by
    rw [hlines]
    intro i line isVcc names im'' hline hpre
    match i with
    | 0 => cases isVcc <;> simp [RecordKind.keyword] at hline
    | 1 =>
      cases isVcc with
      | false => simp [RecordKind.keyword] at hline
      | true =>
        obtain ⟨-, rfl⟩ : line = 2 ∧ names = ["tie"] := by
          simpa [RecordKind.keyword, eq_comm] using hline
        rw [List.take_succ_cons, List.take_zero, hrun] at hpre
        cases hpre
        exact hties
    | 2 => cases isVcc <;> simp [RecordKind.keyword] at hline
    | 3 => cases isVcc <;> simp [RecordKind.keyword] at hline
    | i + 4 => cases hline
  exact ⟨d, nl, hd, hnl, hsafe, exists_importText hnl hsafe⟩

/-- When the net that waits is the one that the tie removes, there is nothing to mark at the site
pin. -/
theorem importText_faults_din : ∃ d nl, Device.ofDescription inlet = .ok d ∧
    Netlist.ofDescription d twoPorts = .ok nl ∧ nl.portNet? "din" = some ⟨2⟩ ∧
    (Importer.ofNetlist nl).importText d (tieText "din") = .error (.noNet ⟨2⟩) := by
  have hrun : (do
      let d ← (Device.ofDescription inlet).toOption
      let nl ← (Netlist.ofDescription d twoPorts).toOption
      return (nl.portNet? "din", match (Importer.ofNetlist nl).importText d (tieText "din") with
        | .error fault => some fault
        | .ok _ => none)) = some (some ⟨2⟩, some (.noNet ⟨2⟩)) := by
    decide +kernel
  simp only [Option.bind_eq_bind, Option.bind_eq_some_iff, Checked.toOption_eq_some,
    Option.pure_def, Option.some.injEq, Prod.mk.injEq] at hrun
  obtain ⟨d, hd, nl, hnl, hport, hfault⟩ := hrun
  refine ⟨d, nl, hd, hnl, hport, ?_⟩
  split at hfault
  next fault hrun =>
    rw [hrun, Option.some.inj hfault]
  next => cases hfault

end Record

end Fabric
