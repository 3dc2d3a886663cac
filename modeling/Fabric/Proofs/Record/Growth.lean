import Fabric.Proofs.Record.Lines
/-!
# Records add to a netlist

Only partition pins and ties take anything away. All other records, refused ones too, leave the
netlist with what it had.
-/

namespace Fabric.Record

/-- The kinds of the records on lines. A line of start wires belongs to the constant before it. -/
def recordKinds : List (Nat × List String) → List RecordKind
  | [] => []
  | (_, []) :: rest => recordKinds rest
  | (_, keyword :: _) :: rest =>
    match RecordKind.staticNet? keyword, rest with
    | some _, [] => []
    | some _, _ :: rest => recordKinds rest
    | none, rest => (RecordKind.ofKeyword? keyword).toList ++ recordKinds rest

def replacesPins : RecordKind → Bool
  | .partitionPin | .staticPorts _ => true
  | _ => false

variable {d : Device} {im im' : Importer}

theorem admits_extends (d : Device) (nl : Netlist) :
    AdmitsLines d True (fun im => nl.Extends im.netlist)
      fun _ lines => ∀ k ∈ recordKinds lines, replacesPins k = false where
  adds _ _ him hadds := him.trans hadds.grows
  closed _ _ := .inl trivial
  blank _ _ _ hkinds := hkinds
  static im im' line startLine keyword args words rest isVcc hstatic _ hkinds _ := by
    unfold recordKinds at hkinds
    simpa only [hstatic] using hkinds
  record im line keyword args rest kind hstatic hkind him hkinds := by
    unfold recordKinds at hkinds
    simp only [hstatic, hkind] at hkinds
    obtain ⟨hreplaces, hrest⟩ := List.forall_mem_cons.1 hkinds
    have hgrows : Admits d (fun _ => True) True True fun im => nl.Extends im.netlist :=
      ⟨fun _ _ him hadds => him.trans hadds.grows, fun _ _ => .inl trivial⟩
    refine (ensures_process hgrows him kind args (fun _ _ => trivial) (fun _ => trivial)
      ?_ ?_).post
      fun _ _ _ _ => hrest
    · rintro rfl
      cases hreplaces
    · rintro isVcc rfl
      cases hreplaces

/-- Records that replace no pins of ports make and remove no net and take no pin off its net. They
leave the BEL pins mapped as they are and only add to pin lists, routes and routed sinks. -/
theorem netlist_extends_of_records {lines : List (Nat × List String)}
    (hkinds : ∀ k ∈ recordKinds lines, replacesPins k = false) {r : Except ImportError Unit}
    (hrun : (processLines d lines).run.run im = .ok (r, im')) : im.netlist.Extends im'.netlist :=
  (ensures_processLines (admits_extends d im.netlist) (.refl im.netlist) hkinds).state hrun

def loopback : NetlistDescription where
  name := "top"
  mode := .regular
  cells := [⟨"ff", "FDRE", some "S/FF", false, ∅,
    [⟨"Q", .output, ["Q"]⟩, ⟨"D", .input, ["D"]⟩]⟩]
  nets := [⟨"q", .wire, ["ff/Q", "ff/D"]⟩]
  staticNetOf := ∅
  staticRoutes := ∅

def loopbackLines : List (Nat × List String) := [(1, ["INTRASITE", "q"]), (2, ["ROUTE", "q"])]

theorem netlist_extends_of_loopbackLines : ∃ d nl r im',
    Device.ofDescription SiteRoute.feedback = .ok d ∧ Netlist.ofDescription d loopback = .ok nl ∧
    (∀ k ∈ recordKinds loopbackLines, replacesPins k = false) ∧
    (processLines d loopbackLines).run.run (.ofNetlist nl) = .ok (r, im') ∧
    nl.Extends im'.netlist ∧ r.toOption = none ∧
    (im'.netlist.net? ⟨2⟩).map (fun net => net.routedSinks.toList) = some [⟨1⟩] := by
  have hkinds : ∀ k ∈ recordKinds loopbackLines, replacesPins k = false := by decide +kernel
  have hrun : (do
      let d ← (Device.ofDescription SiteRoute.feedback).toOption
      let nl ← (Netlist.ofDescription d loopback).toOption
      let (r, im') ← ((processLines d loopbackLines).run.run (.ofNetlist nl)).toOption
      return (r.toOption, (im'.netlist.net? ⟨2⟩).map fun net => net.routedSinks.toList)) =
        some (none, some [⟨1⟩]) := by
    decide +kernel
  simp only [Option.bind_eq_bind, Option.bind_eq_some_iff, Checked.toOption_eq_some,
    Option.pure_def, Option.some.injEq, Prod.mk.injEq] at hrun
  obtain ⟨d, hd, nl, hnl, ⟨r, im'⟩, hrun, hrefused, hrouted⟩ := hrun
  exact ⟨d, nl, r, im', hd, hnl, hkinds, hrun, netlist_extends_of_records hkinds hrun, hrefused,
    hrouted⟩

end Fabric.Record
