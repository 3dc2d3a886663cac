import Fabric.Proofs.Netlist.PortRewiring
import Fabric.Proofs.Record.Arrivals
import Fabric.Proofs.Record.Ports
import Fabric.Proofs.Record.Progress
/-!
# What a `PART_PIN` record does to a netlist

The record gives a port a partition pin in place of its own pin. It notes the wire of the partition
pin, keeps it for the net that the pin is on, and leaves all other pins where they are.
-/

namespace Fabric.Record

variable {d : Device} {im im' : Importer}

theorem partitions_of_process {args : List String}
    (hrun : (process d .partitionPin args).run.run im = .ok (.ok (), im')) :
    Partitions d im args im' :=
  (ensures_partitionPin (admits_any d) (fun _ _ _ _ => trivial) trivial args).result hrun

/-- A `PART_PIN` record takes the only pin `p` of its port off its net and puts a new partition pin
`q` on a net `m`, which the wire is kept for. All pins but `p` stay where they are. An `OUT` pin
drives the net that `p` was on, and this net has sinks. An `IN` pin comes onto a signal net that
neither a port nor a partition pin drives: the one that `p` was on, or one that a new LUT leads to
from there, where a pin on no net counts as grounded. -/
theorem replaces_of_partitionPin {args : List String}
    (hrun : (process d .partitionPin args).run.run im = .ok (.ok (), im')) :
    ∃ portName node dir port cell p q wire m net,
      args = [portName, node, dir] ∧ im.netlist.cellNamed? portName = some port ∧
      im.netlist.cell? port = some cell ∧ cell.pins = [p] ∧ StandsFor d node wire ∧
      im'.netlist.portNodes = im.netlist.portNodes.insert portName node ∧
      im'.netlist.reservedNodes[wire]? = some m ∧ im'.netlist.net? m = some net ∧
      (dir = "OUT" ∧
          im.netlist.Replaces port p q .output wire m True
            (fun input _ => im'.netlist.netOf? input = some m) im'.netlist ∧
          net.source = some q ∧ net.sinks ≠ [] ∧ (∀ n, im.netlist.netOf? p = some n → m = n) ∨
        dir = "IN" ∧
          im.netlist.Replaces port p q .input wire m
            (m = (im.netlist.netOf? p).getD Netlist.gnd)
            (im'.netlist.Leads ((im.netlist.netOf? p).getD Netlist.gnd) m) im'.netlist ∧
          im'.netlist.IsInner net) := by
  have hpartitions := partitions_of_process hrun
  clear hrun
  cases hpartitions with
  | @intro portName node port cell p q wire isSource nl pin hnamed hcell hpins hwire hadd hq =>
    obtain ⟨hnodes, m, net, hnet, hkind⟩ := Netlist.replaces_of_addPartitionPin hadd
    have hbase : im.netlist.Moves (im.notePort portName node).netlist := .of_eq rfl rfl rfl
    have hlast : ∀ reservedNodes, nl.Moves { nl with reservedNodes } := fun _ => .of_eq rfl rfl rfl
    have hmap : ∀ {n}, pin.net = some n →
        (pin.net.elim nl.reservedNodes (nl.reservedNodes.insert wire))[wire]? = some n := by
      intro n hn
      simp [hn]
    refine ⟨portName, node, _, port, cell, p, q, wire, m, net, rfl, hnamed, hcell, hpins, hwire,
      hnodes, hmap ?_, hnet, ?_⟩
    · rw [← Netlist.netOf?_eq hq]
      cases isSource with
      | true => exact hkind.1.on
      | false => exact hkind.1.on
    · cases isSource with
      | true =>
        obtain ⟨hreplaces, hdrives⟩ := hkind
        exact .inl ⟨rfl, hreplaces.congr hbase (fun _ => rfl) (hlast _) (fun _ => rfl)
          fun _ _ hfeeds => hfeeds, hdrives⟩
      | false =>
        obtain ⟨hreplaces, hinner⟩ := hkind
        refine .inr ⟨rfl, hreplaces.congr hbase (fun _ => rfl) (hlast _) (fun _ => rfl) ?_,
          (hlast _).isInner hinner rfl rfl⟩
        exact fun _ _ hleads => ⟨hleads.input_on, hleads.output_on, hleads.feeds, hleads.drives⟩

def throughPorts : NetlistDescription where
  name := "top"
  mode := .outOfContext
  cells := [
    ⟨"din", "IBUF", none, true, ∅, [⟨"O", .output, []⟩]⟩,
    ⟨"dout", "OBUF", none, true, ∅, [⟨"I", .input, []⟩]⟩]
  nets := [⟨"n", .wire, ["din/O", "dout/I"]⟩]
  staticNetOf := ∅
  staticRoutes := ∅

/-- A net that comes in at a partition pin goes on through a LUT to the one where it leaves. -/
theorem replaces_of_partitionPin_throughPorts : ∃ d im im' q, ∃ (wire : Wire), ∃ m net,
    Device.ofDescription inlet = .ok d ∧
    (process d .partitionPin ["dout", "INT/P", "IN"]).run.run im = .ok (.ok (), im') ∧
    im.netlist.netOf? ⟨1⟩ = some ⟨2⟩ ∧ im'.netlist.netOf? ⟨1⟩ = none ∧
    im'.netlist.netOf? ⟨2⟩ = im.netlist.netOf? ⟨2⟩ ∧ im.netlist.pin? q = none ∧
    im'.netlist.netOf? q = some m ∧ im'.netlist.reservedNodes[wire]? = some m ∧
    im'.netlist.net? m = some net ∧ im'.netlist.IsInner net ∧
    (im'.netlist.cell? ⟨2⟩).map Cell.name = some "n_InsertedInst_dout" := by
  have hrun : (do
      let d ← (Device.ofDescription inlet).toOption
      let nl ← (Netlist.ofDescription d throughPorts).toOption
      let (_, im) ← ((Importer.ofNetlist nl).importText d "PART_PIN din INT/N OUT").toOption
      let (r, im') ← ((process d .partitionPin ["dout", "INT/P", "IN"]).run.run im).toOption
      return (r.toOption, decide (im.netlist.cellNamed? "dout" = some ⟨1⟩ ∧
        (im.netlist.cell? ⟨1⟩).map Cell.pins = some [⟨1⟩] ∧ im.netlist.netOf? ⟨1⟩ = some ⟨2⟩ ∧
        (im.netlist.pin? ⟨2⟩).isSome ∧
        (im'.netlist.cell? ⟨2⟩).map Cell.name = some "n_InsertedInst_dout"))) =
      some (some (), true) := by
    decide +kernel
  simp only [Option.bind_eq_bind, Option.bind_eq_some_iff, Checked.toOption_eq_some,
    Option.pure_def, Option.some.injEq, Prod.mk.injEq, decide_eq_true_eq] at hrun
  obtain ⟨d, hd, nl, -, ⟨r₀, im⟩, -, ⟨r, im'⟩, hrun, rfl, hdout, hpin, hon, hlive, hlut⟩ := hrun
  obtain ⟨portName, node, dir, port, cell, p, q, wire, m, net, hargs, hnamed, hcell, hpins, -, -,
    hreserved, hnet, hkind⟩ := replaces_of_partitionPin hrun
  cases hargs
  cases hdout.symm.trans hnamed
  rw [hcell, Option.map_some, hpins] at hpin
  cases hpin
  rcases hkind with ⟨hout, -⟩ | ⟨-, hreplaces, hinner⟩
  · simp at hout
  · exact ⟨d, im, im', q, wire, m, net, hd, hrun, hon, hreplaces.off,
      hreplaces.others ⟨2⟩ hlive (by decide), hreplaces.new, hreplaces.on, hreserved, hnet, hinner,
      hlut⟩

end Fabric.Record
