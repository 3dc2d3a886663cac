import Fabric.Proofs.Netlist.Loading
import Fabric.Proofs.Record.Agreement
import Fabric.Proofs.Record.Growth
/-!
# What the status of a net tells

Three kinds of records set the status of a net right, each that of one net, and the end of
importing does so for the constants. Whatever happens later to the pins or the routed sinks of a
net does not show in its status.
-/

namespace Fabric

open Relation (ReflTransGen)

/-! ## Changes that set no status -/

abbrev Netlist.KeepsStatus (S : NetId → Prop) : Netlist → Netlist → Prop :=
  Netlist.Evolves fun n net net' => S n ∨ net'.status = net.status

namespace Netlist.KeepsStatus

variable {S : NetId → Prop} {nl nl' nl'' : Netlist}

theorem refl (nl : Netlist) : KeepsStatus S nl nl := Evolves.refl (fun _ _ => .inr rfl) nl

theorem trans_net {n : NetId} {net net' net'' : Net} (h : S n ∨ net'.status = net.status)
    (h' : S n ∨ net''.status = net'.status) : S n ∨ net''.status = net.status := by
  rcases h with hS | hkeeps
  · exact .inl hS
  · exact h'.imp_right fun hkeeps' => hkeeps'.trans hkeeps

theorem trans (h : KeepsStatus S nl nl') (h' : KeepsStatus S nl' nl'') : KeepsStatus S nl nl'' :=
  Evolves.trans (fun _ _ _ _ => trans_net) h h'

theorem of_repins (h : nl.Repins nl') : KeepsStatus S nl nl' :=
  h.mono fun _ _ _ hrepins => by
    obtain ⟨_, _, _, rfl⟩ := hrepins
    exact .inr rfl

theorem modifyNet (nl : Netlist) (n : NetId) {f : Net → Net}
    (hf : S n ∨ ∀ net, (f net).status = net.status) : KeepsStatus S nl (nl.modifyNet n f) :=
  Evolves.modifyNet (fun _ _ => .inr rfl) nl fun net => hf.imp_right fun hf => hf net

end Netlist.KeepsStatus

theorem Net.Registers.status {net net' : Net} (h : net.Registers net') :
    net'.status = net.status := by
  obtain ⟨_, _, _, _, _, -, rfl⟩ := h
  rfl

namespace SiteRoute

variable {d : Device} {r : SiteRoute} {S : NetId → Prop} {nl nl' : Netlist}

theorem keepsStatus_of_enters (h : ReflTransGen (Entering d r) nl nl') :
    Netlist.KeepsStatus S nl nl' :=
  evolves_of_enters (fun _ _ => .inr rfl) (fun _ _ _ _ => Netlist.KeepsStatus.trans_net)
    (fun _ hnote _ net => .inr (hnote.registers net _).status) (fun _ _ _ _ => .inr rfl) h

theorem keepsStatus_of_markRouted (hmark : r.markRouted nl = .ok nl') :
    Netlist.KeepsStatus S nl nl' := by
  obtain ⟨-, rfl⟩ := markRouted_eq_ok.1 hmark
  refine .modifyNet nl _ (.inr fun net => ?_)
  obtain ⟨routedSinks, heq⟩ := exists_foldl_addRoutedSink (r.sinkPins nl) net
  rw [heq]

end SiteRoute

namespace Record

variable {d : Device} {S : NetId → Prop} {C : Prop} {im im' : Importer}

theorem Notes.keepsStatus {settled : Prop} {f : Net → Net} (h : Notes settled f) :
    settled ∨ ∀ net, (f net).status = net.status := by
  cases h with
  | leave p => exact .inr fun net => (Net.Registers.addSourceSitePin net p).status
  | stay p => exact .inr fun _ => rfl
  | lead t => exact .inr fun _ => rfl
  | inside h => exact .inl h
  | status h => exact .inl h

theorem Adds.keepsStatus (h : Adds d S C im im') :
    Netlist.KeepsStatus S im.netlist im'.netlist := by
  cases h with
  | enter _ _ happly hmark =>
    exact (SiteRoute.keepsStatus_of_enters (SiteRoute.enters_of_apply happly)).trans
      (SiteRoute.keepsStatus_of_markRouted hmark)
  | await _ happly => exact SiteRoute.keepsStatus_of_enters (SiteRoute.enters_of_apply happly)
  | arrive _ hmark => exact SiteRoute.keepsStatus_of_markRouted hmark
  | note hf _ => exact .modifyNet _ _ hf.keepsStatus
  | choose => exact .of_repins (.of_eq rfl)
  | pass => exact .refl _
  | tieOff isVcc => cases isVcc <;> exact .refl _
  | portNode => exact .of_repins (.of_eq rfl)

/-! ## What a record does to the status of nets -/

def Since (S : NetId → Prop) (im im' : Importer) : Prop :=
  im'.netlist.Consistent ∧ Netlist.KeepsStatus S im.netlist im'.netlist

theorem admits_since (d : Device) (S : NetId → Prop) (im : Importer) :
    Admits d S True True (Since S im) where
  adds _ _ hsince hadds := ⟨hadds.consistent hsince.1, hsince.2.trans hadds.keepsStatus⟩
  closed _ _ := .inl trivial

theorem Since.bounds {im'' : Importer} (h : Since S im im') (hbounds : Bounds im' im'') :
    Since S im im'' :=
  ⟨hbounds.consistent h.1, h.2.trans (.of_repins hbounds.repins)⟩

theorem admitsTies_since (d : Device) (S : NetId → Prop) (im : Importer) (isVcc : Bool)
    (names : List String) : AdmitsTies True (Since S im) isVcc names where
  nodes _ port node hsince :=
    ⟨(Adds.portNode (d := d) (S := S) (C := True) port node).consistent hsince.1,
      hsince.2.trans (Adds.portNode (d := d) (S := S) (C := True) port node).keepsStatus⟩
  consistent _ hsince := hsince.1
  closed _ _ := .inl trivial
  other _ _ _ _ := .inl trivial
  ties _ _ hsince _ _ _ _ hties :=
    ⟨hties.consistent hsince.1, hsince.2.trans (.of_repins (hties.repins hsince.1))⟩

/-- A record that is taken in sets the status of the net that it settles right and leaves that of
the others as it is. -/
theorem status_of_process {kind : RecordKind} {args : List String} (hc : im.netlist.Consistent)
    (hrun : (process d kind args).run.run im = .ok (.ok (), im')) :
    Netlist.KeepsStatus (Settles d im kind args) im.netlist im'.netlist ∧
      ∀ n, Settles d im kind args n → im'.netlist.UpToDate n := by
  have hsince : Since (Settles d im kind args) im im := ⟨hc, .refl _⟩
  have hprocess := ensures_process (admits_since d _ im) hsince kind args (fun _ hn => hn)
    (fun _ => trivial) (fun _ _ _ h => h.bounds)
    fun isVcc _ => ensures_staticPorts (admitsTies_since d _ im isVcc args) hsince
  exact ⟨(hprocess.state hrun).2, hprocess.result hrun⟩

/-! ## Lines that settle a net -/

/-- The record on the line settles the net in the state that the lines before lead to. -/
def SettlesAt (d : Device) (im : Importer) (lines : List (Nat × List String)) (i : Nat)
    (n : NetId) : Prop :=
  ∃ line kind args im', lines[i]? = some (line, RecordKind.keyword kind :: args) ∧
    (processLines d (lines.take i)).run.run im = .ok (.ok (), im') ∧ Settles d im' kind args n

/-- The net is settled on the line and not behind it, and right after the line it is `net`. -/
structure SettledLast (d : Device) (im : Importer) (lines : List (Nat × List String)) (i : Nat)
    (n : NetId) (net : Net) : Prop where
  settles : SettlesAt d im lines i n
  last : ∀ j, i < j → ¬ SettlesAt d im lines j n
  after : ∃ im', (processLines d (lines.take (i + 1))).run.run im = .ok (.ok (), im') ∧
    im'.netlist.net? n = some net

/-- The status is that of the time when the net was settled last, or no line settles the net and
it is unrouted. -/
def HasStatus (d : Device) (im : Importer) (lines : List (Nat × List String)) (n : NetId)
    (status : RouteStatus) : Prop :=
  (∀ i, ¬ SettlesAt d im lines i n) ∧ status = .unrouted ∨
    ∃ i net, SettledLast d im lines i n net ∧ status = net.computedStatus

section lines

variable {im₀ : Importer} {lines new : List (Nat × List String)} {n : NetId}

theorem settlesAt_append_iff (hleads : Leads d im₀ lines im) {i : Nat} :
    SettlesAt d im₀ (lines ++ new) i n ↔
      SettlesAt d im₀ lines i n ∨ ∃ k, i = lines.length + k ∧ SettlesAt d im new k n := by
  rcases Nat.lt_or_ge i lines.length with hi | hi
  · have htake : (lines ++ new).take i = lines.take i := List.take_append_of_le_length hi.le
    unfold SettlesAt
    rw [List.getElem?_append_left hi, htake]
    refine ⟨.inl, ?_⟩
    rintro (hold | ⟨k, hk, -⟩)
    · exact hold
    · omega
  · obtain ⟨k, rfl⟩ := Nat.exists_eq_add_of_le hi
    have hat : (lines ++ new)[lines.length + k]? = new[k]? := by
      rw [List.getElem?_append_right hi, Nat.add_sub_cancel_left]
    unfold SettlesAt
    rw [List.take_length_add_append, hleads, hat]
    refine ⟨fun hnew => .inr ⟨k, rfl, hnew⟩, ?_⟩
    rintro (⟨_, _, _, _, hnone, -⟩ | ⟨k', hk, hnew⟩)
    · rw [List.getElem?_eq_none hi] at hnone
      cases hnone
    · obtain rfl : k = k' := Nat.add_left_cancel hk
      exact hnew

theorem SettlesAt.lt_length {i : Nat} (h : SettlesAt d im lines i n) : i < lines.length := by
  obtain ⟨_, _, _, _, hline, -⟩ := h
  exact (List.getElem?_eq_some_iff.1 hline).1

/-- A line of a record settles what the record does. -/
theorem settlesAt_record_iff {line : Nat} {kind : RecordKind} {args : List String} {k : Nat} :
    SettlesAt d im [(line, RecordKind.keyword kind :: args)] k n ↔
      k = 0 ∧ Settles d im kind args n := by
  constructor
  · intro h
    obtain rfl : k = 0 := Nat.lt_one_iff.1 h.lt_length
    obtain ⟨line', kind', args', im', hline, hrun, hsettles⟩ := h
    cases (Leads.nil d im).run.symm.trans hrun
    simp only [List.getElem?_cons_zero, Option.some.injEq, Prod.mk.injEq, List.cons.injEq] at hline
    obtain ⟨-, hkind, rfl⟩ := hline
    obtain rfl := RecordKind.keyword_injective hkind
    exact ⟨rfl, hsettles⟩
  · rintro ⟨rfl, hsettles⟩
    exact ⟨line, kind, args, im, rfl, (Leads.nil d im).run, hsettles⟩

theorem not_settlesAt_of_keywords
    (hwords : ∀ line words, (line, words) ∈ new → ∀ kind : RecordKind,
      words.head? ≠ some kind.keyword)
    (k : Nat) : ¬ SettlesAt d im new k n := by
  rintro ⟨line, kind, args, im', hline, -, -⟩
  exact hwords line _ (List.mem_of_getElem? hline) kind rfl

theorem HasStatus.append {status : RouteStatus} (h : HasStatus d im₀ lines n status)
    (hleads : Leads d im₀ lines im) (hnew : ∀ k, ¬ SettlesAt d im new k n) :
    HasStatus d im₀ (lines ++ new) n status := by
  have hiff : ∀ i, SettlesAt d im₀ (lines ++ new) i n ↔ SettlesAt d im₀ lines i n := by
    intro i
    rw [settlesAt_append_iff hleads]
    exact ⟨fun h => h.resolve_right fun ⟨k, _, hk⟩ => hnew k hk, .inl⟩
  refine h.imp (fun h => ⟨fun i => (hiff i).not.2 (h.1 i), h.2⟩) ?_
  rintro ⟨i, net, ⟨hsettles, hlast, hafter⟩, hstatus⟩
  refine ⟨i, net, ⟨(hiff i).2 hsettles, fun j hj => (hiff j).not.2 (hlast j hj), ?_⟩, hstatus⟩
  rw [List.take_append_of_le_length hsettles.lt_length]
  exact hafter

structure Told (d : Device) (im₀ : Importer) (lines : List (Nat × List String))
    (im : Importer) : Prop where
  consistent : im.netlist.Consistent
  leads : Leads d im₀ lines im
  known : ∀ i n, SettlesAt d im₀ lines i n → n.index < im.netlist.nets.size
  status : ∀ n net, im.netlist.net? n = some net → HasStatus d im₀ lines n net.status

namespace Told

theorem of_keepsStatus (h : Told d im₀ lines im) {S : NetId → Prop} {nl : Netlist}
    (hkeeps : Netlist.KeepsStatus S im.netlist nl) (hn : ¬ S n) {net : Net}
    (hnet : nl.net? n = some net) : HasStatus d im₀ lines n net.status := by
  rcases hkeeps.old_or_new n net hnet with ⟨old, hold, hS | hstatus⟩ | ⟨hbeyond, _, _, hS | hstatus⟩
  · exact (hn hS).elim
  · rw [hstatus]
    exact h.status n old hold
  · exact (hn hS).elim
  · rw [hstatus]
    refine .inl ⟨fun i hi => ?_, rfl⟩
    have hlt := h.known i n hi
    omega

theorem append (h : Told d im₀ lines im) (hleads : Leads d im new im')
    (hsince : Since (fun _ => False) im im') (hnew : ∀ n k, ¬ SettlesAt d im new k n) :
    Told d im₀ (lines ++ new) im' where
  consistent := hsince.1
  leads := h.leads.append hleads
  known i n hi := by
    rcases (settlesAt_append_iff h.leads).1 hi with hold | ⟨k, -, hk⟩
    · exact Nat.lt_of_lt_of_le (h.known i n hold) hsince.2.size_le
    · exact (hnew n k hk).elim
  status n net hn := (h.of_keepsStatus hsince.2 not_false hn).append h.leads (hnew n)

theorem record (h : Told d im₀ lines im) {line : Nat} {kind : RecordKind} {args : List String}
    (hleads : Leads d im [(line, kind.keyword :: args)] im')
    (hc : im'.netlist.Consistent)
    (hkeeps : Netlist.KeepsStatus (Settles d im kind args) im.netlist im'.netlist)
    (hdone : ∀ n, Settles d im kind args n → im'.netlist.UpToDate n) :
    Told d im₀ (lines ++ [(line, kind.keyword :: args)]) im' where
  consistent := hc
  leads := h.leads.append hleads
  known i n hi := by
    rcases (settlesAt_append_iff h.leads).1 hi with hold | ⟨k, -, hk⟩
    · exact Nat.lt_of_lt_of_le (h.known i n hold) hkeeps.size_le
    · obtain ⟨net, hnet, -⟩ := hdone n (settlesAt_record_iff.1 hk).2
      exact Netlist.lt_size_of_net? hnet
  status n net hn := by
    -- Either this line is the last one that settles the net, or that is a line before it.
    by_cases hsettles : Settles d im kind args n
    · obtain ⟨net', hn', hstatus⟩ := hdone n hsettles
      obtain rfl : net' = net := Option.some.inj (hn'.symm.trans hn)
      refine .inr ⟨lines.length, net', ⟨?_, fun j hj hsettled => ?_, im', ?_, hn⟩, hstatus⟩
      · exact (settlesAt_append_iff h.leads).2
          (.inr ⟨0, rfl, settlesAt_record_iff.2 ⟨rfl, hsettles⟩⟩)
      · have hlt := hsettled.lt_length
        rw [List.length_append, List.length_singleton] at hlt
        omega
      · rw [List.take_of_length_le (by simp)]
        exact (h.leads.append hleads).run
    · refine (h.of_keepsStatus hkeeps hsettles hn).append h.leads fun k hk => ?_
      exact hsettles (settlesAt_record_iff.1 hk).2

end Told

end lines

/-! ## Whole texts -/

theorem admitsLines_told (d : Device) (im₀ : Importer) (lines : List (Nat × List String)) :
    AdmitsLines d True (fun im => im.netlist.Consistent)
      fun im rest => ∃ done, lines = done ++ rest ∧ Told d im₀ done im where
  adds _ _ hc hadds := hadds.consistent hc
  closed _ _ := .inl trivial
  blank im line rest := by
    rintro ⟨done, hlines, htold⟩
    refine ⟨done ++ [(line, [])], by simp [hlines], ?_⟩
    refine htold.append (.blank d im line) ⟨htold.consistent, .refl _⟩ fun n => ?_
    exact not_settlesAt_of_keywords (by simp)
  static im im' line startLine keyword args words rest isVcc hstatic hstart hP hrun := by
    obtain ⟨done, hlines, htold⟩ := hP
    refine ⟨done ++ [(line, keyword :: args), (startLine, words)], by simp [hlines], ?_⟩
    have hsince := ensures_staticNet (admits_since d (fun _ => False) im)
      ⟨htold.consistent, .refl _⟩ isVcc line startLine args words.tail
    refine htold.append (.static hstatic hstart hrun) (hsince.state hrun) fun n => ?_
    exact not_settlesAt_of_keywords fun line' words' hmem kind =>
      head_ne_keyword_of_static hstatic hstart hmem kind
  record im line keyword args rest kind hstatic hkind hc hP := by
    obtain ⟨done, hlines, htold⟩ := hP
    obtain rfl := keyword_of_ofKeyword? hkind
    have hkeeps : Admits d (fun _ => True) True True fun im => im.netlist.Consistent :=
      ⟨fun _ _ hc hadds => hadds.consistent hc, fun _ _ => .inl trivial⟩
    have hm := maintains_consistent d
    have hprocess := ensures_process hkeeps hc kind args (fun _ _ => trivial) (fun _ => trivial)
      (fun _ => hm.bounds) fun isVcc _ => ensures_staticPorts (hm.admitsTies isVcc args) hc
    refine hprocess.with_run.post fun _ im' hc' hrun => ?_
    obtain ⟨hstatus, hdone⟩ := status_of_process hc hrun.2
    refine ⟨done ++ [(line, kind.keyword :: args)], by simp [hlines], ?_⟩
    exact htold.record (.record hstatic hkind line hrun.2) hc' hstatus hdone

theorem told_ofNetlist {netlist : NetlistDescription} {nl : Netlist}
    (hnl : Netlist.ofDescription d netlist = .ok nl) :
    Told d (.ofNetlist nl) [] (.ofNetlist nl) where
  consistent := (Netlist.closed_of_ofDescription hnl).toConsistent
  leads := .nil d _
  known i n hi := absurd hi.lt_length (Nat.not_lt_zero i)
  status n net hn := by
    obtain ⟨_, _, _, _, rfl⟩ := Netlist.bare_of_ofDescription hnl n net hn
    exact .inl ⟨fun i hi => Nat.not_lt_zero i hi.lt_length, rfl⟩

theorem computedStatus_congr {net net' : Net} (hpins : net.pins = net'.pins)
    (hsource : net.source = net'.source) (hsinks : net.routedSinks = net'.routedSinks) :
    net.computedStatus = net'.computedStatus := by
  unfold Net.computedStatus Net.fanOut Net.sinks
  rw [hpins, hsource, hsinks]

/-- After an import the status of the constants is right. That of any other net was right when a
line settled the net last, and still is if its pins, source and routed sinks are the same. A net
that no line settles is unrouted. -/
theorem status_of_importText {netlist : NetlistDescription} {nl : Netlist}
    (hnl : Netlist.ofDescription d netlist = .ok nl) {text : String}
    (hrun : (Importer.ofNetlist nl).importText d text = .ok (.ok (), im')) {n : NetId} {net : Net}
    (hn : im'.netlist.net? n = some net) :
    (∀ isVcc, n = Netlist.staticNet isVcc → net.status = net.computedStatus) ∧
    ((∀ isVcc, n ≠ Netlist.staticNet isVcc) →
      (∀ i, ¬ SettlesAt d (.ofNetlist nl) (numberedLines text) i n) ∧ net.status = .unrouted ∨
      ∃ i net₁, SettledLast d (.ofNetlist nl) (numberedLines text) i n net₁ ∧
        net.status = net₁.computedStatus ∧
        (net.pins = net₁.pins → net.source = net₁.source → net.routedSinks = net₁.routedSinks →
          net.status = net.computedStatus)) := by
  have htold := told_ofNetlist hnl
  obtain ⟨im₁, ⟨done, hlines, htold₁⟩, hfinish⟩ := (ensures_importText
    (admitsLines_told d (.ofNetlist nl) (numberedLines text)) htold.consistent
    ⟨[], rfl, htold⟩).result hrun
  have hfinished := ensures_finish (admits_since d (fun n => ∃ isVcc, n = Netlist.staticNet isVcc)
    im₁) (fun isVcc => ⟨isVcc, rfl⟩) ⟨htold₁.consistent, .refl _⟩
  refine ⟨?_, fun hother => ?_⟩
  · rintro isVcc rfl
    obtain ⟨net', hn', hstatus⟩ := hfinished.result hfinish isVcc
    obtain rfl : net' = net := Option.some.inj (hn'.symm.trans hn)
    exact hstatus
  · rw [hlines, List.append_nil]
    have hkeeps := (hfinished.state hfinish).2
    rcases htold₁.of_keepsStatus hkeeps (fun ⟨isVcc, hn⟩ => hother isVcc hn) hn with
      hnever | ⟨i, net₁, hlast, hstatus⟩
    · exact .inl hnever
    · refine .inr ⟨i, net₁, hlast, hstatus, fun hpins hsource hsinks => ?_⟩
      rw [hstatus, computedStatus_congr hpins hsource hsinks]

/-- The search from a source of VCC credits the net that it ends up on with its sink, and leaves
its status as it is. -/
theorem status_stale_loopback : ∃ d nl im' net, Device.ofDescription SiteRoute.feedback = .ok d ∧
    Netlist.ofDescription d loopback = .ok nl ∧
    (Importer.ofNetlist nl).importText d "VCC_SOURCES S/FF/Q" = .ok (.ok (), im') ∧
    im'.netlist.net? ⟨2⟩ = some net ∧ net.status = .unrouted ∧
    net.computedStatus = .fullyRouted := by
  have hrun : (do
      let d ← (Device.ofDescription SiteRoute.feedback).toOption
      let nl ← (Netlist.ofDescription d loopback).toOption
      let (r, im') ← ((Importer.ofNetlist nl).importText d "VCC_SOURCES S/FF/Q").toOption
      let net ← im'.netlist.net? ⟨2⟩
      return (r.toOption, net.status, net.computedStatus)) =
        some (some (), .unrouted, .fullyRouted) := by
    decide +kernel
  simp only [Option.bind_eq_bind, Option.bind_eq_some_iff, Checked.toOption_eq_some,
    Option.pure_def, Option.some.injEq, Prod.mk.injEq] at hrun
  obtain ⟨d, hd, nl, hnl, ⟨r, im'⟩, hrun, net, hnet, rfl, hstatus, hcomputed⟩ := hrun
  exact ⟨d, nl, im', net, hd, hnl, hrun, hnet, hstatus, hcomputed⟩

/-- The first line settles the net, the second one does not. -/
theorem status_of_importText_loopback : ∃ d nl im' net,
    Netlist.ofDescription d loopback = .ok nl ∧
    (Importer.ofNetlist nl).importText d "INTRASITE q\nVCC_SOURCES S/FF/Q" = .ok (.ok (), im') ∧
    im'.netlist.net? ⟨2⟩ = some net ∧ net.status = .fullyRouted ∧
    ∃ i net₁, SettledLast d (.ofNetlist nl) (numberedLines "INTRASITE q\nVCC_SOURCES S/FF/Q") i ⟨2⟩
      net₁ ∧ net.status = net₁.computedStatus := by
  have hrun : (do
      let d ← (Device.ofDescription SiteRoute.feedback).toOption
      let nl ← (Netlist.ofDescription d loopback).toOption
      let (r, im') ←
        ((Importer.ofNetlist nl).importText d "INTRASITE q\nVCC_SOURCES S/FF/Q").toOption
      let net ← im'.netlist.net? ⟨2⟩
      return (r.toOption, net.status)) = some (some (), .fullyRouted) := by
    decide +kernel
  simp only [Option.bind_eq_bind, Option.bind_eq_some_iff, Checked.toOption_eq_some,
    Option.pure_def, Option.some.injEq, Prod.mk.injEq] at hrun
  obtain ⟨d, -, nl, hnl, ⟨r, im'⟩, hrun, net, hnet, rfl, hstatus⟩ := hrun
  refine ⟨d, nl, im', net, hnl, hrun, hnet, hstatus, ?_⟩
  have hnot : ∀ isVcc, (⟨2⟩ : NetId) ≠ Netlist.staticNet isVcc := by decide
  rcases (status_of_importText hnl hrun hnet).2 hnot with ⟨-, hnever⟩ | ⟨i, net₁, hlast, hsame, -⟩
  · rw [hnever] at hstatus
    cases hstatus
  · exact ⟨i, net₁, hlast, hsame⟩

end Record

end Fabric
