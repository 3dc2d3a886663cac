import Fabric.Netlist.Build
import Fabric.Proofs.Export.Crossings
import Fabric.Proofs.RouteText.Mentions
import Fabric.Record.Import
/-!
# What the exported constraints cover

Every tree of a net inside a module is written under the name of the net, and no net has two `ROUTE`
lines. The first tree of a net that crosses the boundary is written under the names of the nets of
the static part that the net goes on as; other trees of such a net are not written.
-/

namespace Fabric.Export

variable {d : Device} {nl : Netlist}

def HasLine (text line : String) : Prop :=
  ∃ lines : List String, text = String.join lines ∧ (∀ l ∈ lines, ∃ s, l = s ++ "\n") ∧
    line ∈ lines

/-- A `ROUTE` value that the text has for the net mentions all wires that a written form of the tree
has to name. -/
def Covers (d : Device) (text net : String) (t : RouteTree) : Prop :=
  ∃ value, HasLine text (routeLine value net) ∧
    ∀ w ∈ t.namedWires, RouteText.Mentions value (d.routeName w)

/-! ## Lines -/

theorem setProperty_endsLine (property value query name : String) :
    ∃ s, setProperty property value query name = s ++ "\n" := by
  have hend : "\x7d]\n" = "\x7d]" ++ "\n" := by decide
  exact ⟨_, (congrArg (_ ++ ·) hend).trans (String.append_assoc ..).symm⟩

theorem exists_of_mem_siteLines {s : SiteId} {line : String} (h : line ∈ siteLines d nl s) :
    ∃ property value query name, property ≠ "ROUTE" ∧
      line = setProperty property value query name := by
  unfold siteLines at h
  dsimp only at h
  split at h
  next => cases h
  next =>
    rcases List.mem_cons.1 h with rfl | h
    · exact ⟨_, _, _, _, by decide, rfl⟩
    · rw [List.mem_singleton.1 h]
      exact ⟨_, _, _, _, by decide, rfl⟩

theorem netLine?_eq_some {net : Net} {line : String} : netLine? d nl net = some line ↔
    place nl net = .inside ∧
      ∃ value, d.routeValue? net.intersite = some value ∧ line = routeLine value net.name := by
  unfold netLine?
  split
  next h => simp [h, eq_comm]
  next h => simp [h]

/-! ## The text for nets inside -/

def sitePart (d : Device) (nl : Netlist) (withSites : Bool) : List String :=
  if withSites then nl.usedSites.toList.flatMap (siteLines d nl) else []

theorem constraints_eq (withSites : Bool) : constraints d nl withSites =
    String.join (sitePart d nl withSites ++
      nl.liveNets.filterMap fun (_, net) => netLine? d nl net) := rfl

theorem exists_of_mem_sitePart {withSites : Bool} {line : String}
    (h : line ∈ sitePart d nl withSites) : ∃ property value query name, property ≠ "ROUTE" ∧
      line = setProperty property value query name := by
  unfold sitePart at h
  split at h
  next =>
    obtain ⟨s, -, hs⟩ := List.mem_flatMap.1 h
    exact exists_of_mem_siteLines hs
  next => cases h

theorem hasLine_constraints {withSites : Bool} {n : NetId} {net : Net} {line : String}
    (hnet : nl.net? n = some net) (hline : netLine? d nl net = some line) :
    HasLine (constraints d nl withSites) line := by
  refine ⟨_, constraints_eq withSites, fun l hl => ?_, List.mem_append_right _
    (List.mem_filterMap.2 ⟨(n, net), Netlist.mem_liveNets.2 hnet, hline⟩)⟩
  rcases List.mem_append.1 hl with hl | hl
  · obtain ⟨property, value, query, name, -, rfl⟩ := exists_of_mem_sitePart hl
    exact setProperty_endsLine property value query name
  · obtain ⟨⟨m, net'⟩, -, hl⟩ := List.mem_filterMap.1 hl
    obtain ⟨-, value, -, rfl⟩ := netLine?_eq_some.1 hl
    exact setProperty_endsLine _ _ _ _

/-- The lines that come from a list belong to elements of the list, one to each of some of them. -/
theorem exists_owners {α β : Type} (f : α → Option β) (as : List α) : ∃ owners : List α,
    owners.Sublist as ∧ List.Forall₂ (fun a b => f a = some b) owners (as.filterMap f) := by
  induction as with
  | nil => exact ⟨[], .slnil, .nil⟩
  | cons a as ih =>
    obtain ⟨owners, hsub, hall⟩ := ih
    cases hline : f a with
    | none =>
      rw [List.filterMap_cons_none hline]
      exact ⟨owners, hsub.cons a, hall⟩
    | some line =>
      rw [List.filterMap_cons_some hline]
      exact ⟨a :: owners, hsub.cons_cons a, .cons hline hall⟩

theorem exists_routeValue {ts : List RouteTree} (h : ts ≠ []) :
    ∃ value, d.routeValue? ts = some value := by
  match ts with
  | [t] => exact ⟨_, rfl⟩
  | t :: u :: ts => exact ⟨_, rfl⟩

/-- A value mentions what the trees of the net have to name. -/
theorem covers_constraints {withSites : Bool} {n : NetId} {net : Net} {t : RouteTree}
    (hnet : nl.net? n = some net) (hplace : place nl net = .inside) (ht : t ∈ net.intersite)
    (hbuilt : t.Built) : Covers d (constraints d nl withSites) net.name t := by
  obtain ⟨value, hvalue⟩ := exists_routeValue (d := d) (List.ne_nil_of_mem ht)
  refine ⟨value, hasLine_constraints hnet (netLine?_eq_some.2 ⟨hplace, value, hvalue, rfl⟩),
    fun w hw => ?_⟩
  exact RouteText.mentions_routeValue hvalue (List.mem_map_of_mem ht)
    (RouteText.mem_ofTree hbuilt.wellFormed d.routeName hw)

/-! ## The text for nets that cross the boundary -/

theorem exists_of_crossingLine {net : Net} {port line : String} {moduleIsDriven : Bool}
    (h : crossingLine d nl net port moduleIsDriven = .ok (some line)) :
    ∃ value static, line = routeLine value static := by
  obtain ⟨node, static, written, -, -, -, hjoin⟩ := crossingLine_eq_ok.1 h
  split at hjoin
  next => cases hjoin
  next =>
    obtain ⟨staticRoute, joined, -, -, hline⟩ := hjoin
    exact ⟨_, _, Option.some.inj hline⟩

theorem covers_of_crossing {nets : BoundaryNets} {text : String}
    (h : boundaryConstraints d nl nets = .ok (text, none)) {cs : List Crossing}
    (hcs : crossings nl nets = .ok cs) {c : Crossing} (hc : c ∈ cs) {net : Net}
    (hnet : nl.net? c.net = some net) {t : RouteTree} (ht : net.intersite.head? = some t)
    (hbuilt : t.Built) :
    ∃ static, nl.staticNetOf[net.name]? = some static ∧ Covers d text static t := by
  obtain ⟨cs', hcs', h⟩ := Checked.bind_eq_ok.1 h
  obtain rfl := Except.ok.inj (hcs'.symm.trans hcs)
  obtain ⟨lines, hlines, rfl⟩ := crossingLines_eq_ok.1 h
  obtain ⟨i, hi⟩ := List.mem_iff_getElem?.1 hc
  obtain ⟨line, hline, net', hnet', hcrossing⟩ := Checked.getElem?_of_forall₂ hlines hi
  obtain rfl := Option.some.inj (hnet'.symm.trans hnet)
  obtain ⟨node, static, written, -, hstatic, -, hjoin⟩ := crossingLine_eq_ok.1 hcrossing
  rw [ht] at hjoin
  obtain ⟨staticRoute, joined, -, hjoined, rfl⟩ := hjoin
  refine ⟨static, hstatic, joined.text, ⟨_, rfl, fun l hl => ?_, ?_⟩, fun w hw => ?_⟩
  · obtain ⟨j, hj⟩ := List.mem_iff_getElem?.1 (List.reduceOption_mem_iff.1 hl)
    obtain ⟨c', -, net', -, hcrossing'⟩ := Checked.getElem?_of_forall₂ hlines.flip hj
    obtain ⟨value, static', rfl⟩ := exists_of_crossingLine hcrossing'
    exact setProperty_endsLine _ _ _ _
  · exact List.reduceOption_mem_iff.2 (List.mem_of_getElem? hline)
  · exact RouteText.mentions_text (RouteText.mem_wires_joinAt? hjoined
      (.inr (RouteText.mem_ofTree hbuilt.wellFormed d.routeName hw)))

theorem exists_crossing {cs : List Crossing} (hcs : crossings nl (boundaryNets nl) = .ok cs)
    {n : NetId} {net : Net} (hnet : nl.net? n = some net) (hplace : place nl net ≠ .inside) :
    ∃ c ∈ cs, c.net = n := by
  cases hcase : place nl net with
  | inside => exact absurd hcase hplace
  | entering =>
    obtain ⟨p, pin, hp, -⟩ := isEntering_iff.1 (place_eq_entering_iff.1 hcase).2
    obtain ⟨port, -, hc⟩ :=
      exists_crossing_of_entering hcs (mem_netsAt.2 ⟨net, hnet, hcase⟩) hnet hp
    exact ⟨_, hc, rfl⟩
  | leaving =>
    obtain ⟨p, hp, pin, hpin, hpart⟩ := hasPartitionPin_iff.1 (place_eq_leaving_iff.1 hcase).2.2.2
    obtain ⟨port, -, hc⟩ := exists_crossing_of_leaving hcs (mem_netsAt.2 ⟨net, hnet, hcase⟩) hnet hp
      (by simpa [hpin] using hpart)
    exact ⟨_, hc, rfl⟩

/-! ## No route is lost -/

/-- When both texts can be written, every tree of a net inside is covered by the line of the net, and
the first tree of a net that crosses the boundary by a line of the net of the static part that it is
mapped to. The lines of the main text are those of sites, which set other properties, and behind them
one `ROUTE` line for each of some nets, no two of them for the same net. -/
theorem covers_of_boundaryConstraints (d : Device) (nl : Netlist) (withSites : Bool) {text : String}
    (hbuilt : ∀ n net, nl.net? n = some net → ∀ t ∈ net.intersite, t.Built)
    (h : boundaryConstraints d nl (boundaryNets nl) = .ok (text, none)) :
    (∀ n net, nl.net? n = some net → ∀ t ∈ net.intersite,
      (place nl net = .inside → Covers d (constraints d nl withSites) net.name t) ∧
      (place nl net ≠ .inside → net.intersite.head? = some t →
        ∃ static, nl.staticNetOf[net.name]? = some static ∧ Covers d text static t)) ∧
    ∃ (sites routes : List String) (owners : List (NetId × Net)),
      constraints d nl withSites = String.join (sites ++ routes) ∧
      (∀ line ∈ sites, ∃ property value query name, property ≠ "ROUTE" ∧
        line = setProperty property value query name) ∧
      (owners.map Prod.fst).Nodup ∧
      List.Forall₂ (fun owner line => nl.net? owner.1 = some owner.2 ∧
        ∃ value, d.routeValue? owner.2.intersite = some value ∧
          line = routeLine value owner.2.name) owners routes := by
  constructor
  · intro n net hnet t ht
    refine ⟨fun hplace => covers_constraints hnet hplace ht (hbuilt n net hnet t ht),
      fun hplace hfirst => ?_⟩
    obtain ⟨cs, hcs, -⟩ := Checked.bind_eq_ok.1 h
    obtain ⟨c, hc, rfl⟩ := exists_crossing hcs hnet hplace
    exact covers_of_crossing h hcs hc hnet hfirst (hbuilt _ net hnet t ht)
  · obtain ⟨owners, hsub, hall⟩ :=
      exists_owners (fun (n : NetId × Net) => netLine? d nl n.2) nl.liveNets
    refine ⟨sitePart d nl withSites, _, owners, constraints_eq withSites,
      fun line => exists_of_mem_sitePart, Netlist.nodup_liveNets.sublist (hsub.map _), ?_⟩
    refine (List.forall₂_and_left _ _).2
      ⟨fun owner howner => Netlist.mem_liveNets.1 (hsub.subset howner), hall.imp ?_⟩
    exact fun owner line hline => (netLine?_eq_some.1 hline).2

def twinDriver : DeviceDescription where
  name := "twinDriver"
  family := .other
  tiles := [⟨"T", "INT", [⟨"OA", [⟨"P", none, .pip⟩]⟩, ⟨"OB", [⟨"X", none, .pip⟩]⟩]⟩]
  siteTypes := [⟨"SLICE", [⟨"O", [⟨"P", none, .wire⟩, ⟨"Q", none, .wire⟩]⟩],
    [⟨"SRC", [⟨"O", .output, "O"⟩]⟩], [⟨"P", .output, "P", "OA"⟩, ⟨"Q", .output, "Q", "OB"⟩]⟩]
  sites := [⟨"S", "SLICE", "T"⟩]

def outbound : NetlistDescription where
  name := "top"
  mode := .reconfigModule
  cells := [
    ⟨"src", "LUT1", some "S/SRC", false, ∅, [⟨"O", .output, ["O"]⟩]⟩,
    ⟨"dout", "OBUF", none, true, ∅, [⟨"I", .input, []⟩]⟩]
  nets := [⟨"n", .wire, ["src/O", "dout/I"]⟩]
  staticNetOf := .ofList [("n", "s")]
  staticRoutes := .ofList [("s", "\x7b T/P T/Z \x7d")]

def viaP : RouteTree :=
  (RouteTree.ofRoot (.tile ⟨0⟩ ⟨0⟩)).grow 0 ⟨.tile ⟨0⟩ ⟨0⟩, .tile ⟨0⟩ ⟨1⟩, .pip⟩

def viaQ : RouteTree :=
  (RouteTree.ofRoot (.tile ⟨0⟩ ⟨2⟩)).grow 0 ⟨.tile ⟨0⟩ ⟨2⟩, .tile ⟨0⟩ ⟨3⟩, .pip⟩

set_option synthInstance.maxSize 256 in
theorem exists_export_outbound : ∃ d nl im' net,
    Device.ofDescription twinDriver = .ok d ∧ Netlist.ofDescription d outbound = .ok nl ∧
    (Importer.ofNetlist nl).importText d
      "PART_PIN dout T/P IN\nINTERSITE n S/P S/Q\nROUTE n T/INT.OA->P T/INT.OB->X" =
        .ok (.ok (), im') ∧
    im'.netlist.net? ⟨2⟩ = some net ∧ net.intersite = [viaP, viaQ] ∧
    (∀ m net', im'.netlist.net? m = some net' → ∀ t ∈ net'.intersite, t = viaP ∨ t = viaQ) ∧
    place im'.netlist net = .leaving ∧ im'.netlist.staticNetOf[net.name]? = some "s" ∧
    constraints d im'.netlist false = "" ∧
    boundaryConstraints d im'.netlist (boundaryNets im'.netlist) =
      .ok ("set_property ROUTE \x7b T/OA T/P T/Z \x7d [get_nets \x7bs\x7d]\n", none) := by
  have hrun : (do
      let d ← (Device.ofDescription twinDriver).toOption
      let nl ← (Netlist.ofDescription d outbound).toOption
      let (r, im') ← ((Importer.ofNetlist nl).importText d
        "PART_PIN dout T/P IN\nINTERSITE n S/P S/Q\nROUTE n T/INT.OA->P T/INT.OB->X").toOption
      let net ← im'.netlist.net? ⟨2⟩
      let written ←
        (boundaryConstraints d im'.netlist (boundaryNets im'.netlist)).toOption
      return (r.toOption, net.intersite,
        decide (∀ m ∈ im'.netlist.liveNets, ∀ t ∈ m.2.intersite, t = viaP ∨ t = viaQ),
        decide (place im'.netlist net = .leaving ∧ im'.netlist.staticNetOf[net.name]? = some "s" ∧
          constraints d im'.netlist false = ""), written)) =
      some (some (), [viaP, viaQ], true, true,
        "set_property ROUTE \x7b T/OA T/P T/Z \x7d [get_nets \x7bs\x7d]\n", none) := by
    decide +kernel
  simp only [Option.bind_eq_bind, Option.bind_eq_some_iff, Checked.toOption_eq_some,
    Option.pure_def, Option.some.injEq, Prod.mk.injEq, decide_eq_true_eq] at hrun
  obtain ⟨d, hd, nl, hnl, ⟨r, im'⟩, hrun, net, hnet, written, hwritten, rfl, hrest⟩ := hrun
  obtain ⟨htrees, hall, ⟨hplace, hstatic, hmain⟩, rfl⟩ := hrest
  exact ⟨d, nl, im', net, hd, hnl, hrun, hnet, htrees,
    fun m net' hm => hall (m, net') (Netlist.mem_liveNets.2 hm), hplace, hstatic, hmain, hwritten⟩

theorem built_viaP : viaP.Built := (RouteTree.Built.root _).grow rfl

theorem built_viaQ : viaQ.Built := (RouteTree.Built.root _).grow rfl

/-- The first tree of the outbound net is covered by the line of the static net. -/
theorem covers_of_boundaryConstraints_outbound : ∃ d nl,
    Device.ofDescription twinDriver = .ok d ∧
    (∀ n net, nl.net? n = some net → ∀ t ∈ net.intersite, t.Built) ∧
    boundaryConstraints d nl (boundaryNets nl) =
      .ok ("set_property ROUTE \x7b T/OA T/P T/Z \x7d [get_nets \x7bs\x7d]\n", none) ∧
    Covers d "set_property ROUTE \x7b T/OA T/P T/Z \x7d [get_nets \x7bs\x7d]\n" "s" viaP := by
  obtain ⟨d, -, im', net, hd, -, -, hnet, htrees, hall, hplace, hstatic, -, hwritten⟩ :=
    exists_export_outbound
  have hbuilt : ∀ n net, im'.netlist.net? n = some net → ∀ t ∈ net.intersite, t.Built := by
    intro n net' hn t ht
    rcases hall n net' hn t ht with rfl | rfl
    · exact built_viaP
    · exact built_viaQ
  obtain ⟨hcover, -⟩ := covers_of_boundaryConstraints d im'.netlist false hbuilt hwritten
  obtain ⟨-, hfirst⟩ := hcover ⟨2⟩ net hnet viaP (by simp [htrees])
  obtain ⟨static, hstatic', hcovers⟩ := hfirst (by simp [hplace]) (by simp [htrees])
  obtain rfl := Option.some.inj (hstatic.symm.trans hstatic')
  exact ⟨d, im'.netlist, hd, hbuilt, hwritten, hcovers⟩

theorem toList_subset_between (s t u : String) : t.toList ⊆ (s ++ t ++ u).toList := by
  rw [String.toList_append, String.toList_append]
  exact List.subset_append_of_subset_left _ (List.subset_append_right _ _)

theorem toList_subset_routeLine (value net : String) :
    value.toList ⊆ (routeLine value net).toList := by
  unfold routeLine setProperty
  generalize "set_property " ++ "ROUTE" ++ " " = start
  have hend : ∀ a b e f : String, start ++ value ++ a ++ b ++ e ++ net ++ f =
      start ++ value ++ (a ++ b ++ e ++ net ++ f) := by
    intro a b e f
    simp only [String.append_assoc]
  rw [hend]
  exact toList_subset_between _ _ _

theorem Covers.subset {text net : String} {t : RouteTree} (h : Covers d text net t) {w : Wire}
    (hw : w ∈ t.namedWires) : (d.routeName w).toList ⊆ text.toList := by
  obtain ⟨value, ⟨lines, rfl, -, hline⟩, hmentions⟩ := h
  obtain ⟨before, after, rfl⟩ := hmentions w hw
  have hname : (d.routeName w).toList ⊆
      (routeLine (before ++ " " ++ d.routeName w ++ " " ++ after) net).toList := by
    refine List.Subset.trans ?_ (toList_subset_routeLine _ net)
    rw [String.append_assoc]
    exact toList_subset_between _ _ _
  refine List.Subset.trans hname fun c hc => ?_
  clear hname hmentions
  induction lines with
  | nil => cases hline
  | cons l lines ih =>
    rw [String.join_cons, String.toList_append, List.mem_append]
    rcases List.mem_cons.1 hline with rfl | hline
    · exact .inl hc
    · exact .inr (ih hline)

/-- The second tree of the outbound net is neither in the line of the static net nor in the text for
the nets inside, though both texts can be written. -/
theorem not_covers_outbound : ∃ d nl im' net,
    Device.ofDescription twinDriver = .ok d ∧ Netlist.ofDescription d outbound = .ok nl ∧
    (Importer.ofNetlist nl).importText d
      "PART_PIN dout T/P IN\nINTERSITE n S/P S/Q\nROUTE n T/INT.OA->P T/INT.OB->X" =
        .ok (.ok (), im') ∧
    im'.netlist.net? ⟨2⟩ = some net ∧ viaQ ∈ net.intersite ∧
    constraints d im'.netlist false = "" ∧ ∃ text,
      boundaryConstraints d im'.netlist (boundaryNets im'.netlist) = .ok (text, none) ∧
      ∀ static, ¬ Covers d text static viaQ := by
  obtain ⟨d, nl, im', net, hd, hnl, hrun, hnet, htrees, -, -, -, hmain, hwritten⟩ :=
    exists_export_outbound
  have hname : (Device.ofDescription twinDriver).toOption.map
      (fun d => d.routeName (.tile ⟨0⟩ ⟨2⟩)) = some "T/OB" := by
    decide +kernel
  rw [hd] at hname
  refine ⟨d, nl, im', net, hd, hnl, hrun, hnet, by simp [htrees], hmain, _, hwritten, ?_⟩
  intro static hcovers
  have hname : d.routeName (.tile ⟨0⟩ ⟨2⟩) = "T/OB" := Option.some.inj hname
  have hletter := hcovers.subset (w := .tile ⟨0⟩ ⟨2⟩) (by decide)
  rw [hname] at hletter
  exact absurd (hletter (show 'B' ∈ "T/OB".toList by decide)) (by decide)

end Fabric.Export
