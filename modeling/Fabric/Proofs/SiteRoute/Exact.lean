import Fabric.Proofs.RouteTree.Pruning
import Fabric.Proofs.SiteRoute.Search
/-!
# What a search inside a site finds

A search inside a site comes to the wires that connections which qualify lead to over wires at
which it does not stop. Its sinks are those of the wires at which it stops, as far as its source
takes them, and its tree is cut down to the ways to these.
-/

namespace Fabric.SiteRoute

def Source.site (d : Device) : Source → SiteId
  | .sitePin pin _ => d.sitePinSite pin
  | .belPin pin _ => d.belPinSite pin

def Source.wire (d : Device) : Source → Wire
  | .sitePin pin _ => d.internalWire pin
  | .belPin pin _ => d.belPinWire pin

def ofSource (d : Device) (net : NetId) : Source → SiteRoute
  | .sitePin pin allowUnused => fromSitePin d net pin allowUnused
  | .belPin pin contained => fromBelPin d net pin contained

def OnNet (nl : Netlist) (n : NetId) (p : BelPinId) : Prop :=
  ∃ q pin, nl.pinAt? p = some q ∧ nl.pin? q = some pin ∧ pin.net = some n

variable (ctx : SiteContext) (r : SiteRoute)

/-- Connections that qualify lead to the wire, over wires at which the search does not stop. -/
def Reaches (w : Wire) : Prop :=
  ∃ n start, r.start? = some start ∧ RouteTree.Trail (r.Follows ctx) start n w

/-- The search takes the BEL pin that the wire ends at for a sink. -/
def EndsWell (w : Wire) (p : BelPinId) : Prop :=
  some w ≠ r.start? ∧ r.endsAtBelPin ctx w ∧ ctx.device.terminal? w = some p ∧
    ∀ pin, r.source = .sitePin pin false → OnNet ctx.netlist r.net p

/-- The search takes the site pin that the wire leaves through for a sink. -/
def LeavesWell (w : Wire) (p : SitePinId) : Prop :=
  some w ≠ r.start? ∧ ¬ r.endsAtBelPin ctx w ∧ ctx.device.pinAhead? w = some p ∧
    ∃ pin, r.source = .belPin pin false

/-- What the search of the route `r` that stays in the site `s` has to come back with. -/
structure Finds (s : SiteId) (found : SiteRoute) : Prop where
  belPins_once : found.belPinSinks.Nodup
  belPins : ∀ p, p ∈ found.belPinSinks ↔ ∃ w, r.Reaches ctx w ∧ r.EndsWell ctx w p
  sitePins_once : found.sitePinSinks.Nodup
  sitePins : ∀ p, p ∈ found.sitePinSinks ↔ ∃ w, r.Reaches ctx w ∧ r.LeavesWell ctx w p
  wellFormed : found.tree.WellFormed
  rooted : found.start? = r.start?
  once : found.tree.wires.Nodup
  inside : ∀ w ∈ found.tree.wires, ∃ v, w = .site s v
  hops : ∀ i < found.tree.size, i ≠ 0 → ∃ p u c, found.tree.parent? i = some p ∧
    found.tree.wire? p = some u ∧ found.tree.link? i = some c ∧
    c ∈ ctx.device.connections u ∧ ctx.qualifies c ∧ found.tree.wire? i = some c.sink
  interior : ∀ i w, i ≠ 0 → found.tree.wire? i = some w → found.tree.children i ≠ [] →
    ¬ r.IsStop ctx w
  leaves : ∀ w, (∃ i, i ≠ 0 ∧ found.tree.wire? i = some w ∧ found.tree.children i = []) ↔
    r.Reaches ctx w ∧ ((∃ p, r.EndsWell ctx w p) ∨ ∃ p, r.LeavesWell ctx w p)

variable {ctx r}

/-! ## Sinks -/

theorem isOnNet_iff {p : BelPinId} : r.isOnNet ctx p ↔ OnNet ctx.netlist r.net p := by
  simp only [isOnNet, OnNet, Option.any_eq_true, decide_eq_true_eq]
  constructor
  · rintro ⟨q, hq, pin, hpin, hn⟩
    exact ⟨q, pin, hq, hpin, hn⟩
  · rintro ⟨q, pin, hq, hpin, hn⟩
    exact ⟨q, hq, pin, hpin, hn⟩

theorem acceptsBelPin_iff {p : BelPinId} :
    r.acceptsBelPin ctx p ↔ ∀ pin, r.source = .sitePin pin false → OnNet ctx.netlist r.net p := by
  unfold acceptsBelPin
  rcases hs : r.source with ⟨pin, _ | _⟩ | ⟨pin, _ | _⟩
  · simp [isOnNet_iff]
  · simp
  · simp
  · simp

theorem acceptsSitePin_iff : r.acceptsSitePin ↔ ∃ pin, r.source = .belPin pin false := by
  unfold acceptsSitePin
  rcases hs : r.source with ⟨pin, _ | _⟩ | ⟨pin, _ | _⟩ <;> simp

theorem belPinAt?_eq_some {w : Wire} {p : BelPinId} :
    r.belPinAt? ctx w = some p ↔ r.EndsWell ctx w p := by
  unfold belPinAt? EndsWell
  split
  next h => rw [Option.filter_eq_some_iff, acceptsBelPin_iff]; simp [h]
  next h => simp only [reduceCtorEq, false_iff]; exact fun hw => h ⟨hw.1, hw.2.1⟩

theorem sitePinAt?_eq_some {w : Wire} {p : SitePinId} :
    r.sitePinAt? ctx w = some p ↔ r.LeavesWell ctx w p := by
  unfold sitePinAt? LeavesWell
  split
  next h => rw [Option.filter_eq_some_iff, acceptsSitePin_iff]; simp [h]
  next h => simp only [reduceCtorEq, false_iff]; exact fun hw => h ⟨hw.1, hw.2.1⟩

theorem accepts_iff {w : Wire} :
    r.Accepts ctx w ↔ (∃ p, r.EndsWell ctx w p) ∨ ∃ p, r.LeavesWell ctx w p := by
  simp only [Accepts, Option.isSome_iff_exists, belPinAt?_eq_some, sitePinAt?_eq_some]

theorem isStop_of_accepts {w : Wire} (h : r.Accepts ctx w) : r.IsStop ctx w := by
  rcases accepts_iff.1 h with ⟨p, hw, hend, -, -⟩ | ⟨p, hw, -, hpin, -⟩
  · exact ⟨hw, .inl hend⟩
  · exact ⟨hw, .inr (by simp [hpin])⟩

/-! ## Sources -/

theorem exists_wire_of_source (d : Device) (source : Source) :
    ∃ v, source.wire d = .site (source.site d) v := by
  cases source <;> exact ⟨_, rfl⟩

theorem ofSource_eq (d : Device) (net : NetId) (source : Source) :
    ofSource d net source = { source, net, tree := .ofRoot (source.wire d) } := by
  cases source <;> rfl

theorem start?_ofSource (d : Device) (net : NetId) (source : Source) :
    (ofSource d net source).start? = some (source.wire d) := by
  rw [ofSource_eq]
  rfl

/-! ## The search -/

/-- The connections out of a site wire stay in the site, and so does a trail from one. -/
theorem exists_wire_of_trail {s : SiteId} {v : WireName} {n : Nat} {w : Wire}
    (h : RouteTree.Trail (r.Follows ctx) (.site s v) n w) : ∃ u, w = .site s u := by
  induction h with
  | start => exact ⟨v, rfl⟩
  | hop _ hc ih =>
    obtain ⟨u, rfl⟩ := ih
    exact Device.sink_of_mem_site_connections hc.2.1

structure Searched (ctx : SiteContext) (r found : SiteRoute) (start : Wire) : Prop where
  root : r.start? = some start
  tree : RouteTree.IsSearchTree (r.Follows ctx) start found.tree
  noted : ∃ last, found.tree.size ≤ last ∧ Tracks ctx r last found

namespace Searched

variable {found : SiteRoute} {start : Wire} (h : Searched ctx r found start)

include h

theorem reaches_iff {w : Wire} : r.Reaches ctx w ↔ ∃ i, found.tree.wire? i = some w := by
  rw [← RouteTree.mem_wires, h.tree.wires w]
  constructor
  · rintro ⟨n, start', hstart', hn⟩
    obtain rfl : start = start' := Option.some.inj (h.root.symm.trans hstart')
    exact ⟨n, hn⟩
  · rintro ⟨n, hn⟩
    exact ⟨n, start, h.root, hn⟩

theorem belPins : found.belPinSinks.Nodup ∧
    ∀ p, p ∈ found.belPinSinks ↔ ∃ w, r.Reaches ctx w ∧ r.EndsWell ctx w p := by
  obtain ⟨last, hlast, ht⟩ := h.noted
  refine ⟨ht.belPins.1, fun p => (ht.belPins.mem_iff hlast).trans ?_⟩
  simp only [h.reaches_iff, belPinAt?_eq_some]

theorem sitePins : found.sitePinSinks.Nodup ∧
    ∀ p, p ∈ found.sitePinSinks ↔ ∃ w, r.Reaches ctx w ∧ r.LeavesWell ctx w p := by
  obtain ⟨last, hlast, ht⟩ := h.noted
  refine ⟨ht.sitePins.1, fun p => (ht.sitePins.mem_iff hlast).trans ?_⟩
  simp only [h.reaches_iff, sitePinAt?_eq_some]

theorem mem_ends {i : Nat} :
    i ∈ found.ends ↔ ∃ w, found.tree.wire? i = some w ∧ r.Accepts ctx w := by
  obtain ⟨last, hlast, ht⟩ := h.noted
  rw [ht.ends i]
  constructor
  · rintro ⟨-, hi⟩
    exact hi
  · rintro ⟨w, hw, ha⟩
    have := RouteTree.lt_size_of_wire? hw
    exact ⟨by omega, w, hw, ha⟩

theorem zero_notMem_ends : 0 ∉ found.ends := by
  intro h0
  obtain ⟨w, hw, ha⟩ := h.mem_ends.1 h0
  -- The search stops where it accepts a sink, and it never stops at the start.
  apply (isStop_of_accepts ha).1
  rw [h.root, ← hw, h.tree.rooted]

theorem finds {s : SiteId} {v : WireName} (hs : start = .site s v) :
    Finds ctx r s found.cut where
  belPins_once := h.belPins.1
  belPins := h.belPins.2
  sitePins_once := h.sitePins.1
  sitePins := h.sitePins.2
  wellFormed := h.tree.wellFormed.prune _
  rooted := by
    have hzero : (found.tree.retained found.ends)[0]? = some 0 :=
      RouteTree.retained_zero h.tree.wellFormed
    rw [h.root, ← h.tree.rooted]
    exact RouteTree.wire?_prune hzero
  once := h.tree.once.sublist RouteTree.wires_prune_sublist
  inside w hw := by
    obtain ⟨n, hn⟩ := (h.tree.wires w).1 (RouteTree.wires_prune_sublist.subset hw)
    subst hs
    exact exists_wire_of_trail hn
  hops i hi h0 := by
    obtain ⟨p, u, c, hp, hu, hc, hhop, hsink⟩ := h.tree.hops_prune hi h0
    exact ⟨p, u, c, hp, hu, hc, hhop.2.1, hhop.2.2, hsink⟩
  interior i w _ hw hne := by
    obtain ⟨c, hc⟩ := h.tree.exists_hop_of_children hw hne
    exact hc.1
  leaves w := by
    have hend : ∀ k ∈ found.ends, ∀ w c, found.tree.wire? k = some w → ¬ r.Follows ctx w c := by
      intro k hk w c hw hc
      obtain ⟨w', hw', ha⟩ := h.mem_ends.1 hk
      rw [hw] at hw'
      cases hw'
      exact hc.1 (isStop_of_accepts ha)
    refine (h.tree.leaf_prune_iff h.zero_notMem_ends hend w).trans ?_
    rw [h.reaches_iff, ← accepts_iff]
    constructor
    · rintro ⟨k, hk, hw⟩
      obtain ⟨w', hw', ha⟩ := h.mem_ends.1 hk
      rw [hw] at hw'
      cases hw'
      exact ⟨⟨k, hw⟩, ha⟩
    · rintro ⟨⟨k, hw⟩, ha⟩
      exact ⟨k, h.mem_ends.2 ⟨w, hw, ha⟩, hw⟩

end Searched

theorem tracks_ofSource (ctx : SiteContext) (net : NetId) (source : Source) :
    Tracks ctx (ofSource ctx.device net source) 0 (ofSource ctx.device net source) := by
  rw [ofSource_eq]
  exact ⟨⟨rfl, rfl, rfl⟩, ⟨.nil, by simp⟩, ⟨.nil, by simp⟩, by simp⟩

theorem origin_build (ctx : SiteContext) (net : NetId) (source : Source) :
    ((ofSource ctx.device net source).build ctx).net = net ∧
      ((ofSource ctx.device net source).build ctx).source = source := by
  have hwires : (ofSource ctx.device net source).tree.HasWires
      (.ofList (ofSource ctx.device net source).start?.toList) := by
    rw [start?_ofSource, ofSource_eq]
    exact RouteTree.hasWires_ofRoot _
  obtain ⟨-, _, htracks, -⟩ := searchFrom_spec
    (s := (ofSource ctx.device net source, .ofList (ofSource ctx.device net source).start?.toList))
    (tracks_ofSource ctx net source) hwires (ctx.device.wireBound + 1)
  have horigin : (ofSource ctx.device net source).net = net ∧
      (ofSource ctx.device net source).source = source := by
    rw [ofSource_eq]
    exact ⟨rfl, rfl⟩
  exact ⟨htracks.origin.net.trans horigin.1, htracks.origin.source.trans horigin.2⟩

theorem searched_ofSource {desc : DeviceDescription}
    (hd : Device.ofDescription desc = .ok ctx.device) (net : NetId) (source : Source) :
    let r := ofSource ctx.device net source
    let found := searchFrom ctx (ctx.device.wireBound + 1) 0 (r, .ofList r.start?.toList)
    Searched ctx r found.1 (source.wire ctx.device) ∧
      found.1.tree.size ≤ ctx.device.wireBound + 1 := by
  intro r found
  have hstart : r.start? = some (source.wire ctx.device) := start?_ofSource _ _ _
  have htree : r.tree = .ofRoot (source.wire ctx.device) := by
    rw [show r = _ from ofSource_eq ..]
  have hwires : r.tree.HasWires (.ofList r.start?.toList) := by
    rw [hstart, htree]
    exact RouteTree.hasWires_ofRoot _
  have hsource : ∀ w, ∀ c ∈ r.followed ctx w, c.source = w := fun _ _ => source_of_mem_followed
  have hall : ∀ w, ∀ c ∈ r.followed ctx w, c.sink ∈ ctx.device.allWires := fun _ _ hc =>
    (Device.wired_of_ofDescription hd).sink_mem_allWires (mem_followed.1 hc).2.1
  have hsteps : ctx.device.allWires.length + 2 ≤ ctx.device.wireBound + 1 := by
    have := ctx.device.length_allWires
    omega
  obtain ⟨hsearch, hsize⟩ :=
    RouteTree.sweep_spec hsource (source.wire ctx.device) hall hsteps
  obtain ⟨hfound, last, htracks, hlast⟩ :=
    searchFrom_spec (s := (r, .ofList r.start?.toList)) (tracks_ofSource ctx net source) hwires
      (ctx.device.wireBound + 1)
  rw [← htree, ← hfound] at hsearch hsize
  have hfollows : (fun w c => c ∈ r.followed ctx w) = r.Follows ctx := by
    funext w c
    exact propext mem_followed
  have hle : found.1.tree.size ≤ last := by
    rcases hlast with hlast | hlast
    · exact hlast
    · have : found.1.tree.size < ctx.device.wireBound + 1 := hsize
      omega
  exact ⟨⟨hstart, hfollows ▸ hsearch, last, hle, htracks⟩, Nat.le_of_lt hsize⟩

/-- On a loaded device the search from a source comes to an end, with exactly the sinks and the
tree that it has to find, and more steps would not change that. -/
theorem build_finds {desc : DeviceDescription} (hd : Device.ofDescription desc = .ok ctx.device)
    (net : NetId) (source : Source) :
    let r := ofSource ctx.device net source
    Finds ctx r (source.site ctx.device) (r.build ctx) ∧
      ∀ more, searchFrom ctx (ctx.device.wireBound + 1 + more) 0 (r, .ofList r.start?.toList) =
        searchFrom ctx (ctx.device.wireBound + 1) 0 (r, .ofList r.start?.toList) := by
  obtain ⟨hsearched, hsize⟩ := searched_ofSource hd net source
  obtain ⟨v, hv⟩ := exists_wire_of_source ctx.device source
  exact ⟨hsearched.finds hv, fun more => searchFrom_add (by omega) more⟩

/-- A flip-flop whose output feeds back to its input and leaves the site over a site PIP. The way
on from the input is never taken. -/
def feedback : DeviceDescription where
  name := "feedback"
  family := .other
  tiles := [⟨"T", "CLB", []⟩]
  siteTypes := [⟨"SLICE", [
    ⟨"Q", [⟨"D", none, .wire⟩, ⟨"M", none, .pip⟩]⟩,
    ⟨"M", [⟨"Q", none, .wire⟩, ⟨"O", none, .wire⟩, ⟨"N", none, .pip⟩]⟩,
    ⟨"D", [⟨"N", none, .wire⟩]⟩,
    ⟨"N", []⟩],
    [⟨"FF", [⟨"Q", .output, "Q"⟩, ⟨"D", .input, "D"⟩]⟩],
    [⟨"O", .output, "O", "OUT"⟩]⟩]
  sites := [⟨"S", "SLICE", "T"⟩]

def feedbackContext (d : Device) : SiteContext where
  device := d
  netlist := { name := "top", mode := .regular, pinOfBelPin := (∅ : Table _ _).insert ⟨1⟩ ⟨0⟩ }
  usedPips := some (.ofList (d.wireNamed? "Q").toList)
  routethroughs := ∅

theorem build_finds_feedback : ∃ ctx, Device.ofDescription feedback = .ok ctx.device ∧
    let r := ofSource ctx.device ⟨2⟩ (.belPin ⟨0⟩ false)
    Finds ctx r ⟨0⟩ (r.build ctx) ∧ (r.build ctx).belPinSinks = [⟨1⟩] ∧
      (r.build ctx).sitePinSinks = [⟨0⟩] ∧
      (r.build ctx).tree.wires.map Wire.name = [⟨2⟩, ⟨0⟩, ⟨3⟩, ⟨1⟩] := by
  obtain ⟨d, hd⟩ : ∃ d, Device.ofDescription feedback = .ok d := ⟨_, rfl⟩
  have hfound : ((Device.ofDescription feedback).toOption.map fun d =>
      let found := (ofSource d ⟨2⟩ (.belPin ⟨0⟩ false)).build (feedbackContext d)
      (d.belPinSite ⟨0⟩, found.belPinSinks, found.sitePinSinks,
        found.tree.wires.map Wire.name)) =
        some (⟨0⟩, [⟨1⟩], [⟨0⟩], [⟨2⟩, ⟨0⟩, ⟨3⟩, ⟨1⟩]) := by
    decide +kernel
  rw [hd] at hfound
  simp only [Except.toOption, Option.map_some, Option.some.injEq, Prod.mk.injEq] at hfound
  obtain ⟨hsite, hbel, hpin, hwires⟩ := hfound
  have hctx : Device.ofDescription feedback = .ok (feedbackContext d).device := hd
  obtain ⟨hfinds, -⟩ := build_finds hctx ⟨2⟩ (.belPin ⟨0⟩ false)
  refine ⟨feedbackContext d, hctx, ?_, hbel, hpin, hwires⟩
  rw [← hsite]
  exact hfinds

end Fabric.SiteRoute
