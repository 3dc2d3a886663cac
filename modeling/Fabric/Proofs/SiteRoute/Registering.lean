import Fabric.Proofs.SiteRoute.Indexed
import Fabric.Proofs.SiteRoute.Progress
/-!
# Where a route that starts at a BEL pin is registered

Such a route goes from net to net as the pins at its sinks lead it, and free pins join the net that
it has come to. In the end the tree is noted on its own net for the source and on the nets of the
sinks for these, and all that a net had before stays with it.
-/

namespace Fabric

namespace Net

variable {net : Net} {t : RouteTree} {place : Place} {ws : List Write}

/-! ## Rows that note one tree -/

theorem mem_of_lastNoted (h : lastNoted place ws = some t) : .note t place ∈ ws := by
  induction ws with
  | nil => cases h
  | cons w ws ih =>
    rcases Option.or_eq_some_iff.1 h with h | ⟨-, h⟩
    · exact List.mem_cons_of_mem w (ih h)
    · rw [eq_note_of_treeFor h]
      exact List.mem_cons_self

theorem lastNoted_isSome (h : .note t place ∈ ws) : (lastNoted place ws).isSome := by
  induction ws with
  | nil => cases h
  | cons w ws ih =>
    rw [lastNoted, Option.isSome_or, Bool.or_eq_true]
    rcases List.mem_cons.1 h with rfl | h
    · right
      rw [Write.treeFor, if_pos rfl]
      rfl
    · exact .inl (ih h)

theorem exists_noted (net : Net) (place : Place) (hall : ∀ t', .note t' place ∈ ws → t' = t)
    (h : .note t place ∈ ws) : ∃ i, (net.writes ws).noted? place = some i ∧
      (net.writes ws).intrasite[i]? = some t := by
  obtain ⟨t', hlast⟩ := Option.isSome_iff_exists.1 (lastNoted_isSome h)
  obtain rfl : t' = t := hall t' (mem_of_lastNoted hlast)
  refine ⟨(net.writes ws).intrasiteIndex t', ?_, ?_⟩
  · rw [noted?_writes, hlast, Option.map_some, Option.some_or]
  · have hget := getElem?_addIntrasite (net.writes ws) t'
    rwa [addIntrasite, if_pos (List.contains_iff_mem.2 (mem_intrasite_writes h))] at hget

/-! ## Source site pins -/

theorem sourceSitePins_foldl {pins : List SitePinId} (hpins : pins.Nodup)
    (hnew : ∀ p ∈ pins, p ∉ net.sourceSitePins) :
    (pins.foldl addSourceSitePin net).sourceSitePins = net.sourceSitePins ++ pins := by
  induction pins generalizing net with
  | nil => exact (List.append_nil _).symm
  | cons p pins ih =>
    obtain ⟨hp, hpins⟩ := List.nodup_cons.1 hpins
    obtain ⟨hfree, hnew⟩ := List.forall_mem_cons.1 hnew
    have hhead : (net.addSourceSitePin p).sourceSitePins = net.sourceSitePins ++ [p] := by
      rw [addSourceSitePin, if_neg (by simpa using hfree)]
    rw [List.foldl_cons, ih hpins, hhead, List.append_assoc, List.singleton_append]
    intro q hq hmem
    rw [hhead, List.mem_append, List.mem_singleton] at hmem
    rcases hmem with hmem | rfl
    · exact hnew q hq hmem
    · exact hp hq

theorem sourceSitePins_leave {pins : List SitePinId} (hpins : pins.Nodup) (net : Net) :
    (net.leave pins).sourceSitePins =
      if net.sourceSitePins = [] then pins else net.sourceSitePins := by
  unfold leave
  by_cases hnone : net.sourceSitePins = []
  · have hnew : ∀ p ∈ pins, p ∉ net.sourceSitePins := by simp [hnone]
    rw [if_pos (List.isEmpty_iff.2 hnone), if_pos hnone, sourceSitePins_foldl hpins hnew, hnone,
      List.nil_append]
  · rw [if_neg (by simpa using hnone), if_neg hnone]

end Net

namespace Netlist

variable {nl nl' nl'' : Netlist} {ws ws' : List (NetId × Net.Write)}

theorem notedTree_of_noted {n : NetId} {net : Net} {place : Net.Place} {i : Nat} {t : RouteTree}
    (hn : nl.net? n = some net) (hi : net.noted? place = some i)
    (ht : net.intrasite[i]? = some t) :
    nl.notedTree n (fun net => net.noted? place) = .ok (some t) := by
  unfold notedTree
  rw [getNet_eq_ok.2 hn, Checked.ok_bind]
  dsimp only
  rw [hi]
  dsimp only
  rw [ht]
  rfl

/-! ## Rows of writes while pins join nets -/

def Takes (ws : List (NetId × Net.Write)) (nl nl' : Netlist) : Prop :=
  ∀ n net, nl.net? n = some net → ∃ pins source,
    nl'.net? n = some ((net.writes (writesInto n ws)).joined pins source net.status) ∧
      ((∀ w ∈ ws, w.1 ≠ n) → pins = net.pins ∧ source = net.source)

namespace Takes

theorem writeAll (nl : Netlist) (ws : List (NetId × Net.Write)) : Takes ws nl (nl.writeAll ws) := by
  intro n net hn
  refine ⟨net.pins, net.source, ?_, fun _ => ⟨rfl, rfl⟩⟩
  have hpins : (net.writes (writesInto n ws)).pins = net.pins :=
    Net.view_writes (fun _ => rfl) net _
  have hsource : (net.writes (writesInto n ws)).source = net.source :=
    Net.view_writes (fun _ => rfl) net _
  have hstatus : (net.writes (writesInto n ws)).status = net.status :=
    Net.view_writes (fun _ => rfl) net _
  rw [net?_writeAll, hn, Option.map_some, ← hpins, ← hsource, ← hstatus]
  rfl

theorem refl (nl : Netlist) : Takes [] nl nl := by
  have h := writeAll nl []
  rwa [writeAll_nil] at h

theorem trans (h : Takes ws nl nl') (h' : Takes ws' nl' nl'') : Takes (ws ++ ws') nl nl'' := by
  intro n net hn
  obtain ⟨pins, source, hn', hsame⟩ := h n net hn
  obtain ⟨pins', source', hn'', hsame'⟩ := h' n _ hn'
  refine ⟨pins', source', ?_, fun hws => ?_⟩
  · rw [hn'', writesInto_append, Net.writes_append, Net.writes_joined]
    rfl
  · obtain ⟨hpins, hsource⟩ := hsame fun w hw => hws w (List.mem_append_left _ hw)
    obtain ⟨hpins', hsource'⟩ := hsame' fun w hw => hws w (List.mem_append_right _ hw)
    exact ⟨hpins'.trans hpins, hsource'.trans hsource⟩

theorem net?_eq (h : Takes ws nl nl') (hnew : ∀ n, nl.net? n = none → nl'.net? n = none)
    {n : NetId} (hn : ∀ w ∈ ws, w.1 ≠ n) : nl'.net? n = nl.net? n := by
  cases hnet : nl.net? n with
  | none => exact hnew n hnet
  | some net =>
    obtain ⟨pins, source, hn', hsame⟩ := h n net hnet
    obtain ⟨rfl, rfl⟩ := hsame hn
    have hnone : writesInto n ws = [] := by
      unfold writesInto
      rw [List.filter_eq_nil_iff.2 fun w hw => by simpa using hn w hw, List.map_nil]
    rw [hn', hnone]
    rfl

theorem notedTree (h : Takes ws nl nl') {n : NetId} (hn : (nl.net? n).isSome) {place : Net.Place}
    {t : RouteTree} (hall : ∀ m t', (m, .note t' place) ∈ ws → t' = t)
    (hmem : (n, .note t place) ∈ ws) :
    nl'.notedTree n (fun net => net.noted? place) = .ok (some t) := by
  obtain ⟨net, hnet⟩ := Option.isSome_iff_exists.1 hn
  obtain ⟨pins, source, hn', -⟩ := h n net hnet
  have hinto : ∀ w, w ∈ writesInto n ws ↔ (n, w) ∈ ws := by
    intro w
    simp [writesInto]
  obtain ⟨i, hi, hget⟩ := net.exists_noted place
    (fun t' ht' => hall n t' ((hinto _).1 ht')) ((hinto _).2 hmem)
  refine notedTree_of_noted hn' ?_ hget
  rw [← hi]
  cases place <;> rfl

end Takes

end Netlist

namespace SiteRoute

open Netlist (Takes)

variable {d : Device} {r : SiteRoute} {nl nl' : Netlist} {n : NetId} {b : BelPinId}

/-! ## Going from sink to sink -/

/-- A net that a free pin joins is the one that the sink is noted with. -/
theorem Passes.takes {m : NetId} {mid : Netlist} (h : Passes nl n b m mid) (w : Net.Write) :
    Takes [(m, w)] nl (mid.writeAll [(m, w)]) := by
  cases h with
  | free => exact .writeAll nl _
  | other => exact .writeAll nl _
  | @join q _ hq hoff =>
    obtain ⟨pin, hpin⟩ := Option.isSome_iff_exists.1 hq
    intro k net hk
    have hjoined := Netlist.net?_attach_of_off (n := n) hpin hoff k
    by_cases hkn : k = n
    · subst hkn
      rw [if_pos rfl, hk, Option.map_some] at hjoined
      obtain ⟨pins, source, hlast, -⟩ := Takes.writeAll (nl.attach k q) [(k, w)] k _ hjoined
      refine ⟨pins, source, ?_, fun hws => absurd rfl (hws (k, w) (List.mem_singleton.2 rfl))⟩
      rw [hlast, Net.writes_addPin]
      rfl
    · rw [if_neg hkn, hk] at hjoined
      exact Takes.writeAll (nl.attach n q) [(n, w)] k net hjoined

theorem starting_takes {bs : List BelPinId} {m : NetId} {later : Netlist}
    (h : bs.foldlM r.applyStarting (n, nl) = .ok (m, nl')) (hlater : nl'.Advances later) :
    Takes (writesFrom r.tree later n bs) nl nl' := by
  induction bs generalizing n nl with
  | nil =>
    cases h
    exact .refl _
  | cons b bs ih =>
    rw [List.foldlM_cons] at h
    obtain ⟨⟨k, first⟩, hfirst, hrest⟩ := Checked.bind_eq_ok.1 h
    obtain ⟨mid, hpass, -, rfl⟩ := applyStarting_eq_ok.1 hfirst
    have hon := (starting_spec hrest hlater).1
    have hmid : mid.Advances later :=
      ((Netlist.Advances.writeAll mid _).trans hon).trans hlater
    rw [writesFrom, hpass.nextNet hmid]
    exact (hpass.takes _).trans (ih hrest)

theorem writesFrom_eq_map {t : RouteTree} {bs : List BelPinId}
    (hbs : ∀ b ∈ bs, ∃ q m, nl.pinAt? b = some q ∧ nl.netOf? q = some m) (n start : NetId) :
    writesFrom t nl n bs = bs.map fun b => (nextNet nl start b, .note t (.belPin b)) := by
  induction bs generalizing n with
  | nil => rfl
  | cons b bs ih =>
    obtain ⟨⟨q, m, hq, hm⟩, hbs⟩ := List.forall_mem_cons.1 hbs
    rw [writesFrom, ih hbs, List.map_cons, nextNet_eq hq hm, nextNet_eq hq hm]

/-! ## Leaving the source -/

theorem departure_of_signal (d : Device) {net : Net} (hn : nl.net? r.net = some net)
    (hsignal : net.isStatic = false) :
    departure d r nl = (sourceWrites d r).map (r.net, ·) := by
  unfold departure
  rw [hn, Option.any_some, hsignal]
  rfl

theorem sourceSitePins_sourceWrites (hpins : r.sitePinSinks.Nodup)
    (hout : ∀ p ∈ r.sitePinSinks, (d.sitePinDir p).isOutput) (net : Net) :
    (net.writes (sourceWrites d r)).sourceSitePins =
      if net.sourceSitePins = [] then r.sitePinSinks else net.sourceSitePins := by
  let noted := net.write (.note r.tree .source)
  have hnoted : noted.sourceSitePins = net.sourceSitePins :=
    Net.sourceSitePins_write_of (.inr fun _ h => by cases h)
  have hexits : (r.sitePinSinks.filter fun p => (d.sitePinDir p).isOutput) = r.sitePinSinks :=
    List.filter_eq_self.2 hout
  calc (net.writes (sourceWrites d r)).sourceSitePins
      = ((noted.leave (r.sitePinSinks.filter fun p => (d.sitePinDir p).isOutput)).writes
          (r.sitePinSinks.map fun p => .note r.tree (.sitePin p))).sourceSitePins := rfl
    _ = (noted.leave r.sitePinSinks).sourceSitePins := by
        rw [hexits]
        exact Net.sourceSitePins_writes_of (.inr fun _ h => by simp at h)
    _ = if net.sourceSitePins = [] then r.sitePinSinks else net.sourceSitePins := by
        rw [Net.sourceSitePins_leave hpins, hnoted]

/-! ## Registered routes -/

/-- How a route that starts at a BEL pin is found with the nets after it has been entered. -/
structure Registered (r : SiteRoute) (nl nl' : Netlist) : Prop where
  /-- Every sink has a pin on a net, and this net comes to the sink with the tree. -/
  belPins : ∀ b ∈ r.belPinSinks, ∃ q m, nl'.pinAt? b = some q ∧ nl'.netOf? q = some m ∧
    (nl'.net? m).isSome ∧ nl'.belPinTree m b = .ok (some r.tree)
  pins_stay : ∀ q m, nl.netOf? q = some m → nl'.netOf? q = some m
  /-- A net that is no constant starts with the tree and comes to the site pins with it. It is
  left through the site pins if it was left through none. -/
  source : ∀ net, nl.net? r.net = some net → net.isStatic = false →
    nl'.sourceTree r.net = .ok (some r.tree) ∧
    (∀ p ∈ r.sitePinSinks, nl'.sitePinTree r.net p = .ok (some r.tree)) ∧
    ∃ net', nl'.net? r.net = some net' ∧ net'.sourceSitePins =
      if net.sourceSitePins = [] then r.sitePinSinks else net.sourceSitePins
  /-- Other nets than that of the route and those of the sinks stay as they are. -/
  others : ∀ m, m ≠ r.net →
    (∀ b ∈ r.belPinSinks, ∀ q, nl'.pinAt? b = some q → nl'.netOf? q ≠ some m) →
    nl'.net? m = nl.net? m

theorem eq_tree_of_mem_writes {later : Netlist} {m : NetId} {t : RouteTree} {place : Net.Place}
    (h : (m, .note t place) ∈ departure d r nl ++ writesFrom r.tree later n r.belPinSinks) :
    t = r.tree := by
  have hfrom : ∀ bs n, (m, .note t place) ∈ writesFrom r.tree later n bs → t = r.tree := by
    intro bs
    induction bs with
    | nil => intro n h; cases h
    | cons b bs ih =>
      intro n h
      rcases List.mem_cons.1 h with h | h
      · cases h
        rfl
      · exact ih _ h
  rcases List.mem_append.1 h with h | h
  · unfold departure at h
    split at h
    · cases h
    · obtain ⟨w, hw, heq⟩ := List.mem_map.1 h
      obtain ⟨-, rfl⟩ := Prod.mk.inj heq
      simp only [sourceWrites, List.mem_cons, List.mem_map, reduceCtorEq, false_or,
        Net.Write.note.injEq] at hw
      obtain ⟨rfl, -⟩ | ⟨p, -, rfl, -⟩ := hw <;> rfl
  · exact hfrom _ n h

section takes

variable (htakes : Takes (departure d r nl ++ writesFrom r.tree nl' r.net r.belPinSinks) nl nl')

include htakes

theorem notedTree_of_takes (place : Net.Place) {m : NetId} (hm : (nl.net? m).isSome)
    (hmem : (m, .note r.tree place) ∈
      departure d r nl ++ writesFrom r.tree nl' r.net r.belPinSinks) :
    nl'.notedTree m (fun net => net.noted? place) = .ok (some r.tree) :=
  htakes.notedTree hm (fun _ _ => eq_tree_of_mem_writes) hmem

theorem sourceTrees_of_takes {net : Net} (hnet : nl.net? r.net = some net)
    (hsignal : net.isStatic = false) :
    nl'.sourceTree r.net = .ok (some r.tree) ∧
      ∀ p ∈ r.sitePinSinks, nl'.sitePinTree r.net p = .ok (some r.tree) := by
  have hn : (nl.net? r.net).isSome := Option.isSome_iff_exists.2 ⟨net, hnet⟩
  have hleft : ∀ w ∈ sourceWrites d r,
      (r.net, w) ∈ departure d r nl ++ writesFrom r.tree nl' r.net r.belPinSinks := by
    intro w hw
    rw [departure_of_signal d hnet hsignal]
    exact List.mem_append_left _ (List.mem_map.2 ⟨w, hw, rfl⟩)
  refine ⟨notedTree_of_takes htakes .source hn (hleft _ List.mem_cons_self), fun p hp => ?_⟩
  refine notedTree_of_takes htakes (.sitePin p) hn (hleft _ ?_)
  exact List.mem_cons_of_mem _ (List.mem_cons_of_mem _ (List.mem_map.2 ⟨p, hp, rfl⟩))

variable (hat : ∀ b ∈ r.belPinSinks, ∃ q m, nl'.pinAt? b = some q ∧ nl'.netOf? q = some m)

include hat

theorem belPinTree_of_takes (hb : b ∈ r.belPinSinks) {q : PinId} {m : NetId}
    (hq : nl'.pinAt? b = some q) (hm : nl'.netOf? q = some m) (hlive : (nl.net? m).isSome) :
    nl'.belPinTree m b = .ok (some r.tree) := by
  refine notedTree_of_takes htakes (.belPin b) hlive (List.mem_append_right _ ?_)
  rw [writesFrom_eq_map hat r.net r.net]
  exact List.mem_map.2 ⟨b, hb, by rw [nextNet_eq hq hm]⟩

theorem sourceSitePins_of_takes (hexits : r.sitePinSinks.Nodup)
    (hout : ∀ p ∈ r.sitePinSinks, (d.sitePinDir p).isOutput) {net : Net}
    (hnet : nl.net? r.net = some net) (hsignal : net.isStatic = false) :
    ∃ net', nl'.net? r.net = some net' ∧ net'.sourceSitePins =
      if net.sourceSitePins = [] then r.sitePinSinks else net.sourceSitePins := by
  obtain ⟨pins, source, hnet', -⟩ := htakes r.net net hnet
  refine ⟨_, hnet', ?_⟩
  show (net.writes (Netlist.writesInto r.net _)).sourceSitePins = _
  rw [Netlist.writesInto_append, departure_of_signal d hnet hsignal, Netlist.writesInto_map,
    if_pos rfl, Net.writes_append, writesFrom_eq_map hat r.net r.net,
    Net.sourceSitePins_writes_of, sourceSitePins_sourceWrites hexits hout]
  refine .inr fun pins hmem => ?_
  simp [Netlist.writesInto] at hmem

theorem net?_of_takes (hon : nl.Extends nl') {m : NetId} (hm : m ≠ r.net)
    (hother : ∀ b ∈ r.belPinSinks, ∀ q, nl'.pinAt? b = some q → nl'.netOf? q ≠ some m) :
    nl'.net? m = nl.net? m := by
  refine htakes.net?_eq hon.no_new_net fun w hw => ?_
  rcases List.mem_append.1 hw with hw | hw
  · unfold departure at hw
    split at hw
    · cases hw
    · obtain ⟨_, -, rfl⟩ := List.mem_map.1 hw
      exact hm.symm
  · rw [writesFrom_eq_map hat r.net r.net] at hw
    obtain ⟨b, hb, rfl⟩ := List.mem_map.1 hw
    obtain ⟨q, k, hq, hk⟩ := hat b hb
    rintro rfl
    exact hother b hb q hq (by rw [hk, nextNet_eq hq hk])

/-- What is written for the source and at the sinks tells how the route is found. -/
theorem registered_of_takes (hon : nl.Extends nl')
    (hlive : ∀ q m, nl'.netOf? q = some m → (nl'.net? m).isSome)
    (hexits : r.sitePinSinks.Nodup) (hout : ∀ p ∈ r.sitePinSinks, (d.sitePinDir p).isOutput) :
    r.Registered nl nl' where
  belPins b hb := by
    obtain ⟨q, m, hq, hm⟩ := hat b hb
    have hn : (nl.net? m).isSome := (hon.isSome_net? m).symm.trans (hlive q m hm)
    exact ⟨q, m, hq, hm, hlive q m hm, belPinTree_of_takes htakes hat hb hq hm hn⟩
  pins_stay _ _ := hon.netOf?
  source net hnet hsignal := by
    obtain ⟨hsource, hsitePins⟩ := sourceTrees_of_takes htakes hnet hsignal
    exact ⟨hsource, hsitePins, sourceSitePins_of_takes htakes hat hexits hout hnet hsignal⟩
  others _ := net?_of_takes htakes hat hon

end takes

/-- A route whose sinks have pins is entered without a fault, and then it is found with the nets. -/
theorem exists_registered {pin : BelPinId} {contained : Bool}
    (hsource : r.source = .belPin pin contained) (h : nl.Consistent)
    (hn : (nl.net? r.net).isSome)
    (hsinks : ∀ b ∈ r.belPinSinks, ∃ q, nl.pinAt? b = some q ∧ (nl.pin? q).isSome)
    (hexits : r.sitePinSinks.Nodup) (hout : ∀ p ∈ r.sitePinSinks, (d.sitePinDir p).isOutput) :
    ∃ m nl', r.apply d nl = .ok (m, nl') ∧ r.Registered nl nl' := by
  have hpins : ∀ b ∈ r.belPinSinks, ∀ q, nl.pinAt? b = some q → (nl.pin? q).isSome := by
    intro b hb q hq
    obtain ⟨q', hq', hlive⟩ := hsinks b hb
    obtain rfl : q' = q := Option.some.inj (hq'.symm.trans hq)
    exact hlive
  obtain ⟨m, nl', happly, -⟩ := exists_apply_starting (d := d) hsource h hn hpins
  obtain ⟨-, hfold⟩ := (apply_starting_eq_ok hsource).1 happly
  obtain ⟨hon, hlanded, -, -⟩ := starting_spec hfold (.refl nl')
  have hadvances : nl.Advances nl' := (Netlist.Advances.writeAll nl _).trans hon
  have hat : ∀ b ∈ r.belPinSinks, ∃ q m, nl'.pinAt? b = some q ∧ nl'.netOf? q = some m := by
    intro b hb
    obtain ⟨q, hq, -⟩ := hsinks b hb
    have hq' : nl'.pinAt? b = some q := (hadvances.pinAt? b).trans hq
    obtain ⟨m, hm, -⟩ := hlanded b hb q hq'
    exact ⟨q, m, hq', hm⟩
  have hc : nl'.Consistent := consistent_of_enters (enters_of_apply happly) h
  refine ⟨m, nl', happly, ?_⟩
  exact registered_of_takes ((Takes.writeAll nl _).trans (starting_takes hfold (.refl nl'))) hat
    hadvances.toExtends (fun _ _ => hc.live_net) hexits hout

end SiteRoute

end Fabric
