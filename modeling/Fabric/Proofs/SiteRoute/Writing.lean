import Mathlib.Data.List.Basic
import Fabric.Proofs.Netlist.Resemblance
import Fabric.Proofs.SiteRoute.Entering
/-!
# What is written into nets

Entering a route puts pins on nets and writes into nets. A tree that is written again is not kept
twice, and of what is noted for a pin the last note stays. So a row of writes that is done again
changes nothing, and as pins join nets beside it, a run of both comes to the pins first and the
whole row after them.
-/

namespace Fabric

namespace Net

inductive Place
  | source
  | sitePin (p : SitePinId)
  | belPin (b : BelPinId)
deriving DecidableEq

def setPlace (net : Net) (i : Nat) : Place → Net
  | .source => net.setSourceRoute i
  | .sitePin p => net.setSitePinRoute p i
  | .belPin b => net.setBelPinRoute b i

def noted? (net : Net) : Place → Option Nat
  | .source => net.sourceRoute
  | .sitePin p => net.sitePinRoutes[p]?
  | .belPin b => net.belPinRoutes[b]?

def leave (net : Net) (pins : List SitePinId) : Net :=
  if net.sourceSitePins.isEmpty then pins.foldl addSourceSitePin net else net

inductive Write
  /-- Takes a tree in and notes its place. -/
  | note (t : RouteTree) (place : Place)
  | leave (pins : List SitePinId)
  | mark (q : PinId)

def write (net : Net) : Write → Net
  | .note t place => net.register t fun i net => net.setPlace i place
  | .leave pins => net.leave pins
  | .mark q => net.addRoutedSink q

def writes (net : Net) (ws : List Write) : Net := ws.foldl write net

def plain (net : Net) : Net :=
  { net with
    sourceSitePins := [], intrasite := [], sourceRoute := none, sitePinRoutes := ∅
    belPinRoutes := ∅, routedSinks := ∅ }

variable {net net' : Net} {t : RouteTree} {place : Place} {w : Write} {ws : List Write}

theorem ext_written (hplain : net.plain = net'.plain)
    (hpins : net.sourceSitePins = net'.sourceSitePins) (htrees : net.intrasite = net'.intrasite)
    (hnoted : ∀ place, net.noted? place = net'.noted? place)
    (hsinks : ∀ q, q ∈ net.routedSinks ↔ q ∈ net'.routedSinks) : net = net' := by
  have hsource : net.sourceRoute = net'.sourceRoute := hnoted .source
  have hsite : net.sitePinRoutes = net'.sitePinRoutes :=
    Std.ExtTreeMap.ext_getElem? fun p => hnoted (.sitePin p)
  have hbel : net.belPinRoutes = net'.belPinRoutes :=
    Std.ExtTreeMap.ext_getElem? fun b => hnoted (.belPin b)
  have hrouted : net.routedSinks = net'.routedSinks := Std.ExtTreeSet.ext_mem hsinks
  have hparts : ∀ net : Net, net =
      { net.plain with
        sourceSitePins := net.sourceSitePins, intrasite := net.intrasite
        sourceRoute := net.sourceRoute, sitePinRoutes := net.sitePinRoutes
        belPinRoutes := net.belPinRoutes, routedSinks := net.routedSinks } := fun _ => rfl
  rw [hparts net, hparts net', hplain, hpins, htrees, hsource, hsite, hbel, hrouted]

theorem exists_foldl_addSourceSitePin (pins : List SitePinId) (net : Net) :
    ∃ sourceSitePins, pins.foldl addSourceSitePin net = { net with sourceSitePins } := by
  induction pins generalizing net with
  | nil => exact ⟨_, rfl⟩
  | cons p pins ih =>
    obtain ⟨sourceSitePins, hrest⟩ := ih (net.addSourceSitePin p)
    refine ⟨sourceSitePins, hrest.trans ?_⟩
    unfold addSourceSitePin
    split <;> rfl

theorem exists_leave (net : Net) (pins : List SitePinId) :
    ∃ sourceSitePins, net.leave pins = { net with sourceSitePins } := by
  unfold leave
  split
  · exact exists_foldl_addSourceSitePin pins net
  · exact ⟨_, rfl⟩

theorem view_leave {α : Type} {f : Net → α}
    (hf : ∀ (net : Net) sourceSitePins, f { net with sourceSitePins } = f net) (net : Net)
    (pins : List SitePinId) : f (net.leave pins) = f net := by
  obtain ⟨sourceSitePins, heq⟩ := exists_leave net pins
  rw [heq, hf]

theorem plain_write (net : Net) (w : Write) : (net.write w).plain = net.plain := by
  cases w with
  | note t place =>
    have htree : (net.addIntrasite t).plain = net.plain := by
      unfold addIntrasite
      split <;> rfl
    cases place <;> exact htree
  | leave pins => exact view_leave (fun _ _ => rfl) net pins
  | mark q => rfl

theorem plain_writes (net : Net) (ws : List Write) : (net.writes ws).plain = net.plain := by
  induction ws generalizing net with
  | nil => rfl
  | cons w ws ih => exact (ih (net.write w)).trans (plain_write net w)

theorem view_writes {α : Type} {f : Net → α} (hf : ∀ net : Net, f net.plain = f net) (net : Net)
    (ws : List Write) : f (net.writes ws) = f net := by
  rw [← hf (net.writes ws), plain_writes, hf]

/-! ## Trees -/

theorem intrasite_setPlace (net : Net) (i : Nat) (place : Place) :
    (net.setPlace i place).intrasite = net.intrasite := by
  cases place <;> rfl

theorem intrasite_note (net : Net) (t : RouteTree) (place : Place) :
    (net.write (.note t place)).intrasite = (net.addIntrasite t).intrasite :=
  intrasite_setPlace ..

theorem intrasite_leave (net : Net) (pins : List SitePinId) :
    (net.write (.leave pins)).intrasite = net.intrasite :=
  view_leave (fun _ _ => rfl) net pins

theorem prefix_addIntrasite (net : Net) (t : RouteTree) :
    net.intrasite <+: (net.addIntrasite t).intrasite :=
  (Registers.addIntrasite net t).grows.intrasite

theorem prefix_write (net : Net) (w : Write) : net.intrasite <+: (net.write w).intrasite := by
  cases w with
  | note t place =>
    rw [intrasite_note]
    exact prefix_addIntrasite net t
  | leave pins => exact ⟨[], (List.append_nil _).trans (intrasite_leave net pins).symm⟩
  | mark q => exact List.prefix_rfl

theorem prefix_writes (net : Net) (ws : List Write) :
    net.intrasite <+: (net.writes ws).intrasite := by
  induction ws generalizing net with
  | nil => exact List.prefix_rfl
  | cons w ws ih => exact (prefix_write net w).trans (ih (net.write w))

theorem mem_intrasite_writes (h : .note t place ∈ ws) : t ∈ (net.writes ws).intrasite := by
  induction ws generalizing net with
  | nil => simp at h
  | cons w ws ih =>
    rcases List.mem_cons.1 h with rfl | h
    · have ht : t ∈ (net.write (.note t place)).intrasite := by
        rw [intrasite_note]
        exact SiteRoute.mem_addIntrasite net t
      exact (prefix_writes _ ws).subset ht
    · exact ih h

theorem intrasite_write_of_mem (h : ∀ t place, w = .note t place → t ∈ net.intrasite) :
    (net.write w).intrasite = net.intrasite := by
  cases w with
  | note t place =>
    have ht : t ∈ net.intrasite := h t place rfl
    rw [intrasite_note, addIntrasite, if_pos (List.contains_iff_mem.2 ht)]
  | leave pins => exact intrasite_leave net pins
  | mark q => rfl

theorem intrasite_writes_of_mem (h : ∀ t place, .note t place ∈ ws → t ∈ net.intrasite) :
    (net.writes ws).intrasite = net.intrasite := by
  induction ws generalizing net with
  | nil => rfl
  | cons w ws ih =>
    have hhead : (net.write w).intrasite = net.intrasite :=
      intrasite_write_of_mem fun t place hw => h t place (hw ▸ List.mem_cons_self)
    have hrest : ((net.write w).writes ws).intrasite = (net.write w).intrasite := by
      refine ih fun t place hmem => ?_
      rw [hhead]
      exact h t place (List.mem_cons_of_mem w hmem)
    exact hrest.trans hhead

theorem intrasiteIndex_of_prefix (h : (net.addIntrasite t).intrasite <+: net'.intrasite) :
    net'.intrasiteIndex t = net.intrasiteIndex t := by
  obtain ⟨more, hmore⟩ := h
  unfold intrasiteIndex
  rw [← List.idxOf_eq_getD_idxOf?, ← List.idxOf_eq_getD_idxOf?, ← hmore,
    List.idxOf_append_of_mem (SiteRoute.mem_addIntrasite net t)]
  unfold addIntrasite
  by_cases ht : t ∈ net.intrasite
  · rw [if_pos (List.contains_iff_mem.2 ht)]
  · rw [if_neg (by simpa using ht), List.idxOf_append_of_notMem ht, List.idxOf_cons_self,
      List.idxOf_eq_length ht]
    rfl

/-! ## Places -/

def Write.treeFor (place : Place) : Write → Option RouteTree
  | .note t place' => if place' = place then some t else none
  | .leave _ => none
  | .mark _ => none

def lastNoted (place : Place) : List Write → Option RouteTree
  | [] => none
  | w :: ws => (lastNoted place ws).or (w.treeFor place)

theorem noted?_setPlace (net : Net) (i : Nat) (place place' : Place) :
    (net.setPlace i place).noted? place' =
      if place = place' then some i else net.noted? place' := by
  cases place <;> cases place' <;>
    simp [setPlace, noted?, setSourceRoute, setSitePinRoute, setBelPinRoute,
      Std.ExtTreeMap.getElem?_insert, Std.LawfulEqCmp.compare_eq_iff_eq]

theorem noted?_addIntrasite (net : Net) (t : RouteTree) (place : Place) :
    (net.addIntrasite t).noted? place = net.noted? place := by
  unfold addIntrasite
  split
  · rfl
  · cases place <;> rfl

theorem noted?_write (net : Net) (w : Write) (place : Place) :
    (net.write w).noted? place =
      ((w.treeFor place).map net.intrasiteIndex).or (net.noted? place) := by
  cases w with
  | note t place' =>
    have hnote : (net.write (.note t place')).noted? place =
        if place' = place then some (net.intrasiteIndex t) else net.noted? place := by
      rw [← noted?_addIntrasite net t place]
      exact noted?_setPlace ..
    rw [hnote, Write.treeFor]
    split <;> rfl
  | leave pins =>
    refine view_leave (f := fun net => net.noted? place) (fun _ _ => ?_) net pins
    cases place <;> rfl
  | mark q => cases place <;> rfl

theorem eq_note_of_treeFor (h : w.treeFor place = some t) : w = .note t place := by
  cases w with
  | note t' place' =>
    obtain ⟨hplace, htree⟩ : place' = place ∧ t' = t := by simpa [Write.treeFor] using h
    rw [hplace, htree]
  | leave pins => cases h
  | mark q => cases h

/-- The last note for a place stays, and what was noted before is left where there is none. -/
theorem noted?_writes (net : Net) (ws : List Write) (place : Place) :
    (net.writes ws).noted? place =
      ((lastNoted place ws).map (net.writes ws).intrasiteIndex).or (net.noted? place) := by
  induction ws generalizing net with
  | nil => rfl
  | cons w ws ih =>
    have hindex : (w.treeFor place).map net.intrasiteIndex =
        (w.treeFor place).map ((net.write w).writes ws).intrasiteIndex := by
      cases htree : w.treeFor place with
      | none => rfl
      | some t =>
        obtain rfl := eq_note_of_treeFor htree
        have hprefix := prefix_writes (net.write (.note t place)) ws
        rw [intrasite_note] at hprefix
        rw [Option.map_some, Option.map_some, intrasiteIndex_of_prefix hprefix]
    calc ((net.write w).writes ws).noted? place
        = ((lastNoted place ws).map ((net.write w).writes ws).intrasiteIndex).or
            ((net.write w).noted? place) := ih (net.write w)
      _ = ((lastNoted place ws).map ((net.write w).writes ws).intrasiteIndex).or
            (((w.treeFor place).map ((net.write w).writes ws).intrasiteIndex).or
              (net.noted? place)) := by rw [noted?_write, hindex]
      _ = ((lastNoted place (w :: ws)).map ((net.write w).writes ws).intrasiteIndex).or
            (net.noted? place) := by rw [lastNoted, Option.map_or, Option.or_assoc]

/-! ## Sinks and source site pins -/

theorem mem_routedSinks_writes {q : PinId} :
    q ∈ (net.writes ws).routedSinks ↔ .mark q ∈ ws ∨ q ∈ net.routedSinks := by
  induction ws generalizing net with
  | nil => simp [writes]
  | cons w ws ih =>
    have hhead : q ∈ (net.write w).routedSinks ↔ w = .mark q ∨ q ∈ net.routedSinks := by
      cases w with
      | note t place =>
        have hsinks : (net.write (.note t place)).routedSinks = net.routedSinks := by
          have htree : (net.addIntrasite t).routedSinks = net.routedSinks :=
            (Registers.addIntrasite net t).routedSinks
          cases place <;> exact htree
        rw [hsinks]
        simp
      | leave pins =>
        have hsinks : (net.write (.leave pins)).routedSinks = net.routedSinks :=
          view_leave (fun _ _ => rfl) net pins
        rw [hsinks]
        simp
      | mark q' =>
        rw [write, addRoutedSink, Std.ExtTreeSet.mem_insert, Std.LawfulEqCmp.compare_eq_iff_eq,
          Write.mark.injEq]
    calc q ∈ ((net.write w).writes ws).routedSinks
        ↔ .mark q ∈ ws ∨ q ∈ (net.write w).routedSinks := ih
      _ ↔ .mark q ∈ w :: ws ∨ q ∈ net.routedSinks := by
        rw [hhead, List.mem_cons, @eq_comm _ w]
        tauto

theorem sourceSitePins_addSourceSitePin_ne_nil (net : Net) (p : SitePinId) :
    (net.addSourceSitePin p).sourceSitePins ≠ [] := by
  unfold addSourceSitePin
  split
  next hmem =>
    rintro hnil
    rw [hnil] at hmem
    cases hmem
  next => simp

theorem sourceSitePins_foldl_ne_nil {pins : List SitePinId} (net : Net) (hne : pins ≠ []) :
    (pins.foldl addSourceSitePin net).sourceSitePins ≠ [] := by
  obtain ⟨init, p, rfl⟩ := List.eq_nil_or_concat' pins |>.resolve_left hne
  rw [List.foldl_append]
  exact sourceSitePins_addSourceSitePin_ne_nil _ p

theorem sourceSitePins_write_of
    (h : net.sourceSitePins ≠ [] ∨ ∀ pins, w = .leave pins → pins = []) :
    (net.write w).sourceSitePins = net.sourceSitePins := by
  cases w with
  | note t place =>
    have htree : (net.addIntrasite t).sourceSitePins = net.sourceSitePins := by
      unfold addIntrasite
      split <;> rfl
    cases place <;> exact htree
  | leave pins =>
    unfold write leave
    dsimp only
    split
    next hempty =>
      have hnone : ¬ net.sourceSitePins ≠ [] := by simpa using hempty
      obtain rfl : pins = [] := h.resolve_left hnone pins rfl
      rfl
    next => rfl
  | mark q => rfl

theorem sourceSitePins_writes_of
    (h : net.sourceSitePins ≠ [] ∨ ∀ pins, .leave pins ∈ ws → pins = []) :
    (net.writes ws).sourceSitePins = net.sourceSitePins := by
  induction ws generalizing net with
  | nil => rfl
  | cons w ws ih =>
    have hhead : (net.write w).sourceSitePins = net.sourceSitePins :=
      sourceSitePins_write_of (h.imp_right fun h pins hw => h pins (hw ▸ List.mem_cons_self))
    have hrest : ((net.write w).writes ws).sourceSitePins = (net.write w).sourceSitePins := by
      refine ih ?_
      rw [hhead]
      exact h.imp_right fun h pins hmem => h pins (List.mem_cons_of_mem w hmem)
    exact hrest.trans hhead

theorem sourceSitePins_writes (net : Net) (ws : List Write) :
    (net.writes ws).sourceSitePins ≠ [] ∨ ∀ pins, .leave pins ∈ ws → pins = [] := by
  induction ws generalizing net with
  | nil => exact .inr fun _ h => by simp at h
  | cons w ws ih =>
    rcases ih (net.write w) with hpins | hnone
    · exact .inl hpins
    · by_cases hw : ∀ pins, w = .leave pins → pins = []
      · refine .inr fun pins hmem => ?_
        rcases List.mem_cons.1 hmem with hhead | hmem
        · exact hw pins hhead.symm
        · exact hnone pins hmem
      · push Not at hw
        obtain ⟨pins, rfl, hne⟩ := hw
        have hhead : (net.write (.leave pins)).sourceSitePins ≠ [] := by
          unfold write leave
          dsimp only
          split
          next => exact sourceSitePins_foldl_ne_nil net hne
          next hpins => simpa using hpins
        left
        show ((net.write (.leave pins)).writes ws).sourceSitePins ≠ []
        rw [sourceSitePins_writes_of (.inl hhead)]
        exact hhead

theorem extends_writes (net : Net) (ws : List Write) : net.Extends (net.writes ws) where
  name := view_writes (fun _ => rfl) net ws
  kind := view_writes (fun _ => rfl) net ws
  pins := ⟨[], (List.append_nil _).trans (view_writes (fun _ => rfl) net ws).symm⟩
  intrasite := prefix_writes net ws
  intersite := ⟨[], (List.append_nil _).trans (view_writes (fun _ => rfl) net ws).symm⟩
  routedSinks _ hq := mem_routedSinks_writes.2 (.inr hq)

/-! ## Rows of writes -/

/-- A row of writes changes nothing when it is done again. -/
theorem writes_writes (net : Net) (ws : List Write) :
    (net.writes ws).writes ws = net.writes ws := by
  have htrees : ((net.writes ws).writes ws).intrasite = (net.writes ws).intrasite :=
    intrasite_writes_of_mem fun _ _ => mem_intrasite_writes
  refine ext_written (plain_writes _ ws) ?_ htrees (fun place => ?_) fun q => ?_
  · exact sourceSitePins_writes_of (sourceSitePins_writes net ws)
  · have hindex : ((net.writes ws).writes ws).intrasiteIndex = (net.writes ws).intrasiteIndex := by
      funext t
      unfold intrasiteIndex
      rw [htrees]
    rw [noted?_writes (net.writes ws), hindex, noted?_writes net, ← Option.or_assoc, Option.or_self]
  · rw [mem_routedSinks_writes, mem_routedSinks_writes]
    tauto

theorem writes_append (net : Net) (ws ws' : List Write) :
    net.writes (ws ++ ws') = (net.writes ws).writes ws' :=
  List.foldl_append ..

def joined (net : Net) (pins : List PinId) (source : Option PinId) (status : RouteStatus) : Net :=
  { net with pins, source, status }

theorem write_joined (net : Net) (pins : List PinId) (source : Option PinId) (status : RouteStatus)
    (w : Write) :
    (net.joined pins source status).write w = (net.write w).joined pins source status := by
  cases w with
  | note t place =>
    have htree : (net.joined pins source status).addIntrasite t =
        (net.addIntrasite t).joined pins source status := by
      unfold addIntrasite
      rw [apply_ite fun net : Net => net.joined pins source status]
      rfl
    show ((net.joined pins source status).addIntrasite t).setPlace _ place = _
    rw [htree]
    cases place <;> rfl
  | leave leaving =>
    have hfold : leaving.foldl addSourceSitePin (net.joined pins source status) =
        (leaving.foldl addSourceSitePin net).joined pins source status := by
      refine List.foldl_hom (fun net : Net => net.joined pins source status) fun net p => ?_
      unfold addSourceSitePin
      rw [apply_ite fun net : Net => net.joined pins source status]
      rfl
    unfold write leave
    dsimp only
    rw [hfold, apply_ite fun net : Net => net.joined pins source status]
    rfl
  | mark q => rfl

theorem writes_joined (net : Net) (pins : List PinId) (source : Option PinId)
    (status : RouteStatus) (ws : List Write) :
    (net.joined pins source status).writes ws = (net.writes ws).joined pins source status :=
  List.foldl_hom (fun net : Net => net.joined pins source status)
    fun net w => write_joined net pins source status w

theorem writes_addPin (net : Net) (p : PinId) (dir : PinDir) (ws : List Write) :
    (net.addPin p dir).writes ws = (net.writes ws).addPin p dir := by
  have hkind : (net.writes ws).kind = net.kind := view_writes (fun _ => rfl) net ws
  have hpins : (net.writes ws).pins = net.pins := view_writes (fun _ => rfl) net ws
  have hsource : (net.writes ws).source = net.source := view_writes (fun _ => rfl) net ws
  have hstatus : (net.writes ws).status = net.status := view_writes (fun _ => rfl) net ws
  have hadd : ∀ net : Net, net.addPin p dir = net.joined (net.pins ++ [p])
      (if dir = .output ∧ net.source = none ∧ !net.isStatic then some p else net.source)
      net.status := fun _ => rfl
  rw [hadd, hadd, writes_joined, hpins, hsource, hstatus, isStatic_congr hkind]

theorem Resembles.writes_eq (h : net.Resembles net') (hws : net.writes ws = net) :
    net'.writes ws = net' := by
  have hnet' : net' = net.joined net.pins net.source net'.status :=
    congrArg (fun blurred : Net => { blurred with status := net'.status }) h.symm
  rw [hnet', writes_joined, hws]

end Net

namespace Netlist

def writesInto (n : NetId) (ws : List (NetId × Net.Write)) : List Net.Write :=
  (ws.filter fun w => w.1 = n).map Prod.snd

def writeAll (nl : Netlist) (ws : List (NetId × Net.Write)) : Netlist :=
  { nl with nets := nl.nets.mapIdx fun i net => net.map fun net => net.writes (writesInto ⟨i⟩ ws) }

variable {nl nl' nl'' : Netlist} {ws ws' : List (NetId × Net.Write)} {n : NetId}

theorem net?_writeAll (nl : Netlist) (ws : List (NetId × Net.Write)) (n : NetId) :
    (nl.writeAll ws).net? n = (nl.net? n).map fun net => net.writes (writesInto n ws) := by
  unfold writeAll net?
  rw [Array.getElem?_mapIdx, Option.join_map_eq_map_join]

@[simp] theorem isSome_net?_writeAll :
    ((nl.writeAll ws).net? n).isSome = (nl.net? n).isSome := by
  rw [net?_writeAll, Option.isSome_map]

theorem writesInto_append (n : NetId) (ws ws' : List (NetId × Net.Write)) :
    writesInto n (ws ++ ws') = writesInto n ws ++ writesInto n ws' := by
  unfold writesInto
  rw [List.filter_append, List.map_append]

theorem writesInto_map (n m : NetId) (ws : List Net.Write) :
    writesInto m (ws.map (n, ·)) = if n = m then ws else [] := by
  unfold writesInto
  rw [List.filter_map, List.map_map]
  by_cases hn : n = m
  · simp [hn, Function.comp_def]
  · simp [hn, Function.comp_def]

@[simp] theorem writeAll_nil (nl : Netlist) : nl.writeAll [] = nl := by
  refine congrArg (fun nets => { nl with nets }) (Array.ext_getElem? fun i => ?_)
  rw [Array.getElem?_mapIdx]
  cases nl.nets[i]? with
  | none => rfl
  | some net => cases net <;> rfl

theorem writeAll_append (nl : Netlist) (ws ws' : List (NetId × Net.Write)) :
    nl.writeAll (ws ++ ws') = (nl.writeAll ws).writeAll ws' := by
  refine congrArg (fun nets => { nl with nets }) (Array.ext_getElem? fun i => ?_)
  simp only [writeAll, Array.getElem?_mapIdx, Option.map_map, writesInto_append]
  congr 1
  funext net
  cases net with
  | none => rfl
  | some net => exact congrArg some (net.writes_append _ _)

theorem writeAll_writeAll (nl : Netlist) (ws : List (NetId × Net.Write)) :
    (nl.writeAll ws).writeAll ws = nl.writeAll ws := by
  refine congrArg (fun nets => { nl with nets }) (Array.ext_getElem? fun i => ?_)
  simp only [writeAll, Array.getElem?_mapIdx, Option.map_map]
  congr 1
  funext net
  cases net with
  | none => rfl
  | some net => exact congrArg some (net.writes_writes _)

theorem Extends.writeAll (nl : Netlist) (ws : List (NetId × Net.Write)) :
    nl.Extends (nl.writeAll ws) where
  net_stays n net hn := by
    rw [net?_writeAll, hn]
    exact ⟨_, rfl, net.extends_writes _⟩
  no_new_net n hn := by
    rw [net?_writeAll, hn]
    rfl
  pin_stays _ pin hp := ⟨pin, hp, .refl pin⟩
  mapping_stays _ _ hb := hb

theorem Consistent.writeAll (h : nl.Consistent) (ws : List (NetId × Net.Write)) :
    (nl.writeAll ws).Consistent := by
  refine h.congr (fun p => rfl) (fun n => ?_) h.pin_of_cell
  rw [net?_writeAll, Option.map_map]
  congr 1
  funext net
  exact Net.view_writes (fun _ => rfl) net _

theorem writeAll_eq_self_iff : nl.writeAll ws = nl ↔
    ∀ n net, nl.net? n = some net → net.writes (writesInto n ws) = net := by
  constructor
  · intro h n net hn
    have hnet := net?_writeAll nl ws n
    rw [h, hn, Option.map_some, Option.some.injEq] at hnet
    exact hnet.symm
  · intro h
    refine congrArg (fun nets => { nl with nets }) (Array.ext_getElem? fun i => ?_)
    rw [Array.getElem?_mapIdx]
    rcases hi : nl.nets[i]? with _ | _ | net
    · rfl
    · rfl
    · have hn : nl.net? ⟨i⟩ = some net := by
        unfold net?
        rw [hi, Option.join_some]
      exact congrArg (fun net => some (some net)) (h ⟨i⟩ net hn)

theorem writeAll_modifyNet_eq_self {f : Net → Net} (hf : ∀ net : Net, net.Resembles (f net))
    (n : NetId) (h : nl.writeAll ws = nl) : (nl.modifyNet n f).writeAll ws = nl.modifyNet n f := by
  rw [writeAll_eq_self_iff] at h ⊢
  intro m net hm
  rw [net?_modifyNet] at hm
  obtain ⟨old, hold, rfl⟩ := exists_of_ite_map hm
  split
  · exact (hf old).writes_eq (h m old hold)
  · exact h m old hold

theorem modifyNet_writes (nl : Netlist) (n : NetId) (ws : List Net.Write) :
    nl.modifyNet n (fun net => net.writes ws) = nl.writeAll (ws.map (n, ·)) := by
  refine congrArg (fun nets => { nl with nets }) (Array.ext_getElem? fun i => ?_)
  simp only [Array.getElem?_modify, Array.getElem?_mapIdx, writesInto_map, Key.ext_iff]
  by_cases hi : n.index = i
  · simp only [if_pos hi]
  · simp only [if_neg hi]
    cases nl.nets[i]? with
    | none => rfl
    | some net => cases net <;> rfl

theorem Closed.write (h : nl.Closed) (n : NetId) (w : Net.Write) :
    (nl.writeAll [(n, w)]).Closed := by
  have hwrite := modifyNet_writes nl n [w]
  rw [List.map_singleton] at hwrite
  rw [← hwrite]
  exact h.modifyNet n (fun net => Net.view_writes (fun _ => rfl) net _)
    fun net => Net.view_writes (fun _ => rfl) net _

/-- A pin that is on no net may join one before or after the writes. -/
theorem attach_writeAll {p : PinId} (hoff : nl.netOf? p = none) (n : NetId)
    (ws : List (NetId × Net.Write)) :
    (nl.writeAll ws).attach n p = (nl.attach n p).writeAll ws := by
  cases hp : nl.pin? p with
  | none =>
    have hp' : (nl.writeAll ws).pin? p = none := hp
    rw [attach_of_no_pin hp, attach_of_no_pin hp']
  | some pin =>
    have hp' : (nl.writeAll ws).pin? p = some pin := hp
    rw [attach_of_off hp hoff, attach_of_off hp' hoff]
    refine congrArg (fun nets => { nl.setPinNet p (some n) with nets })
      (Array.ext_getElem? fun i => ?_)
    simp only [modifyNet, setPinNet, modifyPin, writeAll, Array.getElem?_modify,
      Array.getElem?_mapIdx]
    by_cases hi : n.index = i
    · simp only [if_pos hi, Option.map_map]
      congr 1
      funext net
      cases net with
      | none => rfl
      | some net => exact congrArg some (net.writes_addPin p pin.dir _).symm
    · simp only [if_neg hi]

/-- Whatever rows were written before, the row `ws` comes behind them, while pins may join nets. -/
def Writes (ws : List (NetId × Net.Write)) (nl nl' : Netlist) : Prop :=
  ∀ (before : List (NetId × Net.Write)) (base : Netlist), nl = base.writeAll before →
    ∃ base' : Netlist, nl' = base'.writeAll (before ++ ws)

namespace Writes

theorem refl (nl : Netlist) : Writes [] nl nl := by
  intro before base hnl
  rw [List.append_nil]
  exact ⟨base, hnl⟩

theorem trans (h : Writes ws nl nl') (h' : Writes ws' nl' nl'') : Writes (ws ++ ws') nl nl'' := by
  intro before base hnl
  obtain ⟨mid, hmid⟩ := h before base hnl
  rw [← List.append_assoc]
  exact h' (before ++ ws) mid hmid

theorem writeAll (nl : Netlist) (ws : List (NetId × Net.Write)) :
    Writes ws nl (nl.writeAll ws) := by
  rintro before base rfl
  exact ⟨base, (writeAll_append base before ws).symm⟩

theorem attach {p : PinId} (hoff : nl.netOf? p = none) (n : NetId) :
    Writes [] nl (nl.attach n p) := by
  rintro before base rfl
  have hbase : base.netOf? p = none := hoff
  rw [List.append_nil]
  exact ⟨base.attach n p, attach_writeAll hbase n before⟩

theorem addPseudoPin (nl : Netlist) (c : CellId) (name : String) (dir : PinDir) :
    Writes [] nl (nl.addPseudoPin c name dir) := by
  rintro before base rfl
  rw [List.append_nil]
  exact ⟨base.addPseudoPin c name dir, rfl⟩

theorem mapPin (nl : Netlist) (p : PinId) (b : BelPinId) : Writes [] nl (nl.mapPin p b) := by
  rintro before base rfl
  rw [List.append_nil]
  exact ⟨base.mapPin p b, rfl⟩

/-- The row may be written again. -/
theorem again (h : Writes ws nl nl') : nl'.writeAll ws = nl' := by
  obtain ⟨base, rfl⟩ := h [] nl (writeAll_nil nl).symm
  exact writeAll_writeAll base ws

end Writes

end Netlist

end Fabric
