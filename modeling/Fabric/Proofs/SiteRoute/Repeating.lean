import Fabric.Proofs.Netlist.Placement
import Fabric.Proofs.SiteRoute.Search
import Fabric.Proofs.SiteRoute.Writing
/-!
# Routes that are entered again

A route that has been entered once leads to the same nets when it is entered again: the pins at its
sinks are on nets by then, and they stay there. So what it writes can be told from the netlist in
the end, and when it comes again it writes the same row and nothing else.
-/

namespace Fabric

namespace Netlist

variable {nl nl' nl'' : Netlist}

structure Advances (nl nl' : Netlist) : Prop extends nl.Extends nl' where
  pinOfBelPin : nl'.pinOfBelPin = nl.pinOfBelPin
  usedSitePips : nl'.usedSitePips = nl.usedSitePips
  sitePipValues : nl'.sitePipValues = nl.sitePipValues

namespace Advances

theorem refl (nl : Netlist) : nl.Advances nl := ⟨.refl nl, rfl, rfl, rfl⟩

theorem trans (h : nl.Advances nl') (h' : nl'.Advances nl'') : nl.Advances nl'' where
  toExtends := h.toExtends.trans h'.toExtends
  pinOfBelPin := h'.pinOfBelPin.trans h.pinOfBelPin
  usedSitePips := h'.usedSitePips.trans h.usedSitePips
  sitePipValues := h'.sitePipValues.trans h.sitePipValues

theorem pinAt? (h : nl.Advances nl') (b : BelPinId) : nl'.pinAt? b = nl.pinAt? b := by
  unfold Netlist.pinAt?
  rw [h.pinOfBelPin]

theorem writeAll (nl : Netlist) (ws : List (NetId × Net.Write)) : nl.Advances (nl.writeAll ws) :=
  ⟨.writeAll nl ws, rfl, rfl, rfl⟩

theorem attach_of_off {p : PinId} (hoff : nl.netOf? p = none) (n : NetId) :
    nl.Advances (nl.attach n p) := by
  refine ⟨.attach_of_off n hoff, (Still.attach (C := True) nl n p).pinOfBelPin, ?_, ?_⟩
  all_goals
    cases hp : nl.pin? p with
    | none => rw [attach_of_no_pin hp]
    | some pin =>
      rw [Netlist.attach_of_off hp hoff]
      rfl

end Advances

theorem connect_of_off {n : NetId} {p : PinId} (hoff : nl.netOf? p = none) :
    nl.connect n p = .ok nl' ↔
      (nl.pin? p).isSome ∧ (nl.net? n).isSome ∧ nl' = nl.attach n p := by
  rw [connect_eq_ok, hoff]
  simp

end Netlist

namespace SiteRoute

variable {d : Device} {r : SiteRoute} {nl nl' : Netlist}

/-! ## Searching again -/

theorem source_offerBelPin (ctx : SiteContext) (r : SiteRoute) (p : BelPinId) (node : Nat) :
    (r.offerBelPin ctx p node).source = r.source := by
  unfold offerBelPin
  split <;> rfl

theorem source_offerSitePin (r : SiteRoute) (p : SitePinId) (node : Nat) :
    (r.offerSitePin p node).source = r.source := by
  unfold offerSitePin
  split <;> rfl

theorem source_follow (ctx : SiteContext) (node : Nat) (s : Search) (c : Connection) :
    (follow ctx node s c).1.source = s.1.source := by
  unfold follow
  split
  dsimp only
  split <;> rfl

theorem source_foldl_follow (ctx : SiteContext) (node : Nat) (cs : List Connection) (s : Search) :
    (cs.foldl (follow ctx node) s).1.source = s.1.source := by
  induction cs generalizing s with
  | nil => rfl
  | cons c cs ih => exact (ih (follow ctx node s c)).trans (source_follow ctx node s c)

theorem source_expand (ctx : SiteContext) (node : Nat) (w : Wire) (s : Search) :
    (expand ctx node w s).1.source = s.1.source := by
  obtain ⟨r, visited⟩ := s
  unfold expand
  dsimp only
  split
  · cases ctx.device.terminal? w with
    | none => rfl
    | some p => exact source_offerBelPin ctx r p node
  · split
    · cases ctx.device.pinAhead? w with
      | none => rfl
      | some p => exact source_offerSitePin r p node
    · exact source_foldl_follow ctx node _ (r, visited)

/-- A search that takes sinks of any net sees of a netlist only which BEL pins are in use, and
one that comes in to unused BEL pins does not see that. -/
structure Unseen (source : Source) (nl nl' : Netlist) : Prop where
  any_net : ∀ pin, source ≠ .sitePin pin false
  used : (∃ pin, source = .sitePin pin true) ∨ ∀ b, nl'.isUsed b = nl.isUsed b

theorem Unseen.endsAtBelPin (h : Unseen r.source nl nl') {ctx : SiteContext}
    (hctx : ctx.netlist = nl) (w : Wire) :
    r.endsAtBelPin { ctx with netlist := nl' } w = r.endsAtBelPin ctx w := by
  subst hctx
  unfold SiteRoute.endsAtBelPin
  rcases h.used with ⟨pin, hpin⟩ | hused
  · rw [hpin]
    rfl
  · simp only [hused]

theorem Unseen.acceptsBelPin (h : Unseen r.source nl nl') (ctx : SiteContext) (p : BelPinId) :
    r.acceptsBelPin { ctx with netlist := nl' } p = r.acceptsBelPin ctx p := by
  have hany := h.any_net
  unfold SiteRoute.acceptsBelPin
  rcases hs : r.source with ⟨pin, _ | _⟩ | ⟨pin, contained⟩
  · exact absurd hs (hany pin)
  · rfl
  · rfl

theorem Unseen.expand {s : Search} (h : Unseen s.1.source nl nl') {ctx : SiteContext}
    (hctx : ctx.netlist = nl) (node : Nat) (w : Wire) :
    expand { ctx with netlist := nl' } node w s = expand ctx node w s := by
  obtain ⟨r, visited⟩ := s
  have hoffer : ∀ p,
      r.offerBelPin { ctx with netlist := nl' } p node = r.offerBelPin ctx p node := by
    intro p
    unfold offerBelPin
    rw [h.acceptsBelPin]
  unfold SiteRoute.expand
  dsimp only
  rw [h.endsAtBelPin hctx]
  simp only [hoffer]
  rfl

/-- What a search does not see does not change what it finds. -/
theorem Unseen.build (h : Unseen r.source nl nl') {ctx : SiteContext} (hctx : ctx.netlist = nl) :
    r.build { ctx with netlist := nl' } = r.build ctx := by
  have hsearch : ∀ steps node (s : Search), Unseen s.1.source nl nl' →
      searchFrom { ctx with netlist := nl' } steps node s = searchFrom ctx steps node s := by
    intro steps
    induction steps with
    | zero => exact fun _ _ _ => rfl
    | succ steps ih =>
      intro node s hs
      unfold searchFrom
      split
      · rfl
      next w _ =>
        rw [hs.expand hctx]
        apply ih
        rw [source_expand]
        exact hs
  unfold SiteRoute.build
  rw [hsearch _ _ _ h]

/-! ## What a route writes -/

def nextNet (nl : Netlist) (n : NetId) (b : BelPinId) : NetId :=
  ((nl.pinAt? b).bind nl.netOf?).getD n

theorem nextNet_eq {b : BelPinId} {q : PinId} {m : NetId} (hq : nl.pinAt? b = some q)
    (hm : nl.netOf? q = some m) (n : NetId) : nextNet nl n b = m := by
  unfold nextNet
  rw [hq, Option.bind_some, hm, Option.getD_some]

def writesFrom (t : RouteTree) (nl : Netlist) :
    NetId → List BelPinId → List (NetId × Net.Write)
  | _, [] => []
  | n, b :: bs =>
    (nextNet nl n b, .note t (.belPin b)) :: writesFrom t nl (nextNet nl n b) bs

def sourceWrites (d : Device) (r : SiteRoute) : List Net.Write :=
  .note r.tree .source :: .leave (r.sitePinSinks.filter fun p => (d.sitePinDir p).isOutput) ::
    r.sitePinSinks.map fun p => .note r.tree (.sitePin p)

def lastNet (r : SiteRoute) (nl : Netlist) : NetId := r.belPinSinks.foldl (nextNet nl) r.net

def marks (n : NetId) (r : SiteRoute) (nl : Netlist) : List (NetId × Net.Write) :=
  ((r.sinkPins nl).map .mark).map (n, ·)

theorem writes_notes {i : Nat} {net : Net} {t : RouteTree} (hi : net.intrasiteIndex t = i)
    (ht : t ∈ net.intrasite) (ps : List SitePinId) :
    net.writes (ps.map fun p => .note t (.sitePin p)) =
      ps.foldl (fun net p => net.setSitePinRoute p i) net := by
  induction ps generalizing net with
  | nil => rfl
  | cons p ps ih =>
    have hhead : net.write (.note t (.sitePin p)) = net.setSitePinRoute p i := by
      show (net.addIntrasite t).setSitePinRoute p (net.intrasiteIndex t) = _
      rw [hi, Net.addIntrasite, if_pos (List.contains_iff_mem.2 ht)]
    rw [List.foldl_cons, ← hhead]
    refine ih ?_ ?_
    · rw [hhead]
      exact hi
    · rw [hhead]
      exact ht

theorem register_source (d : Device) (r : SiteRoute) (net : Net) :
    net.register r.tree (fun i net => net.registerSource d i r.sitePinSinks) =
      net.writes (sourceWrites d r) := by
  let i := net.intrasiteIndex r.tree
  let mid := (net.addIntrasite r.tree).setSourceRoute i
  have hmem : r.tree ∈ mid.intrasite := mem_addIntrasite net r.tree
  have hi : mid.intrasiteIndex r.tree = i := Net.intrasiteIndex_of_prefix List.prefix_rfl
  let exits := r.sitePinSinks.filter fun p => (d.sitePinDir p).isOutput
  have hleave : mid.leave exits =
      (if mid.sourceSitePins.isEmpty then exits else []).foldl Net.addSourceSitePin mid := by
    unfold Net.leave
    split <;> rfl
  have hleft : (mid.leave exits).intrasite = mid.intrasite :=
    Net.view_leave (fun _ _ => rfl) mid exits
  have hplace : (mid.leave exits).intrasiteIndex r.tree = i := by
    rw [← hi]
    unfold Net.intrasiteIndex
    rw [hleft]
  have hrest := writes_notes hplace (hleft ▸ hmem) r.sitePinSinks
  rw [hleave] at hrest
  show (net.addIntrasite r.tree).registerSource d i r.sitePinSinks =
    (mid.leave exits).writes (r.sitePinSinks.map fun p => .note r.tree (.sitePin p))
  rw [hleave, hrest]
  rfl

/-! ## Single sinks -/

theorem register_eq_ok (n : NetId) (t : RouteTree) (note : Nat → Net → Net) :
    (∃ a, nl.addIntrasite n t = .ok a ∧ a.2.updateNet n (note a.1) = .ok nl') ↔
      (nl.net? n).isSome ∧ nl' = nl.modifyNet n fun net => net.register t note := by
  constructor
  · rintro ⟨⟨i, mid⟩, hadd, hset⟩
    exact register_of_ok hadd hset
  · rintro ⟨hn, rfl⟩
    obtain ⟨net, hnet⟩ := Option.isSome_iff_exists.1 hn
    refine ⟨_, Netlist.addIntrasite_eq_ok.2 ⟨net, hnet, rfl, rfl⟩, ?_⟩
    refine Netlist.updateNet_eq_ok.2 ⟨?_, ?_⟩
    · rw [Netlist.net?_modifyNet, Netlist.isSome_ite_map]
      exact hn
    · rw [Netlist.modifyNet_modifyNet]
      refine Netlist.modifyNet_congr nl fun net' hnet' => ?_
      obtain rfl : net = net' := Option.some.inj (hnet.symm.trans hnet')
      rfl

theorem registerBelPin_eq_ok {n : NetId} {t : RouteTree} {b : BelPinId} :
    nl.registerBelPin n t b = .ok nl' ↔
      (nl.net? n).isSome ∧ nl' = nl.writeAll [(n, .note t (.belPin b))] := by
  have hwrite : (nl.modifyNet n fun net => net.register t fun i net => net.setBelPinRoute b i) =
      nl.writeAll [(n, .note t (.belPin b))] := Netlist.modifyNet_writes nl n [.note t (.belPin b)]
  unfold Netlist.registerBelPin
  rw [Checked.bind_eq_ok, ← hwrite]
  exact register_eq_ok n t fun i net => net.setBelPinRoute b i

inductive Passes (nl : Netlist) (n : NetId) (b : BelPinId) : NetId → Netlist → Prop
  | free (hb : nl.pinAt? b = none) : Passes nl n b n nl
  | join {q : PinId} (hb : nl.pinAt? b = some q) (hq : (nl.pin? q).isSome)
      (hoff : nl.netOf? q = none) : Passes nl n b n (nl.attach n q)
  | other {q : PinId} {m : NetId} (hb : nl.pinAt? b = some q) (hm : nl.netOf? q = some m) :
      Passes nl n b m nl

theorem registerBelPin_bind_eq_ok {k m : NetId} {t : RouteTree} {b : BelPinId} :
    (nl.registerBelPin k t b >>= fun nl => Pure.pure (k, nl)) = .ok (m, nl') ↔
      k = m ∧ (nl.net? m).isSome ∧ nl' = nl.writeAll [(m, .note t (.belPin b))] := by
  simp only [Checked.bind_eq_ok, registerBelPin_eq_ok, Checked.pure_eq_ok, Prod.mk.injEq]
  constructor
  · rintro ⟨_, ⟨hk, rfl⟩, rfl, rfl⟩
    exact ⟨rfl, hk, rfl⟩
  · rintro ⟨rfl, hk, rfl⟩
    exact ⟨_, ⟨hk, rfl⟩, rfl, rfl⟩

theorem Passes.isSome_net? {n m : NetId} {b : BelPinId} (h : Passes nl n b m nl') (k : NetId) :
    (nl'.net? k).isSome = (nl.net? k).isSome := by
  cases h with
  | free => rfl
  | join => exact (Netlist.Rejoins.attach _ n _).isSome_net? k
  | other => rfl

theorem applyStarting_of_passes {n m : NetId} {b : BelPinId} {mid : Netlist}
    (hpass : Passes nl n b m mid) (hm : (nl.net? m).isSome) :
    r.applyStarting (n, nl) b = .ok (m, mid.writeAll [(m, .note r.tree (.belPin b))]) := by
  have hlive : (mid.net? m).isSome := (hpass.isSome_net? m).trans hm
  unfold applyStarting
  dsimp only
  cases hpass with
  | free hb =>
    rw [hb]
    exact registerBelPin_bind_eq_ok.2 ⟨rfl, hlive, rfl⟩
  | @join q hb hq hoff =>
    obtain ⟨pin, hpin⟩ := Option.isSome_iff_exists.1 hq
    have hnone : pin.net = none := (Netlist.netOf?_eq hpin).symm.trans hoff
    rw [hb]
    refine Checked.bind_eq_ok.2 ⟨pin, Netlist.getPin_eq_ok.2 hpin, ?_⟩
    rw [hnone]
    refine Checked.bind_eq_ok.2 ⟨_, (Netlist.connect_of_off hoff).2 ⟨hq, hm, rfl⟩, ?_⟩
    exact registerBelPin_bind_eq_ok.2 ⟨rfl, hlive, rfl⟩
  | @other q _ hb hon =>
    obtain ⟨pin, hpin, hnet⟩ := Netlist.exists_pin_of_netOf? hon
    obtain ⟨net, hm'⟩ := Option.isSome_iff_exists.1 hm
    rw [hb]
    refine Checked.bind_eq_ok.2 ⟨pin, Netlist.getPin_eq_ok.2 hpin, ?_⟩
    rw [hnet]
    dsimp only
    split
    · refine Checked.bind_eq_ok.2 ⟨⟨⟩, Checked.discard_eq_ok.2 ⟨net, ?_⟩, ?_⟩
      · exact Netlist.getNet_eq_ok.2 hm'
      · exact registerBelPin_bind_eq_ok.2 ⟨rfl, hlive, rfl⟩
    next heq =>
      obtain rfl : m = n := not_not.1 heq
      exact registerBelPin_bind_eq_ok.2 ⟨rfl, hlive, rfl⟩

theorem applyStarting_eq_ok {n m : NetId} {b : BelPinId} :
    r.applyStarting (n, nl) b = .ok (m, nl') ↔ ∃ mid, Passes nl n b m mid ∧
      (nl.net? m).isSome ∧ nl' = mid.writeAll [(m, .note r.tree (.belPin b))] := by
  constructor
  · intro h
    unfold applyStarting at h
    dsimp only at h
    split at h
    next q hb =>
      obtain ⟨pin, hpin, h⟩ := Checked.bind_eq_ok.1 h
      have hof : nl.netOf? q = pin.net := Netlist.netOf?_eq (Netlist.getPin_eq_ok.1 hpin)
      split at h
      next hoff =>
        obtain ⟨mid, hjoin, h⟩ := Checked.bind_eq_ok.1 h
        obtain ⟨hq, hn, rfl⟩ := (Netlist.connect_of_off (hof.trans hoff)).1 hjoin
        obtain ⟨rfl, -, rfl⟩ := registerBelPin_bind_eq_ok.1 h
        exact ⟨_, .join hb hq (hof.trans hoff), hn, rfl⟩
      next k hk =>
        split at h
        · obtain ⟨_, -, h⟩ := Checked.bind_eq_ok.1 h
          obtain ⟨rfl, hn, rfl⟩ := registerBelPin_bind_eq_ok.1 h
          exact ⟨nl, .other hb (hof.trans hk), hn, rfl⟩
        next hkn =>
          obtain ⟨rfl, hn, rfl⟩ := registerBelPin_bind_eq_ok.1 h
          obtain rfl : k = n := not_not.1 hkn
          exact ⟨nl, .other hb (hof.trans hk), hn, rfl⟩
    next hb =>
      obtain ⟨rfl, hn, rfl⟩ := registerBelPin_bind_eq_ok.1 h
      exact ⟨nl, .free (Option.eq_none_iff_forall_ne_some.2 hb), hn, rfl⟩
  · rintro ⟨mid, hpass, hm, rfl⟩
    exact applyStarting_of_passes hpass hm

def Landed (nl : Netlist) (bs : List BelPinId) : Prop :=
  ∀ b ∈ bs, ∀ q, nl.pinAt? b = some q → ∃ m, nl.netOf? q = some m ∧ (nl.net? m).isSome

theorem Passes.advances {n m : NetId} {b : BelPinId} (h : Passes nl n b m nl') :
    nl.Advances nl' := by
  cases h with
  | free => exact .refl nl
  | join _ _ hoff => exact .attach_of_off hoff n
  | other => exact .refl nl

theorem Passes.writes {n m : NetId} {b : BelPinId} (h : Passes nl n b m nl') :
    Netlist.Writes [] nl nl' := by
  cases h with
  | free => exact .refl nl
  | join _ _ hoff => exact .attach hoff n
  | other => exact .refl nl

/-- The pin at the sink is on the net with which the route goes on, then and later. -/
theorem Passes.netOf? {n m : NetId} {b : BelPinId} {later : Netlist} (h : Passes nl n b m nl')
    (hlater : nl'.Advances later) {q : PinId} (hq : later.pinAt? b = some q) :
    later.netOf? q = some m := by
  have hq' : nl.pinAt? b = some q :=
    ((h.advances.trans hlater).pinAt? b).symm.trans hq
  cases h with
  | free hb =>
    rw [hb] at hq'
    cases hq'
  | @join q' hb hp hoff =>
    obtain rfl : q' = q := Option.some.inj (hb.symm.trans hq')
    obtain ⟨pin, hpin⟩ := Option.isSome_iff_exists.1 hp
    refine hlater.netOf? ?_
    rw [Netlist.netOf?_attach hpin, if_pos rfl]
  | @other q' _ hb hm =>
    obtain rfl : q' = q := Option.some.inj (hb.symm.trans hq')
    exact hlater.netOf? hm

theorem Passes.nextNet {n m : NetId} {b : BelPinId} {later : Netlist} (h : Passes nl n b m nl')
    (hlater : nl'.Advances later) : nextNet later n b = m := by
  cases hq : later.pinAt? b with
  | none =>
    have hfree : nl.pinAt? b = none := ((h.advances.trans hlater).pinAt? b).symm.trans hq
    unfold SiteRoute.nextNet
    rw [hq]
    cases h with
    | free => rfl
    | join hb => cases hb.symm.trans hfree
    | other hb => cases hb.symm.trans hfree
  | some q => exact nextNet_eq hq (h.netOf? hlater hq) n

/-- Going through sinks for the first time writes what is told in the end. -/
theorem starting_spec {bs : List BelPinId} {n m : NetId} {later : Netlist}
    (h : bs.foldlM r.applyStarting (n, nl) = .ok (m, nl')) (hlater : nl'.Advances later) :
    nl.Advances nl' ∧ Landed later bs ∧ bs.foldl (SiteRoute.nextNet later) n = m ∧
      Netlist.Writes (writesFrom r.tree later n bs) nl nl' := by
  induction bs generalizing n nl with
  | nil =>
    cases h
    exact ⟨.refl _, by simp [Landed], rfl, .refl _⟩
  | cons b bs ih =>
    rw [List.foldlM_cons] at h
    obtain ⟨⟨k, first⟩, hfirst, hrest⟩ := Checked.bind_eq_ok.1 h
    obtain ⟨mid, hpass, hk, rfl⟩ := applyStarting_eq_ok.1 hfirst
    have hwrite : mid.Advances (mid.writeAll [(k, .note r.tree (.belPin b))]) := .writeAll mid _
    obtain ⟨hon, hlanded, hlast, hwrites⟩ := ih hrest
    have hmid : mid.Advances later := (hwrite.trans hon).trans hlater
    have hnext : SiteRoute.nextNet later n b = k := hpass.nextNet hmid
    refine ⟨(hpass.advances.trans hwrite).trans hon, ?_, ?_, ?_⟩
    · refine List.forall_mem_cons.2 ⟨fun q hq => ⟨k, hpass.netOf? hmid hq, ?_⟩, hlanded⟩
      rw [(hpass.advances.trans hmid).isSome_net?]
      exact hk
    · rw [List.foldl_cons, hnext]
      exact hlast
    · rw [writesFrom, hnext]
      exact (hpass.writes.trans (.writeAll mid _)).trans hwrites

theorem starting_again {bs : List BelPinId} {n : NetId} (hn : (nl.net? n).isSome)
    (hbs : Landed nl bs) (before : List (NetId × Net.Write)) :
    bs.foldlM r.applyStarting (n, nl.writeAll before) =
        .ok (bs.foldl (SiteRoute.nextNet nl) n,
          nl.writeAll (before ++ writesFrom r.tree nl n bs)) ∧
      (nl.net? (bs.foldl (SiteRoute.nextNet nl) n)).isSome := by
  induction bs generalizing n before with
  | nil =>
    rw [writesFrom, List.append_nil]
    exact ⟨rfl, hn⟩
  | cons b bs ih =>
    obtain ⟨hb, hbs⟩ := List.forall_mem_cons.1 hbs
    -- No pin joins a net here: the route goes on with its net or with that of the pin.
    have hstep : (nl.net? (SiteRoute.nextNet nl n b)).isSome ∧
        Passes (nl.writeAll before) n b (SiteRoute.nextNet nl n b) (nl.writeAll before) := by
      cases hq : nl.pinAt? b with
      | none =>
        unfold SiteRoute.nextNet
        rw [hq]
        exact ⟨hn, .free hq⟩
      | some q =>
        obtain ⟨m, hm, hlive⟩ := hb q hq
        rw [nextNet_eq hq hm]
        exact ⟨hlive, .other hq hm⟩
    obtain ⟨hnext, hpass⟩ := hstep
    obtain ⟨hrest, hlast⟩ := ih hnext hbs
      (before ++ [(SiteRoute.nextNet nl n b, .note r.tree (.belPin b))])
    refine ⟨?_, hlast⟩
    rw [List.foldlM_cons]
    refine Checked.bind_eq_ok.2 ⟨_, applyStarting_eq_ok.2 ⟨_, hpass, ?_, rfl⟩, ?_⟩
    · rw [Netlist.isSome_net?_writeAll]
      exact hnext
    · rw [List.append_assoc, List.singleton_append] at hrest
      rw [← Netlist.writeAll_append]
      exact hrest

/-! ## Routes that start at a BEL pin -/

theorem markRouted_eq_ok_writeAll :
    r.markRouted nl = .ok nl' ↔ (r.sinkPins nl = [] ∨ (nl.net? r.net).isSome) ∧
      nl' = nl.writeAll (marks r.net r nl) := by
  have hmarks : ∀ net : Net, (r.sinkPins nl).foldl Net.addRoutedSink net =
      net.writes ((r.sinkPins nl).map .mark) := fun net => by
    unfold Net.writes
    rw [List.foldl_map]
    rfl
  rw [markRouted_eq_ok, marks, ← Netlist.modifyNet_writes]
  simp only [hmarks]

def departure (d : Device) (r : SiteRoute) (nl : Netlist) : List (NetId × Net.Write) :=
  if (nl.net? r.net).any Net.isStatic then [] else (sourceWrites d r).map (r.net, ·)

def startingWrites (d : Device) (r : SiteRoute) (nl : Netlist) : List (NetId × Net.Write) :=
  departure d r nl ++ writesFrom r.tree nl r.net r.belPinSinks ++ marks (r.lastNet nl) r nl

theorem apply_starting_eq_ok {pin : BelPinId} {contained : Bool} {m : NetId}
    (hsource : r.source = .belPin pin contained) :
    r.apply d nl = .ok (m, nl') ↔ (nl.net? r.net).isSome ∧
      r.belPinSinks.foldlM r.applyStarting (r.net, nl.writeAll (departure d r nl)) =
        .ok (m, nl') := by
  have hleave : (nl.modifyNet r.net fun net =>
        net.register r.tree fun i net => net.registerSource d i r.sitePinSinks) =
      nl.writeAll ((sourceWrites d r).map (r.net, ·)) := by
    simp only [register_source]
    exact Netlist.modifyNet_writes nl r.net _
  unfold SiteRoute.apply departure
  rw [hsource]
  dsimp only
  rw [Checked.bind_eq_ok]
  cases hn : nl.net? r.net with
  | none => simp [Netlist.getNet, hn]
  | some net =>
    have hget : ∀ net', nl.getNet r.net = .ok net' ↔ net' = net := fun net' => by
      rw [Netlist.getNet_eq_ok, hn, Option.some.injEq, eq_comm]
    simp only [hget, exists_eq_left, Option.any_some, Option.isSome_some, true_and]
    by_cases hstatic : net.isStatic
    · simp only [if_pos hstatic, Netlist.writeAll_nil]
      rfl
    · simp only [if_neg hstatic, Checked.bind_eq_ok, ← hleave]
      constructor
      · rintro ⟨place, hadd, mid, hset, hrest⟩
        obtain ⟨-, rfl⟩ := (register_eq_ok r.net r.tree fun i net =>
          net.registerSource d i r.sitePinSinks).1 ⟨place, hadd, hset⟩
        exact hrest
      · intro hrest
        have hlive : (nl.net? r.net).isSome := Option.isSome_iff_exists.2 ⟨net, hn⟩
        obtain ⟨place, hadd, hset⟩ := (register_eq_ok r.net r.tree fun i net =>
          net.registerSource d i r.sitePinSinks).2 ⟨hlive, rfl⟩
        exact ⟨place, hadd, _, hset, hrest⟩

theorem sinkPins_congr (h : ∀ b, nl'.pinAt? b = nl.pinAt? b) (r : SiteRoute) :
    r.sinkPins nl' = r.sinkPins nl :=
  List.filterMap_congr fun b _ => h b

theorem starting_first {pin : BelPinId} {contained : Bool} {m : NetId} {mid later : Netlist}
    (hsource : r.source = .belPin pin contained) (happly : r.apply d nl = .ok (m, mid))
    (hmark : { r with net := m }.markRouted mid = .ok nl') (hlater : nl'.Advances later) :
    nl.Advances nl' ∧ (later.net? r.net).isSome ∧ Landed later r.belPinSinks ∧
      Netlist.Writes (startingWrites d r later) nl nl' := by
  obtain ⟨hn, hfold⟩ := (apply_starting_eq_ok hsource).1 happly
  obtain ⟨-, rfl⟩ := markRouted_eq_ok_writeAll.1 hmark
  have hmid : mid.Advances later := (Netlist.Advances.writeAll mid _).trans hlater
  have hleave : nl.Advances (nl.writeAll (departure d r nl)) := .writeAll nl _
  obtain ⟨hon, hlanded, hlast, hwrites⟩ := starting_spec hfold hmid
  have hgrows : nl.Advances later := (hleave.trans hon).trans hmid
  -- What is written first depends on the kind of the net only, and this stays.
  have hdeparture : departure d r later = departure d r nl := by
    obtain ⟨net, hnet⟩ := Option.isSome_iff_exists.1 hn
    obtain ⟨net', hnet', hext⟩ := hgrows.net_stays r.net net hnet
    unfold departure
    rw [hnet, hnet', Option.any_some, Option.any_some, Net.isStatic_congr hext.kind]
  have hmarks : marks (r.lastNet later) r later = marks m { r with net := m } mid := by
    unfold marks lastNet
    rw [hlast]
    exact congrArg (fun qs : List PinId => (qs.map Net.Write.mark).map (m, ·))
      (sinkPins_congr hmid.pinAt? r)
  refine ⟨(hleave.trans hon).trans (.writeAll mid _), ?_, hlanded, ?_⟩
  · rw [hgrows.isSome_net?]
    exact hn
  · unfold startingWrites
    rw [hdeparture, hmarks]
    exact ((Netlist.Writes.writeAll nl _).trans hwrites).trans (.writeAll mid _)

/-- On a netlist where all pins at its sinks are on nets, the route writes and does nothing else. -/
theorem starting_repeats {pin : BelPinId} {contained : Bool}
    (hsource : r.source = .belPin pin contained) (hn : (nl.net? r.net).isSome)
    (hsinks : Landed nl r.belPinSinks) (before : List (NetId × Net.Write)) :
    ∃ mid, r.apply d (nl.writeAll before) = .ok (r.lastNet nl, mid) ∧
      { r with net := r.lastNet nl }.markRouted mid =
        .ok (nl.writeAll (before ++ startingWrites d r nl)) := by
  have hdeparture : departure d r (nl.writeAll before) = departure d r nl := by
    obtain ⟨net, hnet⟩ := Option.isSome_iff_exists.1 hn
    have hext := net.extends_writes (Netlist.writesInto r.net before)
    unfold departure
    rw [Netlist.net?_writeAll, hnet, Option.map_some, Option.any_some, Option.any_some,
      Net.isStatic_congr hext.kind]
  obtain ⟨hfold, hlast⟩ := starting_again (r := r) hn hsinks (before ++ departure d r nl)
  refine ⟨nl.writeAll (before ++ departure d r nl ++ writesFrom r.tree nl r.net r.belPinSinks),
    (apply_starting_eq_ok hsource).2 ⟨?_, ?_⟩, markRouted_eq_ok_writeAll.2 ⟨?_, ?_⟩⟩
  · rw [Netlist.isSome_net?_writeAll]
    exact hn
  · rw [hdeparture, ← Netlist.writeAll_append]
    exact hfold
  · rw [Netlist.isSome_net?_writeAll]
    exact .inr hlast
  · rw [← Netlist.writeAll_append]
    simp only [startingWrites, List.append_assoc]
    rfl

/-! ## Routes that come in through a site pin -/

def Tied (d : Device) (nl : Netlist) (b : BelPinId) : Prop :=
  (∃ q m, nl.pinAt? b = some q ∧ nl.netOf? q = some m) ∨
    nl.pinAt? b = none ∧ nl.cellAt? (d.belPinBel b) = none

structure Fills (d : Device) (nl nl' : Netlist) : Prop extends nl.Extends nl' where
  cellAt? : ∀ b, nl'.cellAt? b = nl.cellAt? b
  unplaced : ∀ b, nl.cellAt? (d.belPinBel b) = none → nl'.pinAt? b = nl.pinAt? b
  usedSitePips : nl'.usedSitePips = nl.usedSitePips

namespace Fills

theorem of_advances (h : nl.Advances nl') (hcells : ∀ b, nl'.cellAt? b = nl.cellAt? b) :
    Fills d nl nl' :=
  ⟨h.toExtends, hcells, fun b _ => h.pinAt? b, h.usedSitePips⟩

theorem trans {nl'' : Netlist} (h : Fills d nl nl') (h' : Fills d nl' nl'') : Fills d nl nl'' where
  toExtends := h.toExtends.trans h'.toExtends
  cellAt? b := (h'.cellAt? b).trans (h.cellAt? b)
  unplaced b hb := (h'.unplaced b ((h.cellAt? _).trans hb)).trans (h.unplaced b hb)
  usedSitePips := h'.usedSitePips.trans h.usedSitePips

theorem tied (h : Fills d nl nl') {b : BelPinId} (hb : Tied d nl b) : Tied d nl' b := by
  rcases hb with ⟨q, m, hq, hm⟩ | ⟨hfree, hbare⟩
  · exact .inl ⟨q, m, h.mapping_stays b q hq, h.netOf? hm⟩
  · exact .inr ⟨(h.unplaced b hbare).trans hfree, (h.cellAt? _).trans hbare⟩

end Fills

theorem cellAt?_attach (nl : Netlist) (n : NetId) (p : PinId) (b : BelId) :
    (nl.attach n p).cellAt? b = nl.cellAt? b :=
  (Netlist.Still.attach (C := True) nl n p).cellAt? b

theorem pseudo_first (n : NetId) {c : CellId} (name : String) (dir : PinDir) {b : BelPinId}
    (hfree : nl.pinAt? b = none) (hc : nl.cellAt? (d.belPinBel b) = some c)
    (htied : nl' = ((nl.addPseudoPin c name dir).attach n nl.nextPin).mapPin nl.nextPin b) :
    Fills d nl nl' ∧ Tied d nl' b ∧ Netlist.Writes [] nl nl' := by
  subst htied
  let added := nl.addPseudoPin c name dir
  have hoff : added.netOf? nl.nextPin = none := by
    rw [Netlist.netOf?_addPseudoPin, Netlist.netOf?, Netlist.pin?_nextPin]
    rfl
  have hadded : (added.pin? nl.nextPin).isSome :=
    Netlist.isSome_pin?_addPseudoPin_new nl c name dir
  obtain ⟨new, hnew⟩ := Option.isSome_iff_exists.1 hadded
  have hat : ((added.attach n nl.nextPin).mapPin nl.nextPin b).pinAt? b = some nl.nextPin := by
    rw [Netlist.pinAt?_mapPin, if_pos rfl]
  have hon : ((added.attach n nl.nextPin).mapPin nl.nextPin b).netOf? nl.nextPin = some n := by
    rw [Netlist.netOf?_mapPin, Netlist.netOf?_attach hnew, if_pos rfl]
  refine ⟨⟨.tie nl n c name dir hfree, cellAt?_attach added n nl.nextPin, ?_,
    (Netlist.Advances.attach_of_off hoff n).usedSitePips⟩, .inl ⟨nl.nextPin, n, hat, hon⟩, ?_⟩
  · intro b' hbare
    have hne : b' ≠ b := by
      rintro rfl
      cases hc.symm.trans hbare
    rw [Netlist.pinAt?_mapPin, if_neg hne, Netlist.pinAt?_attach]
    rfl
  · exact ((Netlist.Writes.addPseudoPin nl c name dir).trans (.attach hoff n)).trans (.mapPin _ _ b)

theorem tie_first {n : NetId} {b : BelPinId} (h : nl.tieBelPin d n b = .ok nl') :
    Fills d nl nl' ∧ Tied d nl' b ∧ Netlist.Writes [] nl nl' := by
  unfold Netlist.tieBelPin at h
  split at h
  next hfree =>
    unfold Netlist.createPseudoPin at h
    split at h
    next hbare =>
      cases h
      exact ⟨.of_advances (.refl nl) fun _ => rfl, .inr ⟨hfree, hbare⟩, .refl nl⟩
    next c hc =>
      obtain ⟨net, hn, h⟩ := Checked.bind_eq_ok.1 h
      obtain ⟨cell, hcell, h⟩ := Checked.bind_eq_ok.1 h
      obtain ⟨added, hadded, h⟩ := Checked.bind_eq_ok.1 h
      obtain ⟨joined, hjoined, h⟩ := Checked.bind_eq_ok.1 h
      obtain ⟨-, rfl⟩ := Netlist.newPseudoPin_eq_ok.1 hadded
      obtain ⟨-, -, rfl⟩ := Netlist.connect_eq_ok.1 hjoined
      obtain ⟨-, rfl⟩ := Netlist.mapToBelPin_eq_ok.1 h
      exact pseudo_first n _ _ hfree hc rfl
  next q hq =>
    obtain ⟨pin, hpin, h⟩ := Checked.bind_eq_ok.1 h
    have hof : nl.netOf? q = pin.net := Netlist.netOf?_eq (Netlist.getPin_eq_ok.1 hpin)
    split at h
    next hoff =>
      have hqoff : nl.netOf? q = none := hof.trans hoff
      obtain ⟨hp, -, rfl⟩ := (Netlist.connect_of_off hqoff).1 h
      refine ⟨.of_advances (.attach_of_off hqoff n) (cellAt?_attach nl n q), .inl ⟨q, n, ?_, ?_⟩,
        .attach hqoff n⟩
      · rw [Netlist.pinAt?_attach]
        exact hq
      · rw [Netlist.netOf?_attach (Netlist.getPin_eq_ok.1 hpin), if_pos rfl]
    next hon =>
      cases h
      obtain ⟨m, hm⟩ := Option.ne_none_iff_exists'.1 hon
      exact ⟨.of_advances (.refl nl) fun _ => rfl, .inl ⟨q, m, hq, hof.trans hm⟩, .refl nl⟩

theorem tie_again {b : BelPinId} (h : Tied d nl b) (n : NetId) : nl.tieBelPin d n b = .ok nl := by
  unfold Netlist.tieBelPin
  rcases h with ⟨q, m, hq, hm⟩ | ⟨hfree, hbare⟩
  · obtain ⟨pin, hpin, hnet⟩ := Netlist.exists_pin_of_netOf? hm
    rw [hq]
    refine Checked.bind_eq_ok.2 ⟨pin, Netlist.getPin_eq_ok.2 hpin, ?_⟩
    rw [hnet]
    rfl
  · rw [hfree]
    show nl.createPseudoPin d n b = .ok nl
    unfold Netlist.createPseudoPin
    rw [hbare]
    rfl

def enteringNotes (r : SiteRoute) (bs : List BelPinId) : List (NetId × Net.Write) :=
  bs.map fun b => (r.net, .note r.tree (.belPin b))

theorem entering_first {bs : List BelPinId}
    (h : bs.foldlM (r.applyEntering d true) nl = .ok nl') :
    Fills d nl nl' ∧ (∀ b ∈ bs, Tied d nl' b) ∧ Netlist.Writes (enteringNotes r bs) nl nl' := by
  induction bs generalizing nl with
  | nil =>
    cases h
    exact ⟨.of_advances (.refl _) fun _ => rfl, by simp, .refl _⟩
  | cons b bs ih =>
    rw [List.foldlM_cons] at h
    obtain ⟨first, hfirst, hrest⟩ := Checked.bind_eq_ok.1 h
    obtain ⟨mid, hregister, htie⟩ := Checked.bind_eq_ok.1 hfirst
    obtain ⟨-, rfl⟩ := registerBelPin_eq_ok.1 hregister
    obtain ⟨hfills, htied, hjoins⟩ := tie_first htie
    obtain ⟨hon, hall, hwrites⟩ := ih hrest
    have hwrite : Fills d nl (nl.writeAll [(r.net, .note r.tree (.belPin b))]) :=
      .of_advances (.writeAll nl _) fun _ => rfl
    refine ⟨(hwrite.trans hfills).trans hon, List.forall_mem_cons.2 ⟨hon.tied htied, hall⟩, ?_⟩
    exact ((Netlist.Writes.writeAll nl _).trans hjoins).trans hwrites

theorem entering_again {bs : List BelPinId} (hn : (nl.net? r.net).isSome)
    (hbs : ∀ b ∈ bs, Tied d nl b) (before : List (NetId × Net.Write)) :
    bs.foldlM (r.applyEntering d true) (nl.writeAll before) =
      .ok (nl.writeAll (before ++ enteringNotes r bs)) := by
  induction bs generalizing before with
  | nil =>
    rw [enteringNotes, List.map_nil, List.append_nil]
    rfl
  | cons b bs ih =>
    obtain ⟨hb, hbs⟩ := List.forall_mem_cons.1 hbs
    have hrest := ih hbs (before ++ [(r.net, .note r.tree (.belPin b))])
    rw [List.append_assoc, List.singleton_append, Netlist.writeAll_append] at hrest
    rw [List.foldlM_cons]
    refine Checked.bind_eq_ok.2 ⟨_, Checked.bind_eq_ok.2 ⟨_, ?_, tie_again ?_ r.net⟩, hrest⟩
    · refine registerBelPin_eq_ok.2 ⟨?_, rfl⟩
      rw [Netlist.isSome_net?_writeAll]
      exact hn
    · exact hb

theorem apply_entering_eq_ok {pin : SitePinId} {allowUnused : Bool} {m : NetId}
    (hsource : r.source = .sitePin pin allowUnused) :
    r.apply d nl = .ok (m, nl') ↔ (nl.net? r.net).isSome ∧ m = r.net ∧
      r.belPinSinks.foldlM (r.applyEntering d allowUnused)
        (nl.writeAll [(r.net, .note r.tree (.sitePin pin))]) = .ok nl' := by
  have hwrite : (nl.modifyNet r.net fun net =>
        net.register r.tree fun i net => net.setSitePinRoute pin i) =
      nl.writeAll [(r.net, .note r.tree (.sitePin pin))] :=
    Netlist.modifyNet_writes nl r.net [.note r.tree (.sitePin pin)]
  unfold SiteRoute.apply
  rw [hsource]
  simp only [Checked.bind_eq_ok, Checked.pure_eq_ok, Prod.mk.injEq, ← hwrite]
  constructor
  · rintro ⟨place, hadd, mid, hset, last, hrest, rfl, rfl⟩
    obtain ⟨hn, rfl⟩ := (register_eq_ok r.net r.tree fun i net =>
      net.setSitePinRoute pin i).1 ⟨place, hadd, hset⟩
    exact ⟨hn, rfl, hrest⟩
  · rintro ⟨hn, rfl, hrest⟩
    obtain ⟨place, hadd, hset⟩ := (register_eq_ok r.net r.tree fun i net =>
      net.setSitePinRoute pin i).2 ⟨hn, rfl⟩
    exact ⟨place, hadd, _, hset, nl', hrest, rfl, rfl⟩

/-- A route that has come in through a site pin to unused BEL pins too changes nothing when it
comes in again. -/
theorem entering_repeats {pin : SitePinId} {m : NetId} {mid : Netlist}
    (hsource : r.source = .sitePin pin true) (happly : r.apply d nl = .ok (m, mid))
    (hmark : { r with net := m }.markRouted mid = .ok nl') :
    nl'.usedSitePips = nl.usedSitePips ∧
      ∃ mid', r.apply d nl' = .ok (m, mid') ∧ { r with net := m }.markRouted mid' = .ok nl' := by
  obtain ⟨hn, rfl, hfold⟩ := (apply_entering_eq_ok hsource).1 happly
  obtain ⟨-, rfl⟩ := markRouted_eq_ok_writeAll.1 hmark
  obtain ⟨hfills, htied, hwrites⟩ := entering_first hfold
  let entered := mid.writeAll (marks r.net r mid)
  have hgrows : nl.Extends entered :=
    ((Netlist.Extends.writeAll nl _).trans hfills.toExtends).trans (.writeAll mid _)
  have hlive : (entered.net? r.net).isSome := (hgrows.isSome_net? r.net).trans hn
  have hmarks : marks r.net r entered = marks r.net r mid := rfl
  -- all that was written, in order
  let ws := [(r.net, .note r.tree (.sitePin pin))] ++ enteringNotes r r.belPinSinks ++
    marks r.net r mid
  have hws : Netlist.Writes ws nl entered :=
    ((Netlist.Writes.writeAll nl _).trans hwrites).trans (.writeAll mid _)
  refine ⟨hfills.usedSitePips, _,
    (apply_entering_eq_ok hsource).2 ⟨hlive, rfl, entering_again hlive htied _⟩, ?_⟩
  refine markRouted_eq_ok_writeAll.2 ⟨.inr ?_, ?_⟩
  · rw [Netlist.isSome_net?_writeAll]
    exact hlive
  · rw [← Netlist.writeAll_append]
    exact hws.again.symm

end SiteRoute

end Fabric
