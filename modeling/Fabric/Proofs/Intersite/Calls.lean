import Fabric.Proofs.Intersite.Arrivals
/-!
# The calls of a search between sites

What a search tells its callback is settled by its tree. Each wire with a site pin behind it
makes one call, in the order of the nodes, and no pin is told of twice. A callback that fails
cuts this list short behind the call that failed.
-/

namespace Fabric.Intersite

variable {d : Device} {pips : PipSet}

/-! ## Switched connections -/

theorem switched_of_pipUsed {start : Wire} (hused : (outcome d pips start).pipUsed) :
    ∃ i c, (outcome d pips start).tree.link? i = some c ∧ c.isSwitched := by
  refine settle_keeps
    (P := fun s => s.pipUsed → ∃ i c, s.tree.link? i = some c ∧ c.isSwitched) ?_ ?_ _ _ hused
  · intro node s c hs
    unfold follow
    split
    · intro hused
      rcases Bool.or_eq_true_iff.1 hused with hold | hswitched
      · obtain ⟨i, c', hi, hswitched⟩ := hs hold
        exact ⟨i, c', by rw [RouteTree.link?_grow_of_lt (RouteTree.lt_size_of_link? hi), hi],
          hswitched⟩
      · exact ⟨s.tree.size, c, RouteTree.link?_grow_size, hswitched⟩
    · exact hs
  · intro hused
    cases hused

theorem pipUsed_iff (start : Wire) : (outcome d pips start).pipUsed ↔
    ∃ i c, (outcome d pips start).tree.link? i = some c ∧ c.isSwitched := by
  refine ⟨switched_of_pipUsed, ?_⟩
  rintro ⟨i, c, hi, hswitched⟩
  exact tells_outcome start i c hi hswitched

/-! ## The pins of a tree -/

def pinsBehind (d : Device) (t : RouteTree) : List SitePinId := t.wires.filterMap d.pinAhead?

theorem input_of_pinAhead? {desc : DeviceDescription} (hd : Device.ofDescription desc = .ok d)
    {t : TileId} {name : WireName} {p : SitePinId} (h : d.pinAhead? (.tile t name) = some p) :
    (d.sitePinDir p).isInput ∧ d.externalWire p = .tile t name := by
  refine ⟨?_, (Device.pinsMatch_of_ofDescription hd).externalWire_of_pinAhead? h⟩
  simp only [Device.pinAhead?, Option.bind_eq_bind, Option.bind_eq_some_iff, Option.guard_eq_some',
    Option.pure_def, Option.some.injEq] at h
  obtain ⟨-, -, q, -, -, hinput, rfl⟩ := h
  exact hinput

/-- A pin has one outer wire, so a search that stays outside of the sites comes to it once. -/
theorem nodup_pinsBehind {desc : DeviceDescription} (hd : Device.ofDescription desc = .ok d)
    {tree : RouteTree} (honce : tree.wires.Nodup)
    (htiles : ∀ w ∈ tree.wires, ∃ t name, w = .tile t name) : (pinsBehind d tree).Nodup := by
  refine List.pairwise_filterMap.2 (honce.imp_of_mem fun hv hw hne p hp q hq hpq => hne ?_)
  obtain ⟨t, name, rfl⟩ := htiles _ hv
  obtain ⟨t', name', rfl⟩ := htiles _ hw
  rw [← (input_of_pinAhead? hd hp).2, ← (input_of_pinAhead? hd hq).2, hpq]

/-! ## Callbacks that fail -/

/-- A callback with a state of its own, which outlives a call that fails. -/
abbrev Callback (σ ε : Type) := SitePinId → ExceptT ε (StateM σ) PUnit

def Callback.noting {σ ε : Type} (visit : Callback σ ε) :
    Callback (σ × List (SitePinId × Except ε PUnit)) ε := fun p st =>
  ((visit p st.1).1, ((visit p st.1).2, st.2 ++ [(p, (visit p st.1).1)]))

/-- The calls that come of a list of pins, and what comes of all of them: a call that fails is
the last one. -/
inductive Called {ε : Type} : List SitePinId → List (SitePinId × Except ε PUnit) →
    Except ε PUnit → Prop
  | done : Called [] [] (.ok ⟨⟩)
  | went {p : SitePinId} {ps : List SitePinId} {calls : List (SitePinId × Except ε PUnit)}
      {r : Except ε PUnit} : Called ps calls r → Called (p :: ps) ((p, .ok ⟨⟩) :: calls) r
  | failed {p : SitePinId} {ps : List SitePinId} {e : ε} :
      Called (p :: ps) [(p, .error e)] (.error e)

namespace Called

variable {ε : Type} {ps : List SitePinId} {calls : List (SitePinId × Except ε PUnit)}
  {r : Except ε PUnit}

theorem all_of_ok (h : Called ps calls r) (hok : ∀ c ∈ calls, c.2 = .ok ⟨⟩) :
    r = .ok ⟨⟩ ∧ calls.map Prod.fst = ps := by
  induction h with
  | done => exact ⟨rfl, rfl⟩
  | went _ ih =>
    obtain ⟨hr, hps⟩ := ih fun c hc => hok c (List.mem_cons_of_mem _ hc)
    exact ⟨hr, by rw [List.map_cons, hps]⟩
  | failed => cases hok _ (List.mem_singleton.2 rfl)

theorem cut_of_error (h : Called ps calls r) {k : Nat} {p : SitePinId} {e : ε}
    (hk : calls[k]? = some (p, .error e)) :
    r = .error e ∧ calls.map Prod.fst = ps.take (k + 1) := by
  induction h generalizing k with
  | done => simp at hk
  | went _ ih =>
    cases k with
    | zero => simp at hk
    | succ k =>
      obtain ⟨hr, hps⟩ := ih (by simpa using hk)
      exact ⟨hr, by rw [List.map_cons, hps, List.take_succ_cons]⟩
  | failed =>
    cases k with
    | zero =>
      cases hk
      exact ⟨rfl, rfl⟩
    | succ k => simp at hk

end Called

theorem run_bind {σ ε α β : Type} (x : ExceptT ε (StateM σ) α) (f : α → ExceptT ε (StateM σ) β)
    (st : σ) : (x >>= f) st =
      match (x st).1 with
      | .ok a => f a (x st).2
      | .error e => (.error e, (x st).2) := by
  change ExceptT.bindCont f (x st).1 (x st).2 = _
  cases (x st).1 <;> rfl

theorem forM_noting {σ ε : Type} (visit : Callback σ ε) (ps : List SitePinId) (st : σ)
    (noted : List (SitePinId × Except ε PUnit)) :
    ∃ r st' calls, ps.forM visit st = (r, st') ∧
      ps.forM visit.noting (st, noted) = (r, (st', noted ++ calls)) ∧ Called ps calls r := by
  induction ps generalizing st noted with
  | nil => exact ⟨.ok ⟨⟩, st, [], rfl, by rw [List.append_nil]; rfl, .done⟩
  | cons p ps ih =>
    have hcons (τ : Type) (f : Callback τ ε) :
        (p :: ps).forM f = (f p >>= fun _ => ps.forM f) := rfl
    rw [hcons, hcons, run_bind, run_bind]
    unfold Callback.noting
    dsimp only
    rcases visit p st with ⟨e | u, mid⟩
    · exact ⟨.error e, mid, [(p, .error e)], rfl, rfl, .failed⟩
    · obtain ⟨r, st', calls, hrest, hnoted, hcalled⟩ := ih mid (noted ++ [(p, .ok u)])
      rw [List.append_assoc] at hnoted
      exact ⟨r, st', (p, .ok u) :: calls, hrest, hnoted, .went hcalled⟩

/-! ## The route -/

/-- The calls of a search are settled by its tree. On a loaded device the tree is the one of a
breadth-first search, PIPs are taken note of just when it holds a switched connection, and the
site pins behind its wires are inputs, none of them twice. A callback that never fails is
called for each of these once, in the order of the nodes. A call that fails is the last, after
the same calls, and its error is the result. -/
theorem route_calls {desc : DeviceDescription} (hd : Device.ofDescription desc = .ok d)
    (pips : PipSet) (t : TileId) (name : WireName) :
    ∃ found : Search,
      RouteTree.IsSearchTree (Usable d pips) (.tile t name) found.tree ∧
      (found.pipUsed ↔ ∃ i c, found.tree.link? i = some c ∧ c.isSwitched) ∧
      (∀ w ∈ found.tree.wires, ∀ p, d.pinAhead? w = some p →
        (d.sitePinDir p).isInput ∧ d.externalWire p = w) ∧
      (pinsBehind d found.tree).Nodup ∧
      ∀ (σ ε : Type) (visit : Callback σ ε) (st : σ), ∃ r st' calls,
        route d pips (.tile t name) visit st = (r, st') ∧
        route d pips (.tile t name) visit.noting (st, []) = (r, (st', calls)) ∧
        ((∀ c ∈ calls, c.2 = .ok ⟨⟩) →
          r = .ok found ∧ calls.map Prod.fst = pinsBehind d found.tree) ∧
        ∀ k p e, calls[k]? = some (p, .error e) →
          r = .error e ∧ calls.map Prod.fst = (pinsBehind d found.tree).take (k + 1) := by
  obtain ⟨htree, -⟩ := outcome_isSearchTree hd pips (.tile t name)
  have htiles : ∀ w ∈ (outcome d pips (.tile t name)).tree.wires, ∃ t name, w = .tile t name :=
    fun _ hw => tile_of_mem_outcome hd hw
  refine ⟨outcome d pips (.tile t name), htree, pipUsed_iff _, ?_,
    nodup_pinsBehind hd htree.once htiles, ?_⟩
  · intro w hw p hp
    obtain ⟨t', name', rfl⟩ := htiles w hw
    exact input_of_pinAhead? hd hp
  · intro σ ε visit st
    obtain ⟨r, st', calls, hrun, hnoted, hcalled⟩ :=
      forM_noting visit (arrivals d pips (.tile t name)) st []
    rw [arrivals_eq hd] at hcalled
    refine ⟨r.map fun _ => outcome d pips (.tile t name), st', calls, ?_, ?_, ?_, ?_⟩
    · rw [route_eq, run_bind, hrun]
      cases r <;> rfl
    · rw [route_eq, run_bind, hnoted]
      cases r <;> rfl
    · intro hok
      obtain ⟨rfl, hall⟩ := hcalled.all_of_ok hok
      exact ⟨rfl, hall⟩
    · intro k p e hk
      obtain ⟨rfl, hcut⟩ := hcalled.cut_of_error hk
      exact ⟨rfl, hcut⟩

def taps : DeviceDescription where
  name := "taps"
  family := .other
  tiles := [⟨"T", "CLB", [⟨"OP", [⟨"IA", none, .pip⟩, ⟨"IB", none, .wire⟩]⟩,
    ⟨"IB", [⟨"IC", none, .wire⟩, ⟨"OP", none, .wire⟩]⟩]⟩]
  siteTypes := [⟨"SLICE", [], [],
    [⟨"P", .output, "P", "OP"⟩, ⟨"A", .input, "A", "IA"⟩, ⟨"B", .input, "B", "IB"⟩,
      ⟨"C", .inout, "C", "IC"⟩]⟩]
  sites := [⟨"S", "SLICE", "T"⟩]

def tapsPips : PipSet := PipSet.empty.add ⟨"T/OP", "T/IA"⟩

def refuseSecond : Callback Nat String := fun _ k =>
  (if k = 1 then .error "second" else .ok ⟨⟩, k + 1)

def acceptAll : Callback Unit String := fun _ _ => (.ok ⟨⟩, ⟨⟩)

/-- The second of three calls fails and is the last. -/
theorem route_calls_taps : ∃ d, Device.ofDescription taps = .ok d ∧
    ∃ (found : Search) (st' : Nat) (calls : List (SitePinId × Except String PUnit)),
      found.pipUsed ∧ pinsBehind d found.tree = [⟨1⟩, ⟨2⟩, ⟨3⟩] ∧
      calls[1]? = some (⟨2⟩, .error "second") ∧
      route d tapsPips (.tile ⟨0⟩ ⟨0⟩) refuseSecond 0 = (.error "second", st') ∧
      route d tapsPips (.tile ⟨0⟩ ⟨0⟩) refuseSecond.noting (0, []) =
        (.error "second", (st', calls)) ∧
      calls.map Prod.fst = [⟨1⟩, ⟨2⟩] := by
  have hrun : (do
      let d ← (Device.ofDescription taps).toOption
      let accepted := route d tapsPips (.tile ⟨0⟩ ⟨0⟩) acceptAll.noting (⟨⟩, [])
      return decide (accepted.1.toOption.map Search.pipUsed = some true ∧
        accepted.2.2 = [(⟨1⟩, .ok ⟨⟩), (⟨2⟩, .ok ⟨⟩), (⟨3⟩, .ok ⟨⟩)] ∧
        (route d tapsPips (.tile ⟨0⟩ ⟨0⟩) refuseSecond.noting (0, [])).2.2 =
          [(⟨1⟩, .ok ⟨⟩), (⟨2⟩, .error "second")])) = some true := by
    decide +kernel
  simp only [Option.bind_eq_bind, Option.bind_eq_some_iff, Checked.toOption_eq_some,
    Option.pure_def, Option.some.injEq, decide_eq_true_eq] at hrun
  obtain ⟨d, hd, hpip, hall, hcut⟩ := hrun
  obtain ⟨found, -, -, -, -, hcalls⟩ := route_calls hd tapsPips ⟨0⟩ ⟨0⟩
  obtain ⟨r₀, st₀, calls₀, -, haccepted, hok, -⟩ := hcalls Unit String acceptAll ⟨⟩
  rw [haccepted] at hpip hall
  subst hall
  obtain ⟨rfl, hpins⟩ := hok (by simp)
  obtain ⟨r, st', calls, hroute, hnoted, -, hfail⟩ := hcalls Nat String refuseSecond 0
  rw [hnoted] at hcut
  subst hcut
  obtain ⟨rfl, hfirst⟩ := hfail 1 _ _ rfl
  exact ⟨d, hd, found, st', _, by simpa [Except.toOption] using hpip, hpins.symm, rfl, hroute, hnoted,
    rfl⟩

end Fabric.Intersite
