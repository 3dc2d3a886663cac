import Fabric.Proofs.Record.Outcome
import Fabric.Proofs.SiteRoute.Repeating
/-!
# Site records that come again

A record about sites that has been taken in finds the same routes when it comes again. What it finds
it enters a second time, and that changes nothing once all of it has been entered before.
-/

namespace Fabric

/-! ## Tables -/

namespace Table

variable {α β : Type} [Ord α] [Std.TransOrd α]

theorem exists_getElem?_insertMany (entries : List (α × β)) :
    ∃ last : α → Option β, ∀ (t : Table α β) (a : α),
      (t.insertMany entries)[a]? = (last a).or t[a]? := by
  induction entries with
  | nil =>
    refine ⟨fun _ => none, fun t a => ?_⟩
    rw [Std.ExtTreeMap.insertMany_nil, Option.none_or]
  | cons entry entries ih =>
    obtain ⟨key, value⟩ := entry
    obtain ⟨last, hlast⟩ := ih
    refine ⟨fun a => (last a).or (if compare key a = .eq then some value else none), fun t a => ?_⟩
    rw [Std.ExtTreeMap.insertMany_cons, hlast, Std.ExtTreeMap.getElem?_insert, Option.or_assoc]
    split <;> rfl

theorem insertMany_insertMany [Std.LawfulEqOrd α] (t : Table α β) (entries : List (α × β)) :
    (t.insertMany entries).insertMany entries = t.insertMany entries := by
  obtain ⟨last, hlast⟩ := exists_getElem?_insertMany entries
  refine Std.ExtTreeMap.ext_getElem? fun a => ?_
  rw [hlast (t.insertMany entries), hlast t, ← Option.or_assoc, Option.or_self]

theorem insert_of_getElem? [Std.LawfulEqOrd α] {t : Table α β} {a : α} {b : β}
    (h : t[a]? = some b) :
    t.insert a b = t := by
  refine Std.ExtTreeMap.ext_getElem? fun a' => ?_
  rw [Std.ExtTreeMap.getElem?_insert]
  split
  next heq =>
    obtain rfl : a = a' := Std.LawfulEqCmp.compare_eq_iff_eq.1 heq
    exact h.symm
  next => rfl

theorem alter_alter [Std.LawfulEqOrd α] (t : Table α β) (a : α) {f : Option β → Option β}
    (hf : ∀ o, f (f o) = f o) : (t.alter a f).alter a f = t.alter a f := by
  refine Std.ExtTreeMap.ext_getElem? fun a' => ?_
  simp only [Std.ExtTreeMap.getElem?_alter, Std.ReflCmp.compare_self, if_true]
  split
  · exact hf _
  · rfl

end Table

theorem KeySet.insert_of_mem {α : Type} [Ord α] [Std.TransOrd α] [Std.LawfulEqOrd α]
    {s : KeySet α} {a : α} (h : a ∈ s) : s.insert a = s := by
  refine Std.ExtTreeSet.ext_mem fun a' => ?_
  rw [Std.ExtTreeSet.mem_insert, Std.LawfulEqCmp.compare_eq_iff_eq]
  constructor
  · rintro (rfl | ha')
    · exact h
    · exact ha'
  · exact .inr

namespace Importer

structure Advances (im im' : Importer) : Prop where
  netlist : im.netlist.Advances im'.netlist
  routethroughs : im'.routethroughs = im.routethroughs
  vccBels : ∀ b ∈ im.vccBels, b ∈ im'.vccBels
  gndBels : ∀ b ∈ im.gndBels, b ∈ im'.gndBels

def writeAll (im : Importer) (ws : List (NetId × Net.Write)) : Importer :=
  { im with netlist := im.netlist.writeAll ws }

variable {d : Device} {im im' im'' : Importer}

/-- A search that does not see what is different between importers finds the same. -/
theorem found_congr {source : SiteRoute.Source}
    (hused : im'.netlist.usedSitePips = im.netlist.usedSitePips)
    (hthrough : im'.routethroughs = im.routethroughs) (n : NetId)
    (hunseen : SiteRoute.Unseen source im.netlist im'.netlist) :
    im'.found d n source = im.found d n source := by
  have hctx : im'.context d (source.site d) =
      { im.context d (source.site d) with netlist := im'.netlist } := by
    unfold context
    rw [hused, hthrough]
  have hsource : (SiteRoute.ofSource d n source).source = source := by
    cases source <;> rfl
  unfold Importer.found
  rw [hctx]
  refine SiteRoute.Unseen.build ?_ rfl
  rw [hsource]
  exact hunseen

namespace Advances

theorem refl (im : Importer) : im.Advances im :=
  ⟨.refl _, rfl, fun _ hb => hb, fun _ hb => hb⟩

theorem trans (h : im.Advances im') (h' : im'.Advances im'') : im.Advances im'' where
  netlist := h.netlist.trans h'.netlist
  routethroughs := h'.routethroughs.trans h.routethroughs
  vccBels b hb := h'.vccBels b (h.vccBels b hb)
  gndBels b hb := h'.gndBels b (h.gndBels b hb)

theorem of_netlist {nl : Netlist} (h : im.netlist.Advances nl) :
    im.Advances { im with netlist := nl } :=
  ⟨h, rfl, fun _ hb => hb, fun _ hb => hb⟩

theorem writeAll (im : Importer) (ws : List (NetId × Net.Write)) :
    im.Advances (im.writeAll ws) :=
  of_netlist (.writeAll im.netlist ws)

theorem found (h : im.Advances im') (n : NetId) (pin : BelPinId) (contained : Bool) :
    im'.found d n (.belPin pin contained) = im.found d n (.belPin pin contained) := by
  refine found_congr h.netlist.usedSitePips h.routethroughs n ⟨nofun, .inr fun b => ?_⟩
  unfold Netlist.isUsed
  rw [h.netlist.pinOfBelPin]

end Advances

end Importer

namespace Record

open Netlist (Writes)

variable {d : Device} {im im' : Importer} {α β : Type}

/-! ## Successful runs -/

theorem run_bind_eq_ok {σ ε φ : Type} {act : ExceptT ε (StateT σ (Except φ)) α}
    {f : α → ExceptT ε (StateT σ (Except φ)) β} {s s' : σ} {b : β} :
    (act >>= f).run.run s = .ok (.ok b, s') ↔
      ∃ a s₁, act.run.run s = .ok (.ok a, s₁) ∧ (f a).run.run s₁ = .ok (.ok b, s') := by
  rw [run_bind, Checked.bind_eq_ok]
  constructor
  · rintro ⟨⟨r, s₁⟩, hact, hf⟩
    cases r with
    | error e => cases hf
    | ok a => exact ⟨a, s₁, hact, hf⟩
  · rintro ⟨a, s₁, hact, hf⟩
    exact ⟨(.ok a, s₁), hact, hf⟩

theorem run_enterRouted (r : SiteRoute) : (enterRouted d r).run.run im =
    r.apply d im.netlist >>= fun entered =>
      { r with net := entered.1 }.markRouted entered.2 >>= fun nl =>
        .ok (.ok entered.1, { im with netlist := nl }) := by
  unfold enterRouted
  change ((liftM (r.apply d im.netlist) : RecordM (NetId × Netlist)) >>= fun entered =>
    liftM ({ r with net := entered.1 }.markRouted entered.2) >>= fun nl =>
      (do set { im with netlist := nl }; return entered.1)).run.run im = _
  rw [run_lift_bind]
  congr 1
  funext entered
  exact run_lift_bind _ _ im

theorem run_enterRouted_eq_ok {r : SiteRoute} {n : NetId} :
    (enterRouted d r).run.run im = .ok (.ok n, im') ↔ ∃ mid nl,
      r.apply d im.netlist = .ok (n, mid) ∧ { r with net := n }.markRouted mid = .ok nl ∧
      im' = { im with netlist := nl } := by
  rw [run_enterRouted]
  simp only [Checked.bind_eq_ok, Except.ok.injEq, Prod.mk.injEq]
  constructor
  · rintro ⟨⟨n, mid⟩, happly, nl, hmark, rfl, rfl⟩
    exact ⟨mid, nl, happly, hmark, rfl⟩
  · rintro ⟨mid, nl, happly, hmark, rfl⟩
    exact ⟨(n, mid), happly, nl, hmark, rfl, rfl⟩

theorem discard_eq_bind (act : RecordM α) : Functor.discard act = act >>= fun _ => pure ⟨⟩ := by
  rw [bind_pure_comp, Functor.discard, map_const]
  rfl

theorem run_discard_eq_ok {act : RecordM α} :
    (Functor.discard act).run.run im = .ok (.ok ⟨⟩, im') ↔
      ∃ a, act.run.run im = .ok (.ok a, im') := by
  rw [discard_eq_bind, run_bind_eq_ok]
  constructor
  · rintro ⟨a, mid, hact, hmid⟩
    cases hmid
    exact ⟨a, hact⟩
  · rintro ⟨a, hact⟩
    exact ⟨a, im', hact, rfl⟩

theorem run_tryStaticRoute_eq_ok {n : NetId} {p : BelPinId} {b : Bool} :
    (tryStaticRoute d n p).run.run im = .ok (.ok b, im') ↔
      if (im.found d n (.belPin p false)).isValid then
        b = true ∧ ∃ m, (enterRouted d (im.found d n (.belPin p false))).run.run im =
          .ok (.ok m, im')
      else b = false ∧ im' = im := by
  have hrun : (tryStaticRoute d n p).run.run im =
      (if (im.found d n (.belPin p false)).isValid then
        (do discard <| enterRouted d (im.found d n (.belPin p false)); return true)
      else return false : RecordM Bool).run.run im := rfl
  rw [hrun]
  split
  · rw [run_bind_eq_ok]
    constructor
    · rintro ⟨⟨⟩, mid, henter, hb⟩
      cases hb
      exact ⟨rfl, run_discard_eq_ok.1 henter⟩
    · rintro ⟨rfl, henter⟩
      exact ⟨⟨⟩, im', run_discard_eq_ok.2 henter, rfl⟩
  · constructor
    · intro hb
      cases hb
      exact ⟨rfl, rfl⟩
    · rintro ⟨rfl, rfl⟩
      rfl

/-! ## Work that can be done again -/

def Constant (act : RecordM α) : Prop :=
  ∃ r, ∀ im, act.run.run im = .ok (r, im)

namespace Constant

theorem of_pure (a : α) : Constant (pure a : RecordM α) := ⟨.ok a, fun _ => rfl⟩

theorem of_throw (e : RecordError) : Constant (throw e : RecordM α) := ⟨.error e, fun _ => rfl⟩

theorem bind {act : RecordM α} {f : α → RecordM β} (h : Constant act) (hf : ∀ a, Constant (f a)) :
    Constant (act >>= f) := by
  obtain ⟨r, hr⟩ := h
  cases r with
  | error e =>
    refine ⟨.error e, fun im => ?_⟩
    rw [run_bind, hr]
    rfl
  | ok a =>
    obtain ⟨r', hr'⟩ := hf a
    refine ⟨r', fun im => ?_⟩
    rw [run_bind_of_ok (hr im), hr']

theorem foldlM {f : β → α → RecordM β} (hf : ∀ b a, Constant (f b a)) (as : List α) (b : β) :
    Constant (as.foldlM f b) := by
  induction as generalizing b with
  | nil => exact of_pure b
  | cons a as ih =>
    rw [List.foldlM_cons]
    exact (hf b a).bind ih

theorem require (e : RecordError) (o : Option α) : Constant (Record.require e o) := by
  cases o with
  | none => exact of_throw e
  | some a => exact of_pure a

end Constant

theorem constant_readSitePip (s : SiteId) (choices : SitePipChoices) (token : String) :
    Constant (readSitePip d s choices token) := by
  unfold readSitePip
  refine (Constant.require _ _).bind fun parts => ?_
  obtain ⟨pip, input⟩ := parts
  refine (Constant.require _ _).bind fun w => ?_
  dsimp only
  split
  · exact .of_pure _
  · exact .of_pure _
  · exact Constant.bind (.of_throw _) fun _ => .of_pure _

/-- What is done again later on writes what was written the first time, behind anything else. -/
def Again (act : RecordM α) : Prop :=
  ∀ im im' a, act.run.run im = .ok (.ok a, im') → ∀ later, im'.Advances later →
    ∃ ws, Writes ws im.netlist im'.netlist ∧
      ∀ before, act.run.run (later.writeAll before) = .ok (.ok a, later.writeAll (before ++ ws))

/-- The work may be done again, and no other work done before it is lost by it. -/
structure Repeatable (act : RecordM α) : Prop where
  again : Again act
  advances : ∀ im im' a, act.run.run im = .ok (.ok a, im') → im.Advances im'

theorem Again.of_constant_bind {act : RecordM α} {f : α → RecordM β} (h : Constant act)
    (hf : ∀ a, Again (f a)) : Again (act >>= f) := by
  obtain ⟨r, hr⟩ := h
  intro im im' b hrun later hlater
  rw [run_bind, hr] at hrun
  cases r with
  | error e => cases hrun
  | ok a =>
    obtain ⟨ws, hws, hagain⟩ := hf a im im' b hrun later hlater
    refine ⟨ws, hws, fun before => ?_⟩
    rw [run_bind_of_ok (hr _)]
    exact hagain before

theorem Again.bind {act : RecordM α} {f : α → RecordM β} (h : Again act)
    (hf : ∀ a, Repeatable (f a)) : Again (act >>= f) := by
  intro im im' b hrun later hlater
  obtain ⟨a, mid, hact, hrest⟩ := run_bind_eq_ok.1 hrun
  have hmid : mid.Advances later := ((hf a).advances mid im' b hrest).trans hlater
  obtain ⟨ws, hws, hagain⟩ := h im mid a hact later hmid
  obtain ⟨ws', hws', hagain'⟩ := (hf a).again mid im' b hrest later hlater
  refine ⟨ws ++ ws', hws.trans hws', fun before => ?_⟩
  rw [run_bind_of_ok (hagain before), hagain', List.append_assoc]

namespace Repeatable

theorem of_pure (a : α) : Repeatable (pure a : RecordM α) where
  again im im' b hrun later _ := by
    cases hrun
    refine ⟨[], .refl _, fun before => ?_⟩
    rw [List.append_nil]
    rfl
  advances im im' b hrun := by
    cases hrun
    exact .refl im

theorem of_refused {act : RecordM α} (h : ∀ im im' a, act.run.run im ≠ .ok (.ok a, im')) :
    Repeatable act where
  again im im' a hrun := absurd hrun (h im im' a)
  advances im im' a hrun := absurd hrun (h im im' a)

theorem bind {act : RecordM α} {f : α → RecordM β} (h : Repeatable act)
    (hf : ∀ a, Repeatable (f a)) : Repeatable (act >>= f) where
  again := h.again.bind hf
  advances im im' b hrun := by
    obtain ⟨a, mid, hact, hrest⟩ := run_bind_eq_ok.1 hrun
    exact (h.advances im mid a hact).trans ((hf a).advances mid im' b hrest)

theorem of_constant {act : RecordM α} (h : Constant act) : Repeatable act := by
  obtain ⟨r, hr⟩ := h
  cases r with
  | error e => exact of_refused fun im im' a hrun => by cases (hr im).symm.trans hrun
  | ok a =>
    refine ⟨fun im im' b hrun later _ => ?_, fun im im' b hrun => ?_⟩
    · cases (hr im).symm.trans hrun
      refine ⟨[], .refl _, fun before => ?_⟩
      rw [List.append_nil]
      exact hr _
    · cases (hr im).symm.trans hrun
      exact .refl im

theorem discard {act : RecordM α} (h : Repeatable act) : Repeatable (Functor.discard act) := by
  rw [discard_eq_bind]
  exact h.bind fun _ => of_pure _

theorem forM {f : α → RecordM PUnit} (hf : ∀ a, Repeatable (f a)) (as : List α) :
    Repeatable (as.forM f) := by
  induction as with
  | nil => exact of_pure _
  | cons a as ih =>
    unfold List.forM
    exact (hf a).bind fun _ => ih

/-- A route that starts at a BEL pin is found again, and what it writes can be told at the end. -/
theorem tryStaticRoute (n : NetId) (p : BelPinId) : Repeatable (tryStaticRoute d n p) := by
  have hsource : ∀ im : Importer, (im.found d n (.belPin p false)).source = .belPin p false :=
    fun im => (im.origin_found d n _).2
  have hentered : ∀ im im' m, (enterRouted d (im.found d n (.belPin p false))).run.run im =
      .ok (.ok m, im') → im.Advances im' := by
    intro im im' m henter
    obtain ⟨mid, nl, happly, hmark, rfl⟩ := run_enterRouted_eq_ok.1 henter
    obtain ⟨hon, -⟩ := SiteRoute.starting_first (hsource im) happly hmark (.refl nl)
    exact .of_netlist hon
  constructor
  · intro im im' b hrun later hlater
    rw [run_tryStaticRoute_eq_ok] at hrun
    split at hrun
    next hvalid =>
      obtain ⟨rfl, m, henter⟩ := hrun
      have him : im.Advances later := (hentered im im' m henter).trans hlater
      obtain ⟨mid, nl, happly, hmark, rfl⟩ := run_enterRouted_eq_ok.1 henter
      obtain ⟨-, hlive, hlanded, hws⟩ :=
        SiteRoute.starting_first (hsource im) happly hmark hlater.netlist
      refine ⟨_, hws, fun before => ?_⟩
      have hfound : (later.writeAll before).found d n (.belPin p false) =
          im.found d n (.belPin p false) := (him.trans (.writeAll later before)).found n p false
      obtain ⟨mid', happly', hmark'⟩ :=
        SiteRoute.starting_repeats (d := d) (hsource im) hlive hlanded before
      rw [run_tryStaticRoute_eq_ok, hfound, if_pos hvalid]
      exact ⟨rfl, _, run_enterRouted_eq_ok.2 ⟨mid', _, happly', hmark', rfl⟩⟩
    next hvalid =>
      obtain ⟨rfl, rfl⟩ := hrun
      refine ⟨[], .refl _, fun before => ?_⟩
      have hfound : (later.writeAll before).found d n (.belPin p false) =
          im'.found d n (.belPin p false) := (hlater.trans (.writeAll later before)).found n p false
      rw [run_tryStaticRoute_eq_ok, hfound, if_neg hvalid, List.append_nil]
      exact ⟨rfl, rfl⟩
  · intro im im' b hrun
    rw [run_tryStaticRoute_eq_ok] at hrun
    split at hrun
    · obtain ⟨-, m, henter⟩ := hrun
      exact hentered im im' m henter
    · obtain ⟨-, rfl⟩ := hrun
      exact .refl _

theorem tieOff (isVcc : Bool) (b : BelId) : Repeatable (modify fun im : Importer =>
    if isVcc then { im with vccBels := im.vccBels.insert b }
    else { im with gndBels := im.gndBels.insert b } : RecordM PUnit) := by
  constructor
  · intro im im' u hrun later hlater
    cases hrun
    refine ⟨[], ?_, fun before => ?_⟩
    · cases isVcc <;> exact .refl _
    · have hlisted : (if isVcc then { later.writeAll before with
            vccBels := (later.writeAll before).vccBels.insert b }
          else { later.writeAll before with
            gndBels := (later.writeAll before).gndBels.insert b }) = later.writeAll before := by
        cases isVcc with
        | false =>
          have hb : b ∈ later.gndBels := hlater.gndBels b Std.ExtTreeSet.mem_insert_self
          exact congrArg (fun gndBels => { later.writeAll before with gndBels })
            (KeySet.insert_of_mem hb)
        | true =>
          have hb : b ∈ later.vccBels := hlater.vccBels b Std.ExtTreeSet.mem_insert_self
          exact congrArg (fun vccBels => { later.writeAll before with vccBels })
            (KeySet.insert_of_mem hb)
      rw [List.append_nil]
      exact congrArg (fun im => Except.ok (Except.ok PUnit.unit, im)) hlisted
  · intro im im' u hrun
    cases hrun
    cases isVcc with
    | false =>
      exact ⟨.refl _, rfl, fun _ hb => hb, fun _ hb => Std.ExtTreeSet.mem_insert.2 (.inr hb)⟩
    | true =>
      exact ⟨.refl _, rfl, fun _ hb => Std.ExtTreeSet.mem_insert.2 (.inr hb), fun _ hb => hb⟩

end Repeatable

/-! ## Records about sites -/

theorem repeatable_routeTieOffs (s : SiteId) : Repeatable (routeTieOffs d s) := by
  unfold routeTieOffs
  refine .forM (fun name => ?_) _
  dsimp only
  split
  · exact .forM (fun p => (Repeatable.tryStaticRoute _ p).discard) _
  · exact .of_pure _

theorem repeatable_refuse (source : String) (n : NetId) :
    Repeatable (noRoute source n >>= throw : RecordM PUnit) := by
  refine .of_refused fun im im' u hrun => ?_
  obtain ⟨e, mid, -, hthrow⟩ := run_bind_eq_ok.1 hrun
  cases hthrow

theorem repeatable_staticSources (isVcc : Bool) (tokens : List String) :
    Repeatable (staticSources d isVcc tokens) := by
  unfold staticSources
  refine .forM (fun token => ?_) tokens
  split
  next siteName belName pinName _ =>
    refine .bind (.of_constant (.require _ _)) fun s => ?_
    refine .bind (.of_constant (.require _ _)) fun b => ?_
    refine .bind (.of_constant (.require _ _)) fun p => ?_
    refine .bind (.tryStaticRoute _ p) fun driven => ?_
    split
    · exact .tieOff isVcc b
    · exact repeatable_refuse _ _
  next => exact .of_constant (.of_throw _)

theorem again_choose (s : SiteId) (choices : SitePipChoices) :
    Again (edit fun nl =>
      return (nl.setUsedSitePips s choices.used).addSitePipValues s choices.values) := by
  intro im im' u hrun later hlater
  cases hrun
  let choose (nl : Netlist) : Netlist :=
    (nl.setUsedSitePips s choices.used).addSitePipValues s choices.values
  -- Wires in use are replaced and values are added to. Both are there when they come again.
  have hused : later.netlist.usedSitePips.insert s choices.used = later.netlist.usedSitePips := by
    refine Table.insert_of_getElem? ?_
    rw [hlater.netlist.usedSitePips]
    exact Std.ExtTreeMap.getElem?_insert_self
  have hvalues : later.netlist.sitePipValues.alter s
        (fun old => some ((old.getD ∅).insertMany choices.values)) =
      later.netlist.sitePipValues := by
    rw [hlater.netlist.sitePipValues]
    exact Table.alter_alter _ s fun old => congrArg some (Table.insertMany_insertMany _ _)
  have hchosen : choose later.netlist = later.netlist := by
    show { later.netlist with
      usedSitePips := later.netlist.usedSitePips.insert s choices.used
      sitePipValues := later.netlist.sitePipValues.alter s
        fun old => some ((old.getD ∅).insertMany choices.values) } = later.netlist
    rw [hused, hvalues]
  refine ⟨[], ?_, fun before => ?_⟩
  · rintro before base hbase
    refine ⟨choose base, ?_⟩
    rw [List.append_nil, hbase]
    rfl
  · rw [List.append_nil]
    exact congrArg (fun nl : Netlist =>
      Except.ok (Except.ok PUnit.unit, { later with netlist := nl.writeAll before })) hchosen

theorem again_sitePips (args : List String) : Again (sitePips d args) := by
  unfold sitePips
  split
  · exact (Repeatable.of_constant (.of_throw _)).again
  next siteName tokens =>
    refine .of_constant_bind (.require _ _) fun s => ?_
    refine .of_constant_bind (.foldlM (constant_readSitePip s) tokens _) fun choices => ?_
    exact (again_choose s choices).bind fun _ => repeatable_routeTieOffs s

def Sets (act : RecordM PUnit) : Prop :=
  ∀ im im' u, act.run.run im = .ok (.ok u, im') → ∃ entries : List (BelId × Routethrough), ∀ im,
    act.run.run im =
      .ok (.ok ⟨⟩, { im with routethroughs := im.routethroughs.insertMany entries })

namespace Sets

theorem of_constant_bind {act : RecordM α} {f : α → RecordM PUnit} (h : Constant act)
    (hf : ∀ a, Sets (f a)) : Sets (act >>= f) := by
  obtain ⟨r, hr⟩ := h
  intro im im' u hrun
  rw [run_bind, hr] at hrun
  cases r with
  | error e => cases hrun
  | ok a =>
    obtain ⟨entries, hentries⟩ := hf a im im' u hrun
    refine ⟨entries, fun im => ?_⟩
    rw [run_bind_of_ok (hr im), hentries]

theorem insert (b : BelId) (through : Routethrough) : Sets (modify fun im : Importer =>
    { im with routethroughs := im.routethroughs.insert b through } : RecordM PUnit) := by
  intro im im' u hrun
  refine ⟨[(b, through)], fun im => ?_⟩
  rw [Std.ExtTreeMap.insertMany_list_singleton]
  rfl

theorem forM {f : α → RecordM PUnit} (hf : ∀ a, Sets (f a)) (as : List α) : Sets (as.forM f) := by
  induction as with
  | nil =>
    intro im im' u hrun
    refine ⟨[], fun im => ?_⟩
    rw [Std.ExtTreeMap.insertMany_nil]
    rfl
  | cons a as ih =>
    intro im im' u hrun
    unfold List.forM at hrun ⊢
    obtain ⟨v, mid, hhead, hrest⟩ := run_bind_eq_ok.1 hrun
    obtain ⟨entries, hentries⟩ := hf a im mid v hhead
    obtain ⟨entries', hentries'⟩ := ih mid im' u hrest
    refine ⟨entries ++ entries', fun im => ?_⟩
    rw [run_bind_of_ok (hentries im), hentries', Std.ExtTreeMap.insertMany_append]

end Sets

theorem sets_routethroughs (tokens : List String) : Sets (routethroughs d tokens) := by
  unfold routethroughs
  refine .forM (fun token => ?_) tokens
  split
  next siteName belName inputName outputName _ =>
    refine .of_constant_bind (.require _ _) fun s => ?_
    refine .of_constant_bind (.require _ _) fun b => ?_
    refine .of_constant_bind (.require _ _) fun input => ?_
    refine .of_constant_bind (.require _ _) fun output => ?_
    exact .insert b ⟨input, output⟩
  next => exact fun im im' u hrun => by cases hrun

end Record

def RecordKind.IsAboutSites : RecordKind → Prop
  | .sitePips | .routethroughs | .staticSources _ => True
  | .intersite | .intrasite | .route | .partitionPin | .staticPorts _ => False

namespace Record

variable {d : Device} {im im' : Importer}

/-- What may have happened since work was done without a need to do it again: whatever was written
is there, and of the importer only the status of nets is different. -/
structure Restful (im later : Importer) : Prop extends im.Advances later where
  written : ∀ ws, im.netlist.writeAll ws = im.netlist → later.netlist.writeAll ws = later.netlist

theorem Restful.refl (im : Importer) : Restful im im := ⟨.refl im, fun _ hws => hws⟩

theorem Again.rest {α : Type} {act : RecordM α} (h : Again act) {a : α}
    (hrun : act.run.run im = .ok (.ok a, im')) {later : Importer} (hlater : Restful im' later) :
    act.run.run later = .ok (.ok a, later) := by
  obtain ⟨ws, hws, hagain⟩ := h im im' a hrun later hlater.toAdvances
  have hrest : later.writeAll ws = later :=
    congrArg (fun nl => { later with netlist := nl }) (hlater.written ws hws.again)
  have hstart : later.writeAll [] = later :=
    congrArg (fun nl => { later with netlist := nl }) (Netlist.writeAll_nil later.netlist)
  have htwice := hagain []
  rw [hstart, List.nil_append, hrest] at htwice
  exact htwice

/-- A record about sites that has been taken in changes nothing when it comes again. -/
theorem process_rest {kind : RecordKind} (hkind : kind.IsAboutSites) {args : List String}
    (hrun : (process d kind args).run.run im = .ok (.ok (), im')) {later : Importer}
    (hlater : Restful im' later) : (process d kind args).run.run later = .ok (.ok (), later) := by
  cases kind with
  | sitePips => exact (again_sitePips args).rest hrun hlater
  | staticSources isVcc => exact (repeatable_staticSources isVcc args).again.rest hrun hlater
  | routethroughs =>
    obtain ⟨entries, hentries⟩ := sets_routethroughs args im im' () hrun
    have him' : im' = { im with routethroughs := im.routethroughs.insertMany entries } := by
      cases hrun.symm.trans (hentries im)
      rfl
    have htable : later.routethroughs.insertMany entries = later.routethroughs := by
      rw [hlater.routethroughs, him']
      exact Table.insertMany_insertMany _ _
    refine (hentries later).trans ?_
    rw [htable]
  | intersite => exact hkind.elim
  | intrasite => exact hkind.elim
  | route => exact hkind.elim
  | partitionPin => exact hkind.elim
  | staticPorts isVcc => exact hkind.elim

/-! ## The end of an import -/

theorem Restful.trans {im'' : Importer} (h : Restful im im') (h' : Restful im' im'') :
    Restful im im'' :=
  ⟨h.toAdvances.trans h'.toAdvances, fun ws hws => h'.written ws (h.written ws hws)⟩

theorem restful_of_updateStatus (im : Importer) (n : NetId) :
    Restful im { im with netlist := im.netlist.modifyNet n Net.updateStatus } := by
  have hgrows : im.netlist.Extends (im.netlist.modifyNet n Net.updateStatus) :=
    .modifyNet im.netlist n fun net => { Net.Extends.refl net with }
  have hstatus : ∀ net : Net, net.Resembles net.updateStatus := fun _ => rfl
  exact ⟨.of_netlist ⟨hgrows, rfl, rfl, rfl⟩,
    fun ws hws => Netlist.writeAll_modifyNet_eq_self hstatus n hws⟩

theorem restful_of_finish (h : finish.run.run im = .ok (.ok (), im')) : Restful im im' := by
  rw [run_finish] at h
  obtain ⟨nl, hboth, heq⟩ := Checked.map_eq_ok.1 h
  obtain ⟨mid, hvcc, hgnd⟩ := Checked.bind_eq_ok.1 hboth
  obtain ⟨-, rfl⟩ := Netlist.updateNet_eq_ok.1 hvcc
  obtain ⟨-, rfl⟩ := Netlist.updateNet_eq_ok.1 hgnd
  cases heq
  exact (restful_of_updateStatus im Netlist.vcc).trans (restful_of_updateStatus _ Netlist.gnd)

theorem updateNet_of_upToDate {nl : Netlist} {n : NetId} (h : nl.UpToDate n) :
    nl.updateNet n Net.updateStatus = .ok nl := by
  obtain ⟨net, hn, hstatus⟩ := h
  refine Netlist.updateNet_eq_ok.2 ⟨by rw [hn]; rfl, ?_⟩
  have hsame : nl.modifyNet n Net.updateStatus = nl.modifyNet n fun net => net := by
    refine Netlist.modifyNet_congr nl fun net' hn' => ?_
    obtain rfl : net = net' := Option.some.inj (hn.symm.trans hn')
    show { net with status := net.computedStatus } = net
    rw [← hstatus]
  rw [hsame, Netlist.modifyNet_id]

/-- The end of an import may come again. -/
theorem finish_again (d : Device) (h : finish.run.run im = .ok (.ok (), im')) :
    finish.run.run im' = .ok (.ok (), im') := by
  have hadmits : Admits d (fun _ => True) True True fun _ => True :=
    ⟨fun _ _ _ _ => trivial, fun _ _ => .inl trivial⟩
  have hdone : ∀ isVcc, im'.netlist.UpToDate (Netlist.staticNet isVcc) :=
    (ensures_finish hadmits (fun _ => trivial) trivial).result h
  have hvcc : im'.netlist.UpToDate Netlist.vcc := hdone true
  have hgnd : im'.netlist.UpToDate Netlist.gnd := hdone false
  rw [run_finish, updateNet_of_upToDate hvcc, Checked.ok_bind, updateNet_of_upToDate hgnd]
  rfl

/-! ## Lines -/

theorem ofKeyword?_keyword {kind : RecordKind} (hkind : kind.IsAboutSites) :
    RecordKind.ofKeyword? kind.keyword = some kind := by
  cases kind with
  | sitePips => decide
  | routethroughs => decide
  | staticSources isVcc => cases isVcc <;> decide
  | intersite => exact hkind.elim
  | intrasite => exact hkind.elim
  | route => exact hkind.elim
  | partitionPin => exact hkind.elim
  | staticPorts isVcc => exact hkind.elim

theorem run_processLines_single {kind : RecordKind} (hkind : kind.IsAboutSites) (line : Nat)
    (args : List String) :
    (processLines d [(line, kind.keyword :: args)]).run.run im = .ok (.ok (), im') ↔
      (process d kind args).run.run im = .ok (.ok (), im') := by
  constructor
  · intro h
    rw [processLines_record (RecordKind.staticNet?_keyword kind) (ofKeyword?_keyword hkind)] at h
    obtain ⟨u, mid, hline, hend⟩ := run_bind_eq_ok.1 h
    rw [processLines] at hend
    cases hend
    unfold atLine at hline
    rw [run_adapt, Checked.map_eq_ok] at hline
    obtain ⟨⟨r, mid⟩, hrecord, heq⟩ := hline
    cases r with
    | error e => cases heq
    | ok u =>
      cases heq
      exact hrecord
  · intro h
    exact (Leads.record (RecordKind.staticNet?_keyword kind) (ofKeyword?_keyword hkind) line h).run

end Record

namespace Importer

/-- A record about sites that stands on one line and has been taken in changes nothing when it comes
again, in the middle of an import or as a text of its own. -/
theorem siteRecord_again {d : Device} {kind : RecordKind} (hkind : kind.IsAboutSites)
    {text : String} {line : Nat} {args : List String}
    (htext : Record.numberedLines text = [(line, kind.keyword :: args)]) {im im' : Importer} :
    ((Record.processLines d (Record.numberedLines text)).run.run im = .ok (.ok (), im') →
      (Record.processLines d (Record.numberedLines text)).run.run im' = .ok (.ok (), im')) ∧
    (im.importText d text = .ok (.ok (), im') → im'.importText d text = .ok (.ok (), im')) := by
  unfold importText Record.importText
  rw [htext]
  constructor
  · intro h
    rw [Record.run_processLines_single hkind] at h ⊢
    exact Record.process_rest hkind h (.refl im')
  · intro h
    obtain ⟨u, mid, hlines, hfinish⟩ := Record.run_bind_eq_ok.1 h
    rw [Record.run_processLines_single hkind] at hlines
    have hrest := Record.process_rest hkind hlines (Record.restful_of_finish hfinish)
    have hlines' := (Record.run_processLines_single hkind line args).2 hrest
    rw [Record.run_bind_of_ok hlines']
    exact Record.finish_again d hfinish

end Importer

namespace Record

/-! ## Two tie-offs that share an input -/

def tied : DeviceDescription where
  name := "tied"
  family := .other
  tiles := [⟨"T", "CLB", []⟩]
  siteTypes := [⟨"SLICE",
    [⟨"G", [⟨"A", none, .wire⟩, ⟨"C", none, .wire⟩]⟩,
      ⟨"V", [⟨"A", none, .wire⟩, ⟨"B", none, .wire⟩]⟩, ⟨"A", []⟩, ⟨"B", []⟩, ⟨"C", []⟩],
    [⟨"HARDGND", [⟨"P", .output, "G"⟩]⟩, ⟨"HARDVCC", [⟨"P", .output, "V"⟩]⟩,
      ⟨"FA", [⟨"D", .input, "A"⟩]⟩, ⟨"FB", [⟨"D", .input, "B"⟩]⟩, ⟨"FC", [⟨"D", .input, "C"⟩]⟩],
    []⟩]
  sites := [⟨"S", "SLICE", "T"⟩]

def untied : NetlistDescription where
  name := "top"
  mode := .regular
  cells := [
    ⟨"fa", "FDRE", some "S/FA", false, ∅, [⟨"D", .input, ["D"]⟩]⟩,
    ⟨"fb", "FDRE", some "S/FB", false, ∅, [⟨"D", .input, ["D"]⟩]⟩,
    ⟨"fc", "FDRE", some "S/FC", false, ∅, [⟨"D", .input, ["D"]⟩]⟩]
  nets := []
  staticNetOf := ∅
  staticRoutes := ∅

end Record

/-- The route of the supply finds `A` grounded and goes on as one of the ground, which `B` joins
too. Its tree takes the place of the one that the ground came to `A` with, once and for all. -/
theorem Importer.siteRecord_again_untied : ∃ d nl im' net,
    Device.ofDescription Record.tied = .ok d ∧ Netlist.ofDescription d Record.untied = .ok nl ∧
    Record.numberedLines "SITE_PIPS S" = [(1, RecordKind.sitePips.keyword :: ["S"])] ∧
    (ofNetlist nl).importText d "SITE_PIPS S" = .ok (.ok (), im') ∧
    im'.netlist.net? Netlist.gnd = some net ∧ net.pins = [⟨0⟩, ⟨2⟩, ⟨1⟩] ∧
    net.intrasite.length = 2 ∧ im'.importText d "SITE_PIPS S" = .ok (.ok (), im') := by
  have hline : Record.numberedLines "SITE_PIPS S" =
      [(1, RecordKind.sitePips.keyword :: ["S"])] := by
    decide +kernel
  have hrun : (do
      let d ← (Device.ofDescription Record.tied).toOption
      let nl ← (Netlist.ofDescription d Record.untied).toOption
      let (r, im') ← ((ofNetlist nl).importText d "SITE_PIPS S").toOption
      let net ← im'.netlist.net? Netlist.gnd
      return (r, net.pins, net.intrasite.length)) = some (.ok (), [⟨0⟩, ⟨2⟩, ⟨1⟩], 2) := by
    decide +kernel
  simp only [Option.bind_eq_bind, Option.bind_eq_some_iff, Checked.toOption_eq_some,
    Option.pure_def, Option.some.injEq, Prod.mk.injEq] at hrun
  obtain ⟨d, hd, nl, hnl, ⟨r, im'⟩, hfirst, net, hnet, rfl, hpins, htrees⟩ := hrun
  have hkind : RecordKind.sitePips.IsAboutSites := trivial
  have hagain := (siteRecord_again hkind hline).2 hfirst
  exact ⟨d, nl, im', net, hd, hnl, hline, hfirst, hnet, hpins, htrees, hagain⟩

end Fabric
