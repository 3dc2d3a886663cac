import Fabric.Proofs.Netlist.PartitionPins
import Fabric.Proofs.Record.Lines
/-!
# Partition pins while records are taken in

A loaded netlist has no partition pins, and every record notes the names of the ports that it gives
one. So all that is known of partition pins holds in every state of an import.
-/

namespace Fabric

open Relation (ReflTransGen)

variable {d : Device} {nl nl' : Netlist}

namespace Netlist

/-! ## Loading -/

def Unfenced (nl : Netlist) : Prop := ∀ p kind, nl.kindOf? p = some kind → kind = .regular

theorem Unfenced.of_kinds (h : nl.Unfenced) (hkinds : ∀ p, nl'.kindOf? p = nl.kindOf? p) :
    nl'.Unfenced := fun p kind hp => h p kind (hkinds p ▸ hp)

theorem Unfenced.load (h : nl.Unfenced) (hstep : Loading d nl nl') : nl'.Unfenced := by
  cases hstep with
  | cell => exact h
  | place => exact h
  | pin hc name dir =>
    intro p kind hp
    unfold kindOf? at hp
    rw [pin?_addPin] at hp
    split at hp
    · exact (Option.some.inj hp).symm
    · exact h p kind hp
  | map =>
    refine h.of_kinds fun p => ?_
    unfold kindOf?
    rw [pin?_mapPin]
    split
    · rw [Option.map_map]
      rfl
    · rfl
  | rename isVcc name => exact h.of_kinds fun p => by rw [kindOf?, pin?_renameNet, kindOf?]
  | net => exact h
  | join _ p => exact h.of_kinds (Moves.attach nl _ p).kindOf?
  | tables => exact h

theorem Fenced.load (h : nl.Fenced) (hunfenced : nl.Unfenced) (hstep : Loading d nl nl') :
    nl'.Fenced := by
  cases hstep with
  | cell name type => exact (h.addCell name type).modifyCell _ fun _ => rfl
  | place => exact h.place _ _ _
  | pin hc name dir => exact h.addPin _ name dir .regular nofun nofun
  | map hp hkind =>
    refine h.mapPin ⟨.regular, ?_, nofun⟩ _
    rw [kindOf?_eq hp, hkind]
  | rename isVcc name => exact h.shift (.renameNet nl _ name)
  | net name => exact h.shift (.addNet nl name .wire)
  | join hn p =>
    refine h.shift (.attach hn fun pin _ htie => ?_)
    cases hunfenced p _ htie
  | tables => exact h.shift (.of_eq rfl rfl rfl rfl rfl (.of_eq Feeds.refl rfl))

theorem fenced_empty (name : String) (mode : Mode) : (empty name mode).Fenced := by
  constructor
  · simp [empty, Netlist.addNet, cellNamed?]
  · simp [empty, Netlist.addNet, pin?]
  · simp [empty, Netlist.addNet, pin?]
  · simp [empty, Netlist.addNet, netOf?, pin?]
  · simp [empty, Netlist.addNet, pinAt?]
  · intro n net p hn hp
    have hsource := (consistent_empty name mode).source n net p hn hp
    have hon := ((consistent_empty name mode).mem_pins hn p).1 hsource
    simp [empty, Netlist.addNet, netOf?, pin?] at hon
  · rintro net ⟨⟩
    rfl
  · exact Nat.le_refl 2

theorem fenced_of_ofDescription {desc : NetlistDescription} (h : ofDescription d desc = .ok nl) :
    nl.Fenced := by
  have hloads := loads_of_ofDescription h
  clear h
  have hboth : nl.Fenced ∧ nl.Unfenced := by
    induction hloads with
    | refl =>
      refine ⟨fenced_empty _ _, fun p kind hp => ?_⟩
      simp [empty, Netlist.addNet, kindOf?, pin?] at hp
    | tail _ hstep ih => exact ⟨ih.1.load ih.2 hstep, ih.2.load hstep⟩
  exact hboth.1

end Netlist

/-! ## Routes -/

namespace SiteRoute

variable {r : SiteRoute}

theorem Entering.fenced (h : Entering d r nl nl') (hnl : nl.Fenced) : nl'.Fenced := by
  cases h with
  | register _ hnote =>
    exact hnl.shift (.modifyNet nl _ (fun net => (hnote.registers net _).grows.kind)
      fun net => (hnote.registers net _).joins)
  | join hn _ _ hat =>
    exact hnl.shift (.attach hn fun _ _ htie => ((hnl.mapped _ _ hat).not_isTie htie).elim)
  | @tie n c _ b name hn =>
    let added := nl.addPseudoPin c name (d.belPinDir b)
    have hn' : (added.net? n).isSome := hn
    have hkind : PinKind.pseudo ≠ .partition none := nofun
    have hnew : added.IsPlain nl.nextPin := Netlist.isPlain_addPin nl hkind c name (d.belPinDir b)
    have hattach : added.Shifts (added.attach n nl.nextPin) :=
      .attach hn' fun _ _ htie => (hnew.not_isTie htie).elim
    have hadded : added.Fenced := hnl.addPseudoPin c name (d.belPinDir b)
    exact (hadded.shift hattach).mapPin (hattach.isPlain_iff.2 hnew) b

theorem fenced_of_enters (h : ReflTransGen (Entering d r) nl nl') (hnl : nl.Fenced) :
    nl'.Fenced := by
  induction h with
  | refl => exact hnl
  | tail _ hstep ih => exact hstep.fenced ih

theorem fenced_of_markRouted (h : r.markRouted nl = .ok nl') (hnl : nl.Fenced) : nl'.Fenced := by
  have hfold : ∀ net : Net, ((r.sinkPins nl).foldl Net.addRoutedSink net).kind = net.kind ∧
      ((r.sinkPins nl).foldl Net.addRoutedSink net).joins = net.joins := by
    intro net
    obtain ⟨routedSinks, heq⟩ := exists_foldl_addRoutedSink (r.sinkPins nl) net
    rw [heq]
    exact ⟨rfl, rfl⟩
  obtain ⟨-, rfl⟩ := markRouted_eq_ok.1 h
  exact hnl.shift (.modifyNet nl _ (fun net => (hfold net).1) fun net => (hfold net).2)

end SiteRoute

/-! ## Records -/

namespace Record

variable {im im' : Importer}

theorem Adds.fenced {S : NetId → Prop} {C : Prop} (h : Adds d S C im im')
    (him : im.netlist.Fenced) : im'.netlist.Fenced := by
  cases h with
  | enter _ _ happly hmark =>
    exact SiteRoute.fenced_of_markRouted hmark
      (SiteRoute.fenced_of_enters (SiteRoute.enters_of_apply happly) him)
  | await _ happly => exact SiteRoute.fenced_of_enters (SiteRoute.enters_of_apply happly) him
  | arrive _ hmark => exact SiteRoute.fenced_of_markRouted hmark him
  | note hf _ =>
    exact him.shift (.modifyNet _ _ (fun net => (hf.grows net).kind) hf.joins)
  | choose => exact him.shift (.of_eq rfl rfl rfl rfl rfl (.of_eq Netlist.Feeds.refl rfl))
  | pass => exact him
  | tieOff isVcc => cases isVcc <;> exact him
  | portNode port node => exact him.notePort port node

theorem NotedPort.isNoted {port : CellId} (h : NotedPort nl port) (hnl : nl.Fenced) :
    nl.IsNoted port := by
  obtain ⟨name, hnamed, hnode⟩ := h
  obtain ⟨cell, hcell, rfl⟩ := hnl.named name port hnamed
  exact ⟨cell, hcell, hnode⟩

theorem Bounds.fenced (h : Bounds im im') (him : im.netlist.Fenced) : im'.netlist.Fenced := by
  cases h with
  | intro _ _ hadd reservedNodes hnoted =>
    have hadded := him.of_addPartitionPin (hnoted.isNoted him) hadd
    exact hadded.shift (.of_eq rfl rfl rfl rfl rfl (.of_eq Netlist.Feeds.refl rfl))

theorem Ties.fenced {isVcc : Bool} {port : CellId} (h : Ties isVcc port im im')
    (him : im.netlist.Fenced) : im'.netlist.Fenced := by
  cases h with
  | intro _ _ htie hnoted => exact him.of_tiePort ⟨isVcc, rfl⟩ (hnoted.isNoted him) htie

theorem maintains_fenced (d : Device) :
    Maintains d fun im => im.netlist.Consistent ∧ im.netlist.Fenced where
  consistent _ h := h.1
  adds _ _ h hadds := ⟨hadds.consistent h.1, hadds.fenced h.2⟩
  bounds _ _ h hbounds := ⟨hbounds.consistent h.1, hbounds.fenced h.2⟩
  ties _ _ _ _ h hties := ⟨hties.consistent h.1, hties.fenced h.2⟩

theorem fenced_of_reaches {desc : NetlistDescription} (hnl : Netlist.ofDescription d desc = .ok nl)
    {text : String} (hreaches : (Importer.ofNetlist nl).Reaches d text im) :
    im.netlist.Consistent ∧ im.netlist.Fenced := by
  have hconsistent : nl.Consistent := (Netlist.closed_of_ofDescription hnl).toConsistent
  exact (maintains_fenced d).reaches ⟨hconsistent, Netlist.fenced_of_ofDescription hnl⟩ hreaches

end Record

end Fabric
