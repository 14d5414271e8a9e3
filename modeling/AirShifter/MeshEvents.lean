import AirShifter.Runs
import AirShifter.CBytes

/-!
# Mesh Events

`mesh_event_handler` keeps four variables about the mesh, and restarts the DHCP client of a
root. Most of its branches only log. A variable is written in several branches, each with a
value from somewhere else, and nothing else writes it.

## Main results

* `mesh_variables`: what the variables hold after a run of events, in whatever order the
  mesh library reports them, and how often the DHCP client was restarted; and that nothing they
  hold is older than the connection, while there is one.
-/

open CBytes Runs

namespace AirShifter

/-! ### The handler -/

/-- A MAC address. -/
abbrev MeshAddr := Vector UInt8 6

/-- The events of the mesh that the handler does not only log, with what it reads of the data
of the event, and what it gets from `esp_mesh_get_layer`, from `esp_mesh_is_root` and from
`esp_mesh_get_parent_bssid`, which writes nothing if it fails. Every other event is
`logged`. -/
inductive MeshEvent
  | started (layer : ℤ)
  | stopped (layer : ℤ)
  | parentConnected (selfLayer : UInt16) (bssid : MeshAddr) (isRoot : Bool)
  | parentDisconnected (layer : ℤ)
  | layerChange (newLayer : UInt16)
  | rootSwitchAck (layer : ℤ) (bssid : Option MeshAddr)
  | logged

/-- A call for the DHCP client of `netif_sta`. -/
inductive DhcpCall
  | stop | start
  deriving DecidableEq

/-- The variables, and the calls made for the DHCP client so far. -/
structure MeshState where
  isMeshConnected : Bool := false
  meshLayer : ℤ := -1
  meshParentAddr : MeshAddr := Vector.replicate 6 0
  lastLayer : UInt16 := 0
  dhcpCalls : List DhcpCall := []

/-- `mesh_event_handler`. -/
def meshEventHandler (s : MeshState) : MeshEvent → MeshState
  | .started layer => { s with isMeshConnected := false, meshLayer := layer }
  | .stopped layer => { s with isMeshConnected := false, meshLayer := layer }
  | .parentConnected selfLayer bssid isRoot =>
    let s := { s with meshLayer := selfLayer.toNat, meshParentAddr := bssid }
    let s := { s with lastLayer := UInt16.ofInt s.meshLayer, isMeshConnected := true }
    if isRoot then { s with dhcpCalls := s.dhcpCalls ++ [.stop, .start] } else s
  | .parentDisconnected layer => { s with isMeshConnected := false, meshLayer := layer }
  | .layerChange newLayer =>
    let s := { s with meshLayer := newLayer.toNat }
    { s with lastLayer := UInt16.ofInt s.meshLayer }
  | .rootSwitchAck layer bssid =>
    { s with meshLayer := layer, meshParentAddr := bssid.getD s.meshParentAddr }
  | .logged => s

/-- The variables after a run of events. -/
def meshAfter (es : List MeshEvent) : MeshState :=
  es.foldl meshEventHandler {}

/-- The variables after one event more. -/
theorem meshAfter_concat (es : List MeshEvent) (e : MeshEvent) :
    meshAfter (es ++ [e]) = meshEventHandler (meshAfter es) e := by
  rw [meshAfter, List.foldl_append]
  rfl

/-! ### What the mesh library has reported -/

/-- The mesh has a parent from here on. -/
def MeshEvent.Joins : MeshEvent → Prop
  | .parentConnected _ _ _ => True
  | _ => False

/-- The mesh has none from here on. -/
def MeshEvent.Parts : MeshEvent → Prop
  | .started _ | .stopped _ | .parentDisconnected _ => True
  | _ => False

/-- The layer that an event reports, or finds. -/
def MeshEvent.layer : MeshEvent → Option ℤ
  | .started layer | .stopped layer | .parentDisconnected layer => some layer
  | .parentConnected selfLayer _ _ => some selfLayer.toNat
  | .layerChange newLayer => some newLayer.toNat
  | .rootSwitchAck layer _ => some layer
  | .logged => none

/-- The parent that an event reports, or finds. -/
def MeshEvent.parent : MeshEvent → Option MeshAddr
  | .parentConnected _ bssid _ => some bssid
  | .rootSwitchAck _ bssid => bssid
  | _ => none

/-- The layer that is carried in the data of an event. -/
def MeshEvent.reported : MeshEvent → Option UInt16
  | .parentConnected selfLayer _ _ => some selfLayer
  | .layerChange newLayer => some newLayer
  | _ => none

/-- The event connects a root. -/
def MeshEvent.connectsRoot : MeshEvent → Bool
  | .parentConnected _ _ isRoot => isRoot
  | _ => false

/-! ### The variables -/

/-- The layer of an event survives the conversion back to 16 bits. -/
theorem ofInt_toNat_layer (layer : UInt16) : UInt16.ofInt (layer.toNat : ℤ) = layer := by
  have hlt := layer.toNat_lt
  rw [← UInt16.toNat_inj, UInt16.ofInt, UInt16.toNat_ofNat']
  omega

section Handler

variable (s : MeshState) (e : MeshEvent)

/-- The flag follows the events that join and part. -/
theorem isMeshConnected_meshEventHandler :
    (meshEventHandler s e).isMeshConnected = true ↔
      e.Joins ∨ s.isMeshConnected = true ∧ ¬ e.Parts := by
  cases e with
  | parentConnected selfLayer bssid isRoot =>
      rw [meshEventHandler]
      split_ifs <;> exact iff_of_true rfl (Or.inl trivial)
  | started | stopped | parentDisconnected =>
      exact iff_of_false Bool.false_ne_true fun h => h.elim id fun h => h.2 trivial
  | layerChange | rootSwitchAck | logged =>
      exact ⟨fun h => Or.inr ⟨h, not_false⟩, fun h => h.elim False.elim And.left⟩

/-- The layer is the one that the event reports or finds, if any. -/
theorem meshLayer_meshEventHandler :
    (meshEventHandler s e).meshLayer = e.layer.getD s.meshLayer := by
  cases e with
  | parentConnected selfLayer bssid isRoot =>
      rw [meshEventHandler]
      split_ifs <;> rfl
  | started | stopped | parentDisconnected | layerChange | rootSwitchAck | logged => rfl

/-- So is the parent. -/
theorem meshParentAddr_meshEventHandler :
    (meshEventHandler s e).meshParentAddr = e.parent.getD s.meshParentAddr := by
  cases e with
  | parentConnected selfLayer bssid isRoot =>
      rw [meshEventHandler]
      split_ifs <;> rfl
  | started | stopped | parentDisconnected | layerChange | rootSwitchAck | logged => rfl

/-- The 16 bits of the variable hold every layer that an event carries. -/
theorem lastLayer_meshEventHandler :
    (meshEventHandler s e).lastLayer = e.reported.getD s.lastLayer := by
  cases e with
  | parentConnected selfLayer bssid isRoot =>
      rw [meshEventHandler]
      split_ifs <;> exact ofInt_toNat_layer selfLayer
  | layerChange newLayer => exact ofInt_toNat_layer newLayer
  | started | stopped | parentDisconnected | rootSwitchAck | logged => rfl

/-- Only an event that connects a root restarts the DHCP client. -/
theorem dhcpCalls_meshEventHandler :
    (meshEventHandler s e).dhcpCalls =
      s.dhcpCalls ++ if e.connectsRoot then [.stop, .start] else [] := by
  cases e with
  | parentConnected selfLayer bssid isRoot =>
      rw [meshEventHandler]
      cases isRoot with
      | true => rfl
      | false => exact (List.append_nil _).symm
  | started | stopped | parentDisconnected | layerChange | rootSwitchAck | logged =>
      exact (List.append_nil _).symm

end Handler

/-- Each variable after every run of events. -/
theorem meshAfter_history (es : List MeshEvent) :
    ((meshAfter es).isMeshConnected = true ↔ Since MeshEvent.Joins MeshEvent.Parts es) ∧
      (meshAfter es).meshLayer = (latest MeshEvent.layer es).getD (-1) ∧
      (meshAfter es).meshParentAddr = (latest MeshEvent.parent es).getD (Vector.replicate 6 0) ∧
      (meshAfter es).lastLayer = (latest MeshEvent.reported es).getD 0 ∧
      (meshAfter es).dhcpCalls =
        (es.filter MeshEvent.connectsRoot).flatMap fun _ => [.stop, .start] := by
  induction es using List.reverseRecOn with
  | nil => exact ⟨iff_of_false Bool.false_ne_true not_since_nil, rfl, rfl, rfl, rfl⟩
  | append_singleton es e ih =>
      obtain ⟨hconnected, hlayer, hparent, hlast, hdhcp⟩ := ih
      rw [meshAfter_concat, isMeshConnected_meshEventHandler, meshLayer_meshEventHandler,
        meshParentAddr_meshEventHandler, lastLayer_meshEventHandler, dhcpCalls_meshEventHandler,
        since_concat_iff, latest_concat, latest_concat, latest_concat, Option.getD_or,
        Option.getD_or, Option.getD_or, hconnected, hlayer, hparent, hlast, hdhcp,
        List.filter_append, List.flatMap_append]
      refine ⟨Iff.rfl, rfl, rfl, rfl, ?_⟩
      rw [List.filter_singleton]
      cases e.connectsRoot <;> rfl

/-- The variables are those of a connection to a parent that is not lost yet: the layer and the
parent are the ones that it came with, or later ones. -/
def Connection (es : List MeshEvent) : Prop :=
  ∃ pre selfLayer bssid isRoot post, es = pre ++ .parentConnected selfLayer bssid isRoot :: post ∧
    (∀ e ∈ post, ¬ e.Parts) ∧
    (meshAfter es).meshLayer = (latest MeshEvent.layer post).getD selfLayer.toNat ∧
    (meshAfter es).meshParentAddr = (latest MeshEvent.parent post).getD bssid ∧
    (meshAfter es).lastLayer = (latest MeshEvent.reported post).getD selfLayer

/-- **While the mesh is connected** the variables are those of the connection. -/
theorem connection_of_since {es : List MeshEvent}
    (h : Since MeshEvent.Joins MeshEvent.Parts es) : Connection es := by
  obtain ⟨-, hlayer, hparent, hlast, -⟩ := meshAfter_history es
  obtain ⟨pre, e, post, rfl, hjoins, hpost⟩ := h
  cases e with
  | started | stopped | parentDisconnected | layerChange | rootSwitchAck | logged =>
      exact hjoins.elim
  | parentConnected selfLayer bssid isRoot =>
      rw [latest_append_cons] at hlayer hparent hlast
      refine ⟨pre, selfLayer, bssid, isRoot, post, rfl, hpost, ?_, ?_, ?_⟩
      · rw [hlayer]
        cases latest MeshEvent.layer post <;> rfl
      · rw [hparent]
        cases latest MeshEvent.parent post <;> rfl
      · rw [hlast]
        cases latest MeshEvent.reported post <;> rfl

/-- **The mesh variables.** After every run of events: the mesh counts as connected exactly if
a parent was connected and the mesh has not been started or stopped, nor lost the parent,
since; the layer and the parent are the latest that an event reported or found, also while
the mesh is not connected; the layer that the log shows as the one before is the latest that
an event carried; the DHCP client was stopped and started once for each time that a root
was connected; and while the mesh counts as connected, none of them is older than the
connection. -/
theorem mesh_variables (es : List MeshEvent) :
    ((meshAfter es).isMeshConnected = true ↔ Since MeshEvent.Joins MeshEvent.Parts es) ∧
      (meshAfter es).meshLayer = (latest MeshEvent.layer es).getD (-1) ∧
      (meshAfter es).meshParentAddr = (latest MeshEvent.parent es).getD (Vector.replicate 6 0) ∧
      (meshAfter es).lastLayer = (latest MeshEvent.reported es).getD 0 ∧
      (meshAfter es).dhcpCalls =
        ((es.filter MeshEvent.connectsRoot).flatMap fun _ => [.stop, .start]) ∧
      ((meshAfter es).isMeshConnected = true → Connection es) := by
  obtain ⟨hconnected, hlayer, hparent, hlast, hdhcp⟩ := meshAfter_history es
  exact ⟨hconnected, hlayer, hparent, hlast, hdhcp,
    fun h => connection_of_since (hconnected.mp h)⟩

end AirShifter
