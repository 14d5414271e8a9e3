import AirShifter.FlatMeaning
import AirShifter.WifiManager

/-!
# Provisioning

Wi-Fi credentials on their way from a JSON packet to the non-volatile storage: the packet
is parsed, the credential waits in the queue, the Wi-Fi task takes it and stores it, and
after a restart it is loaded.

## Main results

* `queueKept_foldl`: the queue keeps what it accepted, in its place, along every run.
* `QueueKept.receive`: an accepted credential is received in its turn.
* `provisioning_round_trip`: the credentials of a packet arrive unchanged.
-/

open CBytes

namespace AirShifter

/-! ### Provisioning packets -/

/-- The whitespace of a member: before the name, around the colon, behind the value. -/
structure Spacing where
  wsName : Ws
  wsColon : Ws
  wsValue : Ws
  wsEnd : Ws

/-- No whitespace. -/
def Spacing.none : Spacing :=
  ⟨noWs, noWs, noWs, noWs⟩

/-- A member with the given spacing. -/
def Spacing.member (sp : Spacing) (name : PlainStr) (value : FlatValue) : FlatMember :=
  ⟨sp.wsName, name, sp.wsColon, sp.wsValue, value, sp.wsEnd⟩

/-- A provisioning packet: an object with the string members `"ssid"` and `"pass"`, in
either order. -/
structure WifiPacket where
  ssid : PlainStr
  pass : PlainStr
  passFirst : Bool
  lead : Ws
  ssidSpacing : Spacing
  passSpacing : Spacing
  trail : Ws

/-- The name `ssid`. -/
def ssidName : PlainStr := ⟨ascii "ssid", by decide⟩

/-- The name `pass`. -/
def passName : PlainStr := ⟨ascii "pass", by decide⟩

variable (w : WifiPacket)

/-- The member with the SSID. -/
def WifiPacket.ssidMember : FlatMember :=
  w.ssidSpacing.member ssidName (.str w.ssid)

/-- The member with the password. -/
def WifiPacket.passMember : FlatMember :=
  w.passSpacing.member passName (.str w.pass)

/-- The object of a packet. -/
def WifiPacket.object : FlatObject where
  lead := w.lead
  members := if w.passFirst then [w.passMember, w.ssidMember] else [w.ssidMember, w.passMember]
  inner := noWs
  trail := w.trail

/-- The name `ssid` stands for the SSID. -/
theorem keyOfName_ssidName : keyOfName ssidName.val = some .ssid := by decide

/-- The name `pass` stands for the password. -/
theorem keyOfName_passName : keyOfName passName.val = some .pass := by decide

/-- The packet has two members, in either order. -/
theorem WifiPacket.mem_members {m : FlatMember} :
    m ∈ w.object.members ↔ m = w.ssidMember ∨ m = w.passMember := by
  rw [WifiPacket.object]
  cases w.passFirst
  · simp
  · simp [or_comm]

theorem WifiPacket.length_members : w.object.members.length = 2 := by
  rw [WifiPacket.object]
  cases w.passFirst <;> rfl

/-- The SSID is the text of the first member for it. -/
theorem WifiPacket.memberText_ssid : memberText .ssid w.object.members = w.ssid.val := by
  have hs : keyOfName w.ssidMember.name.val = some .ssid := keyOfName_ssidName
  have hp : keyOfName w.passMember.name.val = some .pass := keyOfName_passName
  rw [memberText, WifiPacket.object]
  cases w.passFirst <;> simp [hs, hp] <;> rfl

/-- The password is the text of the first member for it. -/
theorem WifiPacket.memberText_pass : memberText .pass w.object.members = w.pass.val := by
  have hs : keyOfName w.ssidMember.name.val = some .ssid := keyOfName_ssidName
  have hp : keyOfName w.passMember.name.val = some .pass := keyOfName_passName
  rw [memberText, WifiPacket.object]
  cases w.passFirst <;> simp [hs, hp] <;> rfl

/-- No key has two members. -/
theorem WifiPacket.atMostOne {key : PacketKey} : AtMostOne key w.object.members := by
  have hs : keyOfName w.ssidMember.name.val = some .ssid := keyOfName_ssidName
  have hp : keyOfName w.passMember.name.val = some .pass := keyOfName_passName
  rw [AtMostOne, WifiPacket.object]
  cases w.passFirst <;> cases key <;> simp [hs, hp]

/-- Both names are known, so that no value is taken for a key. -/
theorem WifiPacket.noStrayKey : NoStrayKey w.object.members := by
  intro m hm hstray
  have hnone := hstray.1
  rcases (w.mem_members).mp (List.dropLast_subset _ hm) with rfl | rfl
  · exact absurd (keyOfName_ssidName.symm.trans hnone) (by simp)
  · exact absurd (keyOfName_passName.symm.trans hnone) (by simp)

/-- The packet commands no control. -/
theorem WifiPacket.controlCalls_eq : controlCalls w.object.members = [] := by
  rw [controlCalls, List.flatMap_eq_nil_iff]
  intro m hm
  rcases (w.mem_members).mp hm with rfl | rfl
  · have hs : keyOfName w.ssidMember.name.val = some .ssid := keyOfName_ssidName
    rw [hs]
  · have hp : keyOfName w.passMember.name.val = some .pass := keyOfName_passName
    rw [hp]

/-- The credential that a packet carries. -/
def WifiPacket.cred : WifiCredentials :=
  mkCred (w.ssid.val.take wifiSsidMaxLen) (w.pass.val.take wifiPassMaxLen)

/-- **The JSON pass over a provisioning packet** applies its credential, if the SSID is not
empty. -/
theorem WifiPacket.jsonPass_eq : (jsonPass w.object.bytes).1 =
    if w.ssid.val = [] then [] else [.applyWifiCredentials w.cred] := by
  have hroom : 1 + 2 * w.object.members.length ≤ jsmnTokenMax := by
    rw [w.length_members]
    decide
  rw [jsonPass_eq_reference hroom w.atMostOne w.atMostOne w.noStrayKey, referenceCalls,
    w.controlCalls_eq, w.memberText_ssid, w.memberText_pass, List.nil_append]
  rfl

/-- A packet with an SSID applies its credential, and does nothing else. -/
theorem WifiPacket.parserHandlePacket_eq (hne : w.ssid.val ≠ []) :
    parserHandlePacket w.object.bytes = ⟨[.applyWifiCredentials w.cred], [], true⟩ := by
  have hjson := w.jsonPass_eq
  rw [if_neg hne] at hjson
  rw [parserHandlePacket_of_ne_nil (by rw [hjson]; exact List.cons_ne_nil _ _), hjson]

/-! ### The queue along a run -/

/-- What happens to the business logic: a caller makes calls, or the Wi-Fi task tries to
take a credential. -/
inductive BizEvent
  | calls (freed : Bool) (calls : List BizCall)
  | receive

/-- The effect of an event. -/
def bizStep (s : BizState) : BizEvent → BizState
  | .calls freed calls => bizCalls freed s calls
  | .receive => dequeue s

/-- The queue of `s'` holds everything the queue of `s` accepted, in its place. -/
def QueueKept (s s' : BizState) : Prop :=
  ∀ q ∈ s.wifiCredQueue, ∃ q' ∈ s'.wifiCredQueue, q.sent <+: q'.sent

/-- If nothing happens, the queue is kept. -/
theorem QueueKept.refl (s : BizState) : QueueKept s s :=
  fun q hq => ⟨q, hq, List.prefix_refl _⟩

/-- A queue that is kept twice is kept. -/
theorem QueueKept.trans {s₁ s₂ s₃ : BizState} (h₁ : QueueKept s₁ s₂) (h₂ : QueueKept s₂ s₃) :
    QueueKept s₁ s₃ := by
  intro q₁ hq₁
  obtain ⟨q₂, hq₂, h₁₂⟩ := h₁ q₁ hq₁
  obtain ⟨q₃, hq₃, h₂₃⟩ := h₂ q₂ hq₂
  exact ⟨q₃, hq₃, h₁₂.trans h₂₃⟩

/-- A send takes nothing back that the queue has accepted. -/
theorem CredQueue.sent_prefix_send (q : CredQueue) (cred : WifiCredentials) (freed : Bool) :
    q.sent <+: (q.send cred freed).sent := by
  rw [CredQueue.send]
  split_ifs
  · exact List.prefix_append _ _
  · exact List.prefix_append _ _
  · exact List.prefix_refl _

/-- No call of the parser takes the queue away, or back what it has accepted. -/
theorem queueKept_bizCall (freed : Bool) (s : BizState) (call : BizCall) :
    QueueKept s (bizCall freed s call) := by
  cases call with
  | set c v => exact QueueKept.refl s
  | applyWifiCredentials cred =>
      intro q hq
      rw [bizCall, bizApplyWifiCredentials, Option.mem_def.mp hq]
      exact ⟨_, rfl, q.sent_prefix_send _ _⟩

/-- Neither does any event of the business logic. -/
theorem queueKept_bizStep (s : BizState) (e : BizEvent) : QueueKept s (bizStep s e) := by
  cases e with
  | calls freed calls =>
      rw [bizStep, bizCalls]
      induction calls generalizing s with
      | nil => exact QueueKept.refl s
      | cons call calls ih => exact (queueKept_bizCall freed s call).trans (ih _)
  | receive =>
      intro q hq
      rw [bizStep, dequeue, Option.mem_def.mp hq, Option.bind_some]
      cases hr : q.receive with
      | none => exact ⟨q, hq, List.prefix_refl _⟩
      | some r => exact ⟨r.2, rfl, (q.sent_receive hr) ▸ List.prefix_refl _⟩

/-- Nothing that was accepted is lost, moved or duplicated along a run. -/
theorem queueKept_foldl (es : List BizEvent) (s : BizState) : QueueKept s (es.foldl bizStep s) := by
  induction es generalizing s with
  | nil => exact QueueKept.refl s
  | cons e es ih => exact (queueKept_bizStep s e).trans (ih _)

/-- **An accepted credential is received in its turn**: when as many were taken as were
accepted before it. -/
theorem QueueKept.receive {s s' : BizState} (h : QueueKept s s') {q q' : CredQueue}
    (hq : s.wifiCredQueue = some q) (hq' : s'.wifiCredQueue = some q')
    {before : List WifiCredentials} {cred : WifiCredentials} (hsent : q.sent = before ++ [cred])
    (hturn : q'.taken = before.length) : ∃ q'', q'.receive = some (cred, q'') := by
  obtain ⟨q₁, hq₁, rest, hrest⟩ := h q hq
  obtain rfl : q' = q₁ := Option.some.inj (hq'.symm.trans hq₁)
  rw [hsent, List.append_assoc, List.singleton_append] at hrest
  have hlt : q'.taken < q'.sent.length := by
    rw [hturn, ← hrest]
    simp
  have hget : q'.sent[q'.taken] = cred := by
    simp only [hturn, ← hrest, List.getElem_append_right le_rfl, Nat.sub_self,
      List.getElem_cons_zero]
  rw [CredQueue.receive, dif_pos hlt, hget]
  exact ⟨_, rfl⟩

/-! ### The round trip -/

/-- Sending to a queue with room. -/
theorem CredQueue.send_of_room {q : CredQueue} (h : q.pending.length < wifiCredQueueLen)
    (cred : WifiCredentials) (freed : Bool) :
    (q.send cred freed).sent = q.sent ++ [cred] ∧ (q.send cred freed).taken = q.taken := by
  rw [CredQueue.pending, List.length_drop] at h
  rw [CredQueue.send, dif_pos (by omega)]
  exact ⟨rfl, rfl⟩

/-- **The provisioning round trip.** The packet with the SSID `S` and the password `P`, of
at most 32 and 64 bytes, is handled: it calls no setter, and adds one credential to a
queue with room. When the Wi-Fi task takes that credential in its turn, whatever happened
in between, it finds the lengths valid, and once it has stored it, `S` and `P` are
loaded. -/
theorem provisioning_round_trip {σ : Type*} (nvs : Nvs σ) (hne : w.ssid.val ≠ [])
    (hslen : w.ssid.val.length ≤ wifiSsidMaxLen) (hplen : w.pass.val.length ≤ wifiPassMaxLen)
    {s : BizState} {q : CredQueue} (hq : s.wifiCredQueue = some q)
    (hroom : q.pending.length < wifiCredQueueLen) (freed : Bool) :
    (parserHandlePacket w.object.bytes).handled = true ∧
      (∀ c v, .set c v ∉ (parserHandlePacket w.object.bytes).calls) ∧
      ∃ cred q₁,
        bizCalls freed s (parserHandlePacket w.object.bytes).calls =
          { s with wifiCredQueue := some q₁ } ∧
        q₁.sent = q.sent ++ [cred] ∧ q₁.taken = q.taken ∧
        (∀ (es : List BizEvent) (q₂ : CredQueue),
          (es.foldl bizStep { s with wifiCredQueue := some q₁ }).wifiCredQueue = some q₂ →
          q₂.taken = q.sent.length → ∃ q₃, q₂.receive = some (cred, q₃)) ∧
        lengthsValid cred = true ∧
        ∀ st start out, ∃ loaded,
          loadCredentialsNvs nvs (wifiManagerStep nvs st {} start cred).1 espOk out =
            (espOk, loaded) ∧ loaded.Holds w.ssid.val w.pass.val := by
  have hs0 : 0 ∉ w.ssid.val := fun h => (w.ssid.2 0 h).2.2 rfl
  have hp0 : 0 ∉ w.pass.val := fun h => (w.pass.2 0 h).2.2 rfl
  have hcred : w.cred = mkCred w.ssid.val w.pass.val := by
    rw [WifiPacket.cred, List.take_of_length_le hslen, List.take_of_length_le hplen]
  have hcopy : credCopy w.cred = w.cred := by
    rw [hcred, credCopy_mkCred hs0 hp0 hslen hplen]
  have hholds : w.cred.Holds w.ssid.val w.pass.val :=
    hcred ▸ holds_mkCred hs0 hp0 hslen hplen
  have hpacket := w.parserHandlePacket_eq hne
  have hcalls : (parserHandlePacket w.object.bytes).calls = [.applyWifiCredentials w.cred] := by
    rw [hpacket]
    rfl
  obtain ⟨hsent, htaken⟩ := CredQueue.send_of_room hroom w.cred freed
  refine ⟨by rw [hpacket], by simp [hcalls], w.cred, q.send w.cred freed, ?_, hsent, htaken, ?_,
    hholds.lengthsValid hne hslen hplen, ?_⟩
  · rw [hcalls]
    simp only [bizCalls, List.foldl_cons, List.foldl_nil, bizCall, bizApplyWifiCredentials, hq,
      hcopy]
  · intro es q₂ hq₂ hturn
    exact (queueKept_foldl es _).receive rfl hq₂ hsent hturn
  · exact fun st start out => load_after_step nvs hholds hne hslen hplen st start out

/-- A storage that keeps one string for each key. -/
def mapNvs : Nvs (NvsKey → Option Bytes) where
  setStr st k s := fun k' => if k' = k then some s else st k'
  getStr st k n :=
    match st k with
    | none => (0x1102, [])
    | some s => if s.length < n then (espOk, s) else (0x110c, [])
  getStr_setStr_self := by
    intro st k s n h
    simp [h]
  getStr_setStr_of_ne := by
    intro st k k' s n h
    simp [h]

/-- A key that was never set is not found. -/
theorem getStr_mapNvs_of_none {st : NvsKey → Option Bytes} {k : NvsKey} (h : st k = none) (n : ℕ) :
    mapNvs.getStr st k n = (0x1102, []) := by
  simp [mapNvs, h]

/-- A string that fits the buffer is read as it was set. -/
theorem getStr_mapNvs_of_some {st : NvsKey → Option Bytes} {k : NvsKey} {s : Bytes}
    (h : st k = some s) {n : ℕ} (hlen : s.length < n) : mapNvs.getStr st k n = (espOk, s) := by
  simp [mapNvs, h, hlen]

/-- The packet `{"ssid":"speed","pass":"}:,"}`. -/
def samplePacket : WifiPacket where
  ssid := speedName
  pass := ⟨ascii "\x7d:,", by decide⟩
  passFirst := false
  lead := noWs
  ssidSpacing := .none
  passSpacing := .none
  trail := noWs

/-- A network with the name of a control, and a password of punctuation. -/
theorem provisioning_round_trip_sample :
    (parserHandlePacket samplePacket.object.bytes).handled = true ∧
      ∃ cred, lengthsValid cred = true ∧
        ∃ loaded, loadCredentialsNvs mapNvs
          (wifiManagerStep mapNvs (fun _ => none) {} {} cred).1 espOk {} = (espOk, loaded) ∧
            loaded.Holds (ascii "speed") (ascii "\x7d:,") := by
  obtain ⟨hhandled, -, cred, q₁, -, -, -, -, hvalid, hload⟩ :=
    provisioning_round_trip samplePacket mapNvs (s := { wifiCredQueue := some .empty })
      (by decide) (by decide) (by decide) rfl (by decide) false
  exact ⟨hhandled, cred, hvalid, hload (fun _ => none) {} {}⟩

end AirShifter
