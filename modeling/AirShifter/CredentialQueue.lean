import AirShifter.Provisioning
import AirShifter.Runs

/-!
# The Credential Queue Between Two Tasks

Packets hand credentials to the queue on one side, and the Wi-Fi task takes them out on the
other side, each at its own pace. A send to a full queue gives up after 50 ms, and its
result is only logged: the parser reports the packet as handled either way.

## Main results

* `queued_consistent`: whatever the packets are, the queue holds consistent credentials, so
  that the length check rejects exactly those without an SSID.
* `acknowledged_kept_iff`: every acknowledged credential reaches the task once, in order,
  and the last one stays stored, exactly along the runs that never send to a full queue.
-/

open CBytes Runs

namespace AirShifter

/-! ### Runs -/

/-- A packet is handled, with a flag whether the task takes an element while a send waits
on a full queue; or the task tries to take an element. -/
inductive QueueEvent
  | packet (buf : Bytes) (freed : Bool)
  | receive

/-- An event as an event of the business logic. -/
def QueueEvent.biz : QueueEvent → BizEvent
  | .packet buf freed => .calls freed (parserHandlePacket buf).calls
  | .receive => .receive

/-- The effect of an event. -/
def queueStep (s : BizState) (e : QueueEvent) : BizState :=
  bizStep s e.biz

/-- The business logic after start-up. -/
def bootBiz : BizState where
  wifiCredQueue := some .empty

/-- The queue; before it is created there is nothing in it. -/
def BizState.queue (s : BizState) : CredQueue :=
  s.wifiCredQueue.getD .empty

/-- The business logic after a run. -/
def bizAfter (es : List QueueEvent) : BizState :=
  es.foldl queueStep bootBiz

/-- The credentials of an event whose packet was reported as handled. -/
def QueueEvent.acknowledged : QueueEvent → List WifiCredentials
  | .packet buf _ =>
    if (parserHandlePacket buf).handled then appliedCreds (parserHandlePacket buf).calls else []
  | .receive => []

/-- The credentials that were acknowledged along a run, in order. -/
def acknowledgedCreds (es : List QueueEvent) : List WifiCredentials :=
  es.flatMap QueueEvent.acknowledged

/-- The elements that the task has taken, oldest first. -/
def CredQueue.received (q : CredQueue) : List WifiCredentials :=
  q.sent.take q.taken

/-! ### The queue after an event -/

/-- The state after one event more. -/
theorem bizAfter_concat (es : List QueueEvent) (e : QueueEvent) :
    bizAfter (es ++ [e]) = queueStep (bizAfter es) e := by
  rw [bizAfter, List.foldl_append]
  rfl

/-- The calls of a packet send its credentials. -/
theorem wifiCredQueue_bizCalls (freed : Bool) (calls : List BizCall) (s : BizState) :
    (bizCalls freed s calls).wifiCredQueue = s.wifiCredQueue.map fun q =>
      (appliedCreds calls).foldl (fun q cred => q.send (credCopy cred) freed) q := by
  induction calls generalizing s with
  | nil => simp [bizCalls, appliedCreds]
  | cons call calls ih =>
      have hstep : bizCalls freed s (call :: calls) = bizCalls freed (bizCall freed s call) calls :=
        rfl
      rw [hstep, ih]
      cases call with
      | set c v => rfl
      | applyWifiCredentials cred =>
          rw [bizCall, bizApplyWifiCredentials]
          cases hq : s.wifiCredQueue with
          | none => rw [Option.map_none, hq, Option.map_none]
          | some q => rfl

/-- **A packet has no credential, or one that fits**, and then it is reported as handled. -/
theorem appliedCreds_packet (buf : Bytes) :
    appliedCreds (parserHandlePacket buf).calls = [] ∨
      ∃ cred, cred.Fitting ∧ appliedCreds (parserHandlePacket buf).calls = [cred] ∧
        (parserHandlePacket buf).handled = true := by
  obtain ⟨hhandled, -, hcount, -⟩ := packet_once buf
  rw [← length_appliedCreds] at hcount
  cases hcreds : appliedCreds (parserHandlePacket buf).calls with
  | nil => exact Or.inl rfl
  | cons cred creds =>
      rw [hcreds, List.length_cons] at hcount
      obtain rfl : creds = [] := List.length_eq_zero_iff.mp (by omega)
      have hmem : cred ∈ appliedCreds (parserHandlePacket buf).calls := by
        rw [hcreds]
        exact List.mem_singleton_self cred
      refine Or.inr ⟨cred, fitting_of_packet hmem, rfl, hhandled.mpr fun hnil => ?_⟩
      rw [hnil] at hmem
      exact absurd hmem List.not_mem_nil

/-- A packet with a credential is reported as handled. -/
theorem acknowledged_packet (buf : Bytes) (freed : Bool) :
    (QueueEvent.packet buf freed).acknowledged = appliedCreds (parserHandlePacket buf).calls := by
  rw [QueueEvent.acknowledged]
  rcases appliedCreds_packet buf with hnil | ⟨cred, -, -, hhandled⟩
  · rw [hnil, ite_self]
  · rw [if_pos hhandled]

/-- A send is accepted if there is room, or the task makes some; otherwise it does
nothing. -/
theorem CredQueue.send_cases (q : CredQueue) (cred : WifiCredentials) (freed : Bool) :
    (q.pending.length < wifiCredQueueLen ∨ freed = true →
      (q.send cred freed).sent = q.sent ++ [cred]) ∧
    (¬ (q.pending.length < wifiCredQueueLen ∨ freed = true) → q.send cred freed = q) := by
  have hroom : q.pending.length < wifiCredQueueLen ↔
      q.sent.length < q.taken + wifiCredQueueLen := by
    have hle := q.taken_le
    rw [CredQueue.pending, List.length_drop]
    omega
  rw [hroom, CredQueue.send]
  constructor
  · rintro (h | h)
    · rw [dif_pos h]
    · split_ifs <;> rfl
  · rw [not_or]
    rintro ⟨hfull, hfreed⟩
    rw [dif_neg hfull, if_neg hfreed]

/-- The queue of a state that has one. -/
theorem BizState.queue_eq {s : BizState} {q : CredQueue} (hq : s.wifiCredQueue = some q) :
    s.queue = q := by
  rw [BizState.queue, hq, Option.getD_some]

/-- A packet sends its credential to the queue. -/
theorem queue_packet {s : BizState} {q : CredQueue} (hq : s.wifiCredQueue = some q)
    (buf : Bytes) (freed : Bool) :
    (queueStep s (.packet buf freed)).wifiCredQueue =
      some ((appliedCreds (parserHandlePacket buf).calls).foldl
        (fun q cred => q.send cred freed) q) := by
  rw [queueStep, QueueEvent.biz, bizStep, wifiCredQueue_bizCalls, hq, Option.map_some]
  rcases appliedCreds_packet buf with hnil | ⟨cred, hfit, hcreds, -⟩
  · rw [hnil]
    rfl
  · rw [hcreds, List.foldl_cons, hfit.credCopy_eq]
    rfl

/-- What an event does to the queue: nothing to what it accepted, or it sends the
credential of a packet. -/
theorem queue_queueStep {s : BizState} {q : CredQueue} (hq : s.wifiCredQueue = some q)
    (e : QueueEvent) : ∃ q', (queueStep s e).wifiCredQueue = some q' ∧
      ((e.acknowledged = [] ∧ q'.sent = q.sent) ∨
        ∃ buf freed cred, e = .packet buf freed ∧ cred.Fitting ∧ e.acknowledged = [cred] ∧
          q' = q.send cred freed) := by
  cases e with
  | packet buf freed =>
      refine ⟨_, queue_packet hq buf freed, ?_⟩
      rw [acknowledged_packet]
      rcases appliedCreds_packet buf with hnil | ⟨cred, hfit, hcreds, -⟩
      · rw [hnil]
        exact Or.inl ⟨rfl, rfl⟩
      · rw [hcreds]
        exact Or.inr ⟨buf, freed, cred, rfl, hfit, rfl, rfl⟩
  | receive =>
      rw [queueStep, QueueEvent.biz, bizStep, dequeue, hq, Option.bind_some]
      cases hr : q.receive with
      | none => exact ⟨q, hq, Or.inl ⟨rfl, rfl⟩⟩
      | some r => exact ⟨r.2, rfl, Or.inl ⟨rfl, q.sent_receive hr⟩⟩

/-! ### Queued credentials are consistent -/

/-- A credential that fits has the lengths of its strings. -/
theorem WifiCredentials.Fitting.consistent {cred : WifiCredentials} (h : cred.Fitting) :
    cred.Consistent := by
  obtain ⟨ssid, pass, ⟨hs, hp⟩, ⟨hslen, hplen⟩, rfl⟩ := h
  exact (holds_mkCred hs hp hslen hplen).consistent hslen hplen

/-- The length check rejects a consistent credential exactly when it has no SSID. -/
theorem WifiCredentials.Consistent.lengthsValid_eq_false_iff {cred : WifiCredentials}
    (h : cred.Consistent) : lengthsValid cred = false ↔ cred.ssidStr = [] := by
  rw [← Bool.not_eq_true, lengthsValid_iff, h.ssidLen_eq, ← List.length_eq_zero_iff]
  have hslen := h.ssidLen_le
  have hplen := h.passLen_le
  rw [h.ssidLen_eq] at hslen
  exact ⟨fun hnot => by_contra fun hne => hnot ⟨hne, hslen, hplen⟩, fun hz hv => hv.1 hz⟩

/-- Along every run there is a queue, and all it accepted fits. -/
theorem fitting_bizAfter (es : List QueueEvent) :
    ∃ q, (bizAfter es).wifiCredQueue = some q ∧ ∀ cred ∈ q.sent, cred.Fitting := by
  induction es using List.reverseRecOn with
  | nil => exact ⟨.empty, rfl, fun cred h => absurd h List.not_mem_nil⟩
  | append_singleton es e ih =>
      obtain ⟨q, hq, hfit⟩ := ih
      rw [bizAfter_concat]
      obtain ⟨q', hq', ⟨-, hsent⟩ | ⟨buf, freed, cred, -, hcred, -, rfl⟩⟩ := queue_queueStep hq e
      · exact ⟨q', hq', by rwa [hsent]⟩
      · refine ⟨_, hq', fun cred' hmem => ?_⟩
        obtain ⟨haccept, hfull⟩ := q.send_cases cred freed
        by_cases hroom : q.pending.length < wifiCredQueueLen ∨ freed = true
        · rw [haccept hroom, List.mem_append, List.mem_singleton] at hmem
          rcases hmem with hmem | rfl
          · exact hfit cred' hmem
          · exact hcred
        · rw [hfull hroom] at hmem
          exact hfit cred' hmem

/-- **Queued credentials are always self-consistent.** Along every run of packets, whatever
their bytes are, and receives, every element the queue accepted, whether it still waits or
was taken, has terminated strings with their lengths, within the limits; and the length
check of the task rejects it exactly when its SSID is empty. -/
theorem queued_consistent (es : List QueueEvent) :
    ∀ q ∈ (bizAfter es).wifiCredQueue, ∀ cred ∈ q.sent,
      cred.Consistent ∧ (lengthsValid cred = false ↔ cred.ssidStr = []) := by
  obtain ⟨q, hq, hfit⟩ := fitting_bizAfter es
  intro q' hq' cred hmem
  obtain rfl : q = q' := Option.some.inj (hq.symm.trans hq')
  exact ⟨(hfit cred hmem).consistent, (hfit cred hmem).consistent.lengthsValid_eq_false_iff⟩

/-- The packet `{"ssid":"a"}`, and the like. -/
def networkPacket (name : String) : Bytes :=
  ascii "\x7b\"ssid\":\"" ++ ascii name ++ ascii "\"\x7d"

/-- A credential of one letter. -/
theorem queued_consistent_one :
    (mkCred (ascii "a") []).Consistent ∧
      (lengthsValid (mkCred (ascii "a") []) = false ↔ (mkCred (ascii "a") []).ssidStr = []) := by
  have hqueue : (bizAfter [.packet (networkPacket "a") false]).wifiCredQueue =
      some (bizAfter [.packet (networkPacket "a") false]).queue := by
    decide +kernel
  exact queued_consistent _ _ hqueue _ (by decide +kernel)

/-! ### Acknowledged credentials are kept -/

/-- What one event more acknowledges comes last. -/
theorem acknowledgedCreds_concat (es : List QueueEvent) (e : QueueEvent) :
    acknowledgedCreds (es ++ [e]) = acknowledgedCreds es ++ e.acknowledged := by
  rw [acknowledgedCreds, List.flatMap_append, List.flatMap_singleton, ← acknowledgedCreds]

/-- What was taken and what waits is what was accepted. -/
theorem CredQueue.received_append_pending (q : CredQueue) : q.received ++ q.pending = q.sent :=
  List.take_append_drop _ _

/-- The event sends no credential, or the queue has room for it in time. -/
def MeetsRoom (s : BizState) (e : QueueEvent) : Prop :=
  ∀ buf freed, e = .packet buf freed → appliedCreds (parserHandlePacket buf).calls ≠ [] →
    s.queue.pending.length < wifiCredQueueLen ∨ freed = true

/-- **The queue accepts all acknowledged credentials** exactly along the runs that never
send to a full queue. -/
theorem sent_eq_acknowledged_iff (es : List QueueEvent) :
    ∃ q, (bizAfter es).wifiCredQueue = some q ∧
      q.sent.length ≤ (acknowledgedCreds es).length ∧
      (q.sent = acknowledgedCreds es ↔
        Along queueStep bootBiz (fun _ s e => MeetsRoom s e) es) := by
  induction es using List.reverseRecOn with
  | nil => exact ⟨.empty, rfl, le_refl 0, fun _ => along_nil, fun _ => rfl⟩
  | append_singleton es e ih =>
      obtain ⟨q, hq, hle, hiff⟩ := ih
      rw [bizAfter_concat, acknowledgedCreds_concat, along_concat_iff, ← hiff, ← bizAfter]
      have hqueue := BizState.queue_eq hq
      obtain ⟨q', hq', ⟨hack, hsent⟩ | ⟨buf, freed, cred, rfl, -, hack, rfl⟩⟩ :=
        queue_queueStep hq e
      · have hmeets : MeetsRoom (bizAfter es) e := by
          rintro buf freed rfl hne
          exact absurd ((acknowledged_packet buf freed).symm.trans hack) hne
        refine ⟨q', hq', ?_⟩
        rw [hack, List.append_nil, hsent]
        exact ⟨hle, fun h => ⟨h, hmeets⟩, fun h => h.1⟩
      · obtain ⟨haccept, hfull⟩ := q.send_cases cred freed
        refine ⟨_, hq', ?_⟩
        rw [hack, List.length_append, List.length_singleton]
        by_cases hroom : q.pending.length < wifiCredQueueLen ∨ freed = true
        · have hmeets : MeetsRoom (bizAfter es) (.packet buf freed) := by
            rintro _ _ ⟨⟩ -
            rwa [hqueue]
          rw [haccept hroom, List.length_append, List.length_singleton, List.append_left_inj]
          exact ⟨by omega, fun h => ⟨h, hmeets⟩, fun h => h.1⟩
        · have hfails : ¬ MeetsRoom (bizAfter es) (.packet buf freed) := by
            intro hmeets
            have hne : appliedCreds (parserHandlePacket buf).calls ≠ [] := by
              rw [← acknowledged_packet buf freed, hack]
              exact List.cons_ne_nil _ _
            have hroom' := hmeets buf freed rfl hne
            rw [hqueue] at hroom'
            exact hroom hroom'
          -- the credential is gone for good: the queue has accepted too few
          rw [hfull hroom]
          refine ⟨by omega, fun h => ?_, fun h => absurd h.2 hfails⟩
          have hlen := congrArg List.length h
          rw [List.length_append, List.length_singleton] at hlen
          omega

section Storage

variable {σ : Type*} (nvs : Nvs σ) (start : ℕ → StartCodes) (st : σ)

/-- The storage after the task has handled the elements it received, all calls into the
storage succeeding; `start` gives the codes of the station calls, round by round. -/
def storedAfter (received : List WifiCredentials) : σ :=
  received.zipIdx.foldl (fun st x => (wifiManagerStep nvs st {} (start x.2) x.1).1) st

/-- The last element received is loaded, if it has an SSID. -/
theorem load_storedAfter {received : List WifiCredentials} {cred : WifiCredentials}
    (hlast : received.getLast? = some cred) (hfit : cred.Fitting) (hne : cred.ssidStr ≠ []) :
    ∃ loaded, loadCredentialsNvs nvs (storedAfter nvs start st received) espOk {} =
      (espOk, loaded) ∧ loaded.Holds cred.ssidStr cred.passStr := by
  obtain ⟨before, rfl⟩ := List.getLast?_eq_some_iff.mp hlast
  have hcons := hfit.consistent
  rw [storedAfter, List.zipIdx_append, List.foldl_append]
  exact load_after_step nvs hcons.holds hne (hcons.ssidLen_eq ▸ hcons.ssidLen_le)
    (hcons.passLen_eq ▸ hcons.passLen_le) _ _ _

/-- Nothing that was acknowledged is lost, moved or duplicated: what was received, followed
by what waits, is what was acknowledged; and once nothing waits, the credentials that were
acknowledged last are loaded. -/
def AcknowledgedKept (es : List QueueEvent) : Prop :=
  ∀ q ∈ (bizAfter es).wifiCredQueue,
    q.received ++ q.pending = acknowledgedCreds es ∧
      (q.pending = [] → ∀ cred ∈ (acknowledgedCreds es).getLast?,
        ∃ loaded, loadCredentialsNvs nvs (storedAfter nvs start st q.received) espOk {} =
          (espOk, loaded) ∧ loaded.Holds cred.ssidStr cred.passStr)

/-- **The last acknowledged provisioning wins** exactly along the runs in which every
packet with a credential meets a queue with room, or one where an element is taken in
time. -/
theorem acknowledged_kept_iff (es : List QueueEvent)
    (hne : ∀ cred ∈ acknowledgedCreds es, cred.ssidStr ≠ []) :
    AcknowledgedKept nvs start st es ↔
      Along queueStep bootBiz (fun _ s e => MeetsRoom s e) es := by
  obtain ⟨q, hq, -, hiff⟩ := sent_eq_acknowledged_iff es
  rw [← hiff]
  constructor
  · intro h
    rw [← q.received_append_pending]
    exact (h q hq).1
  · intro hsent q' hq'
    obtain rfl : q = q' := Option.some.inj (hq.symm.trans hq')
    refine ⟨q.received_append_pending.trans hsent, fun hdrained cred hlast => ?_⟩
    have hreceived : q.received = acknowledgedCreds es := by
      rw [← hsent, ← q.received_append_pending, hdrained, List.append_nil]
    obtain ⟨q', hq', hfit⟩ := fitting_bizAfter es
    obtain rfl : q = q' := Option.some.inj (hq.symm.trans hq')
    have hmem : cred ∈ acknowledgedCreds es := List.mem_of_mem_getLast? hlast
    rw [hreceived]
    exact load_storedAfter nvs start st hlast (hfit cred (hsent ▸ hmem)) (hne cred hmem)

end Storage

/-- One packet, which the task takes. -/
theorem acknowledged_kept_one :
    AcknowledgedKept mapNvs (fun _ => {}) (fun _ => none)
      [.packet (networkPacket "a") false, .receive] := by
  refine (acknowledged_kept_iff mapNvs (fun _ => {}) (fun _ => none) _ ?_).mpr ?_
  · decide +kernel
  · refine (along_nil.concat ?_ : Along _ _ _ [_]).concat ?_
    · rintro buf freed - -
      exact Or.inl (by decide)
    · rintro buf freed ⟨⟩

/-- Three networks, one after the other, before the task takes the first. -/
def threeNetworks : List QueueEvent :=
  [.packet (networkPacket "a") false, .packet (networkPacket "b") false,
    .packet (networkPacket "c") false, .receive, .receive]

/-- **The third network is acknowledged and lost**: the queue drains, and the second one
stays stored. -/
theorem third_network_lost :
    (parserHandlePacket (networkPacket "c")).handled = true ∧
      (acknowledgedCreds threeNetworks).map WifiCredentials.ssidStr =
        [ascii "a", ascii "b", ascii "c"] ∧
      (bizAfter threeNetworks).queue.pending = [] ∧
      (loadCredentialsNvs mapNvs (storedAfter mapNvs (fun _ => {}) (fun _ => none)
        (bizAfter threeNetworks).queue.received) espOk {}).2.ssidStr = ascii "b" ∧
      ¬ AcknowledgedKept mapNvs (fun _ => {}) (fun _ => none) threeNetworks := by
  have hack : (acknowledgedCreds threeNetworks).map WifiCredentials.ssidStr =
      [ascii "a", ascii "b", ascii "c"] := by decide +kernel
  refine ⟨by decide +kernel, hack, by decide +kernel, by decide +kernel, fun h => ?_⟩
  have hq : (bizAfter threeNetworks).wifiCredQueue = some (bizAfter threeNetworks).queue := by
    decide +kernel
  have hlen : (bizAfter threeNetworks).queue.sent.length = 2 := by decide +kernel
  have hkept := congrArg List.length (h _ hq).1
  rw [CredQueue.received_append_pending, hlen, ← List.length_map WifiCredentials.ssidStr, hack]
    at hkept
  exact absurd hkept (by decide)

end AirShifter
