import AirShifter.Durability
import AirShifter.Payloads
import AirShifter.Replay

/-!
# Who Has the Key Can Provision

The promise of the device to its owner, from the first connect to the station: a client that
has the key connects, answers its challenge, and writes a packet with a network; and the
device joins that network. Other clients may do in between what they like, and so may the
Wi-Fi task; what they must not do is to cut the power.

The session of the client is followed through the run first, then its credential through the
queue. The credential keeps its place there, so that the task comes to it after those that
were accepted before it, and to no other in its place.

## Main results

* `HasSession.run`: the session of a connection outlives whatever the others do.
* `taskRound_spec`: what a round of the task does.
* `key_holder_provisions`: the credential of the client is queued, and when the task comes to
  it, it is stored, and the station is configured with it.
-/

open CBytes Runs SlotTable

namespace AirShifter

variable (H : CharHandles) (hmac : Bytes → Bytes → Vector UInt8 hmacSha256Len)

/-! ### Events that leave a client alone -/

/-- The power stays on. -/
def KeepsPower : SystemEvent → Prop
  | .cut _ _ | .powerOff _ => False
  | .device _ | .handle _ _ | .boot _ => True

/-- The power stays on, and the connection `g` neither comes up again nor goes down. -/
def Stays (g : UInt16) (e : SystemEvent) : Prop :=
  KeepsPower e ∧ ¬ ChangesLink g e

/-- The device is up, and the connection `g` has the session of its connect at the time
`created`, with the challenge of the given random words; it is authenticated if `answered`. -/
structure HasSession (s : System) (g : UInt16) (words : RandomWords) (created : UInt64)
    (answered : Prop) : Prop where
  up : s.up = true
  le : created ≤ s.device.now
  session : ∃ c, sessionOf s.device.sec g = some c ∧ c.nonce = drawn words 16 ∧
    c.createdTsMs = created ∧ (answered → c.authenticated = true)

variable {H hmac}

/-- **The session of a connection** outlives an event that neither brings the connection up nor
takes it down. -/
theorem sessionOf_deviceStep_of_stays {d : Device} (hok : TableOk d.sec) {g : UInt16} (hg : g ≠ 0)
    {e : DeviceEvent} (he : ¬ ChangesLink g (.device e)) :
    sessionOf (deviceStep H hmac d e).1.sec g =
      (sessionOf d.sec g).map (sessionAnswered H hmac d e g) := by
  have hkeep : ∀ s : SecState, sessionOf s g = sessionOf d.sec g →
      (∀ c, sessionAnswered H hmac d e g c = c) →
      sessionOf s g = (sessionOf d.sec g).map (sessionAnswered H hmac d e g) := by
    intro s hs hid
    rw [hs, funext hid, Option.map_id']
  rw [sec_deviceStep]
  cases hcall : secCallOf H d e with
  | none => exact hkeep _ rfl fun c => by rw [sessionAnswered, hcall]
  | some call =>
      dsimp only
      have hstep := (hok.secStep hmac call).2 g hg
      rcases secCallOf_cases hcall with ⟨g', words, rfl, rfl⟩ | ⟨g', rfl, rfl⟩ | ⟨a, got, rfl, rfl⟩
      · have hne : g' ≠ g := fun hgg => he (Or.inl ⟨words, by rw [ConnectsWith, hgg]⟩)
        exact hkeep _ (hstep.trans (if_neg fun hc => hne hc.1)) fun c => by
          rw [sessionAnswered, hcall]
      · have hne : g' ≠ g := fun hgg => he (Or.inr (by rw [hgg]))
        exact hkeep _ (hstep.trans (if_neg hne)) fun c => by rw [sessionAnswered, hcall]
      · rw [hstep]
        dsimp only [sessionStep]
        congr 1
        funext c
        rw [sessionAnswered, hcall]

section Step

variable {s : System} {g : UInt16} {words : RandomWords} {created : UInt64} {answered : Prop}

/-- The device stays up as long as the power does. -/
theorem up_systemStep (hup : s.up = true) {e : SystemEvent} (he : KeepsPower e) :
    (systemStep H hmac s e).up = true := by
  cases e with
  | device e => rwa [systemStep, if_pos hup]
  | handle store start =>
      rw [systemStep]
      split <;> exact hup
  | cut call lost => exact he.elim
  | powerOff lost => exact he.elim
  | boot codes => rwa [systemStep, if_pos hup]

variable (H hmac) in
/-- While the power is on, only events of the device change the device. -/
theorem device_systemStep (hup : s.up = true) {e : SystemEvent} (he : KeepsPower e) :
    (systemStep H hmac s e).device = s.device ∨
      ∃ e', e = .device e' ∧
        (systemStep H hmac s e).device = (deviceStep H hmac s.device e').1 := by
  cases e with
  | device e => exact Or.inr ⟨e, rfl, by rw [systemStep, if_pos hup]⟩
  | handle store start =>
      rw [systemStep]
      split <;> exact Or.inl rfl
  | cut call lost => exact he.elim
  | powerOff lost => exact he.elim
  | boot codes => exact Or.inl (by rw [systemStep, if_pos hup])

variable (H hmac) in
/-- Its clock does not go back. -/
theorem now_le_systemStep (hup : s.up = true) {e : SystemEvent} (he : KeepsPower e) :
    s.device.now ≤ (systemStep H hmac s e).device.now := by
  rcases device_systemStep H hmac hup he with hsame | ⟨e', rfl, hstep⟩
  · rw [hsame]
    exact UInt64.le_refl _
  · rw [hstep]
    exact now_le_deviceStep _ _

variable (H hmac) in
/-- **One event** that leaves the connection alone keeps its session. -/
theorem HasSession.systemStep (h : HasSession s g words created answered)
    (hok : TableOk s.device.sec) (hg : g ≠ 0) {e : SystemEvent} (he : Stays g e) :
    HasSession (systemStep H hmac s e) g words created answered := by
  refine ⟨up_systemStep h.up he.1, UInt64.le_trans h.le (now_le_systemStep H hmac h.up he.1), ?_⟩
  rcases device_systemStep H hmac h.up he.1 with hsame | ⟨e', rfl, hstep⟩
  · rw [hsame]
    exact h.session
  · obtain ⟨c, hget, hnonce, hcreated, hauth⟩ := h.session
    obtain ⟨hnonce', hcreated', hauth'⟩ := sessionAnswered_spec H hmac s.device e' g c
    refine ⟨_, ?_, hnonce'.trans hnonce, hcreated'.trans hcreated, fun ha => hauth' (hauth ha)⟩
    rw [hstep, sessionOf_deviceStep_of_stays hok hg he.2, hget, Option.map_some]

/-- The right answer authenticates the session in time. -/
theorem HasSession.answer (h : HasSession s g words created False) (hok : TableOk s.device.sec)
    (hkey : s.device.sec.privKey = defaultKey) (hg : g ≠ 0) {a : Access}
    (ha : IsAuthWrite H a g (rightAnswer hmac words))
    (htime : s.device.now.toNat ≤ created.toNat + nonceLifetimeMs.toNat) :
    HasSession (AirShifter.systemStep H hmac s (.device (.access a))) g words created True := by
  have he : Stays g (.device (.access a)) := by
    refine ⟨trivial, ?_⟩
    rintro (⟨words', hconnect⟩ | hdisconnect)
    · exact absurd (SystemEvent.device.inj hconnect) (by simp)
    · exact absurd (SystemEvent.device.inj hdisconnect) (by simp)
  have hkept := h.systemStep H hmac hok hg he
  refine ⟨hkept.up, hkept.le, ?_⟩
  obtain ⟨c, hget, hnonce, hcreated, -⟩ := h.session
  have hacc := accepts_rightAnswer hmac hkey hnonce (hcreated ▸ h.le) (hcreated ▸ htime)
  have hanswered : sessionAnswered H hmac s.device (.access a) g c =
      { c with authenticated := true } := by
    rw [sessionAnswered, secCallOf_authWrite _ (length_rightAnswer words) ha]
    dsimp only
    rw [if_pos ⟨rfl, hacc⟩]
  refine ⟨{ c with authenticated := true }, ?_, hnonce, hcreated, fun _ => rfl⟩
  rw [AirShifter.systemStep, if_pos h.up]
  dsimp only
  rw [sessionOf_deviceStep_of_stays hok hg he.2, hget, Option.map_some, hanswered]

/-- An answered session is authenticated for five minutes. -/
theorem HasSession.authenticated (h : HasSession s g words created True)
    (htime : s.device.now.toNat ≤ created.toNat + nonceLifetimeMs.toNat) :
    secIsConnAuthenticated s.device.sec s.device.now g = true := by
  obtain ⟨c, hget, -, hcreated, hauth⟩ := h.session
  have hage : s.device.now - c.createdTsMs ≤ nonceLifetimeMs := by
    rw [UInt64.le_iff_toNat_le, UInt64.toNat_sub_of_le _ _ (hcreated ▸ h.le), hcreated]
    omega
  rw [secIsConnAuthenticated_eq, hget, Option.any_some, hauth trivial, decide_eq_true hage]
  rfl

end Step

/-! ### The session along a run -/

section Run

variable {es : List SystemEvent} {g : UInt16} {words : RandomWords} {created : UInt64}
  {answered : Prop}

/-- A run that goes on. -/
theorem systemAfter_append (es more : List SystemEvent) :
    systemAfter H hmac (es ++ more) = more.foldl (systemStep H hmac) (systemAfter H hmac es) := by
  rw [systemAfter, List.foldl_append]
  rfl

/-- **The session of a connection** outlives whatever the others do. -/
theorem HasSession.run (h : HasSession (systemAfter H hmac es) g words created answered)
    (hg : g ≠ 0) {more : List SystemEvent} (hmore : ∀ e ∈ more, Stays g e) :
    HasSession (systemAfter H hmac (es ++ more)) g words created answered := by
  induction more using List.reverseRecOn with
  | nil => rwa [List.append_nil]
  | append_singleton more e ih =>
      have hpre := ih fun x hx => hmore x (List.mem_append_left _ hx)
      rw [← List.append_assoc, systemAfter_concat]
      exact hpre.systemStep H hmac (challenged_systemAfter H hmac _).table hg
        (hmore e (List.mem_append_right _ List.mem_cons_self))

/-- While the power is on the clock does not go back. -/
theorem now_le_run (hup : (systemAfter H hmac es).up = true) {more : List SystemEvent}
    (hmore : ∀ e ∈ more, KeepsPower e) :
    (systemAfter H hmac (es ++ more)).up = true ∧
      (systemAfter H hmac es).device.now ≤ (systemAfter H hmac (es ++ more)).device.now := by
  induction more using List.reverseRecOn with
  | nil =>
      rw [List.append_nil]
      exact ⟨hup, UInt64.le_refl _⟩
  | append_singleton more e ih =>
      obtain ⟨hup', hle⟩ := ih fun x hx => hmore x (List.mem_append_left _ hx)
      have he := hmore e (List.mem_append_right _ List.mem_cons_self)
      rw [← List.append_assoc, systemAfter_concat]
      exact ⟨up_systemStep hup' he, UInt64.le_trans hle (now_le_systemStep H hmac hup' he)⟩

/-- **A connect that finds a slot** opens a session. -/
theorem hasSession_connect (hup : (systemAfter H hmac es).up = true) (hg : g ≠ 0)
    (hslot : findEntry (systemAfter H hmac es).device.sec g ≠ none ∨
      allocEntry (systemAfter H hmac es).device.sec g ≠ none) (words : RandomWords) :
    HasSession (systemAfter H hmac (es ++ [.device (.connect 0 g words)])) g words
      (systemAfter H hmac es).device.now False := by
  have hholds := challenged_systemAfter H hmac es
  rw [systemAfter_concat, systemStep, if_pos hup]
  generalize systemAfter H hmac es = s at hup hslot hholds ⊢
  have hroom : (sessionOf s.device.sec g).isSome = true ∨
      (findEntry s.device.sec 0).isSome = true := by
    rcases hslot with hfind | halloc
    · rw [isSome_sessionOf]
      exact Or.inl (Option.isSome_iff_ne_none.mpr hfind)
    · rw [← freeSlot_eq_findEntry]
      refine Or.inr (Option.isSome_iff_ne_none.mpr fun hnone => halloc ?_)
      rw [allocEntry, hnone, Option.map_none]
  refine ⟨hup, UInt64.le_refl _, ⟨drawn words 16, s.device.now, false⟩, ?_, rfl, rfl, False.elim⟩
  have hopened := (hholds.table.secOnConnect s.device.now words g).2 g hg
  rw [if_pos ⟨rfl, hroom⟩, hholds.nonceLen] at hopened
  exact hopened

end Run

/-! ### The queue along a run -/

section Queue

variable {d : Device} {q : CredQueue}

/-- A send takes nothing back that the task has taken. -/
theorem CredQueue.taken_le_send (q : CredQueue) (cred : WifiCredentials) (freed : Bool) :
    q.taken ≤ (q.send cred freed).taken := by
  rw [CredQueue.send]
  split_ifs
  · exact Nat.le_refl _
  · exact Nat.le_succ _
  · exact Nat.le_refl _

/-- A receive takes an element, if one waits. -/
theorem queue_dequeue (hq : d.biz.wifiCredQueue = some q) :
    ∃ q', (dequeue d.biz).wifiCredQueue = some q' ∧ q'.sent = q.sent ∧ q.taken ≤ q'.taken ∧
      (q.taken < q.sent.length → q.taken < q'.taken) := by
  rw [dequeue, hq, Option.bind_some]
  cases hr : q.receive with
  | none =>
      refine ⟨q, hq, rfl, Nat.le_refl _, fun hlt => ?_⟩
      rw [CredQueue.receive, dif_pos hlt] at hr
      exact absurd hr (by simp)
  | some r =>
      have htaken : r.2.taken = q.taken + 1 := by
        rw [CredQueue.receive] at hr
        split_ifs at hr
        rw [← Option.some.inj hr]
      exact ⟨r.2, rfl, q.sent_receive hr, by omega, fun _ => by omega⟩

variable (H hmac) in
/-- The queue stays, and what was taken from it. -/
theorem queue_deviceStep (hq : d.biz.wifiCredQueue = some q) (e : DeviceEvent) :
    ∃ q', (deviceStep H hmac d e).1.biz.wifiCredQueue = some q' ∧ q.taken ≤ q'.taken := by
  cases e with
  | connect status g words =>
      rw [deviceStep]
      split_ifs <;> exact ⟨q, hq, Nat.le_refl _⟩
  | disconnect g => exact ⟨q, hq, Nat.le_refl _⟩
  | tick now =>
      rw [deviceStep]
      split_ifs <;> exact ⟨q, hq, Nat.le_refl _⟩
  | dequeue =>
      obtain ⟨q', hq', -, htaken, -⟩ := queue_dequeue hq
      exact ⟨q', hq', htaken⟩
  | access a =>
      rw [deviceStep]
      dsimp only
      rcases queue_gattSvcAccess H hmac d a with hsame | ⟨-, -, -, got, -, hbiz⟩
      · exact ⟨q, hsame.trans hq, Nat.le_refl _⟩
      · refine ⟨_, by rw [hbiz, queue_packet hq], ?_⟩
        rcases appliedCreds_packet (packetText got) with hnil | ⟨cred, -, hcreds, -⟩
        · rw [hnil]
          exact Nat.le_refl _
        · rw [hcreds]
          exact q.taken_le_send cred a.freed

/-- The credential of a packet is accepted, if there is room. -/
theorem sent_packet (hq : d.biz.wifiCredQueue = some q) {buf : Bytes} {cred : WifiCredentials}
    (happlies : .applyWifiCredentials cred ∈ (parserHandlePacket buf).calls) {freed : Bool}
    (hroom : q.pending.length < wifiCredQueueLen ∨ freed = true) :
    ({ d with biz := bizCalls freed d.biz (parserHandlePacket buf).calls } : Device).sent =
      d.sent ++ [cred] := by
  have hqueue := queue_packet hq buf freed
  rw [queueStep, QueueEvent.biz, bizStep] at hqueue
  have hmem := mem_appliedCreds.mpr happlies
  rcases appliedCreds_packet buf with hnil | ⟨cred', -, hcreds, -⟩
  · rw [hnil] at hmem
    exact absurd hmem List.not_mem_nil
  · rw [hcreds, List.mem_singleton] at hmem
    rw [hcreds, List.foldl_cons, List.foldl_nil] at hqueue
    rw [sent_of_queue hq, hmem, ← (q.send_cases cred' freed).1 hroom, Device.sent, hqueue]
    rfl

end Queue

/-- The task has handled no more than it has taken from the queue. -/
def KeepsUp (s : System) : Prop :=
  ∃ q, s.device.biz.wifiCredQueue = some q ∧ s.handled ≤ q.taken

/-- What the task handles next is the first credential that it has taken and not handled. -/
theorem next_of_lt_taken {s : System} {q : CredQueue} (hq : s.device.biz.wifiCredQueue = some q)
    (h : s.handled < q.taken) : s.next = s.device.sent[s.handled]? := by
  rw [System.next, hq, Option.bind_some, CredQueue.received, List.getElem?_take, if_pos h,
    sent_of_queue hq]

variable (H hmac) in
/-- **One step** keeps the task in pace with its queue. -/
theorem KeepsUp.systemStep {s : System} (h : KeepsUp s) (e : SystemEvent) :
    KeepsUp (systemStep H hmac s e) := by
  obtain ⟨q, hq, hle⟩ := h
  have hoff : ∀ f, KeepsUp (.off f) := fun f => ⟨.empty, rfl, Nat.le_refl 0⟩
  cases e with
  | device e =>
      rw [AirShifter.systemStep]
      split_ifs
      · obtain ⟨q', hq', htaken⟩ := queue_deviceStep H hmac hq e
        exact ⟨q', hq', hle.trans htaken⟩
      · exact ⟨q, hq, hle⟩
  | handle store start =>
      rw [AirShifter.systemStep]
      cases hnext : if s.up then s.next else none with
      | none => exact ⟨q, hq, hle⟩
      | some cred =>
          refine ⟨q, hq, Nat.lt_of_not_le fun hall => ?_⟩
          have hcred := (Option.ite_none_right_eq_some.mp hnext).2
          rw [System.next, hq, Option.bind_some, CredQueue.received, List.getElem?_take,
            if_neg (Nat.not_lt.mpr hall)] at hcred
          exact absurd hcred (by simp)
  | cut call lost =>
      rw [AirShifter.systemStep]
      cases if s.up then s.next else none with
      | none => exact ⟨q, hq, hle⟩
      | some cred => exact hoff _
  | powerOff lost => exact hoff _
  | boot codes =>
      rw [AirShifter.systemStep]
      split_ifs
      · exact ⟨q, hq, hle⟩
      · rw [System.boot]
        split_ifs
        · exact ⟨.empty, rfl, Nat.le_refl 0⟩
        · exact hoff _

variable (H hmac) in
/-- So does a run. -/
theorem keepsUp_systemAfter (es : List SystemEvent) : KeepsUp (systemAfter H hmac es) := by
  induction es using List.reverseRecOn with
  | nil => exact ⟨.empty, rfl, Nat.le_refl 0⟩
  | append_singleton es e ih =>
      rw [systemAfter_concat]
      exact ih.systemStep H hmac e

/-- While the power is on, the queue keeps what it has accepted. -/
theorem sent_run_front {es : List SystemEvent} (hup : (systemAfter H hmac es).up = true)
    {more : List SystemEvent} (hmore : ∀ e ∈ more, KeepsPower e) :
    (systemAfter H hmac es).device.sent <+: (systemAfter H hmac (es ++ more)).device.sent := by
  induction more using List.reverseRecOn with
  | nil => rw [List.append_nil]
  | append_singleton more e ih =>
      have hfront := fun x hx => hmore x (List.mem_append_left [e] hx)
      have he := hmore e (List.mem_append_right _ List.mem_cons_self)
      rw [← List.append_assoc, systemAfter_concat]
      refine (ih hfront).trans ?_
      rcases device_systemStep H hmac (now_le_run hup hfront).1 he with hsame | ⟨e', rfl, hstep⟩
      · rw [hsame]
      · rw [hstep]
        exact sent_deviceStep_front H hmac _ e'

/-! ### A round of the task -/

/-- The task waits on the queue, and handles what it has taken first. -/
def taskRound (store : StoreCodes) (start : StartCodes) : List SystemEvent :=
  [.device .dequeue, .handle store start]

/-- All calls of a store succeed. -/
def StoreCodes.Succeeds (store : StoreCodes) : Prop :=
  store.nvsOpen = espOk ∧ store.setSsid = espOk ∧ store.setPass = espOk ∧ store.commit = espOk

/-- **A round of the task** handles the credential that was accepted first of those that are not
handled. -/
theorem taskRound_spec {s : System} (hup : s.up = true) (hkeeps : KeepsUp s)
    {cred : WifiCredentials} (hcred : s.device.sent[s.handled]? = some cred) (store : StoreCodes)
    (start : StartCodes) :
    (taskRound store start).foldl (systemStep H hmac) s = { s with
      device := { s.device with biz := dequeue s.device.biz }
      handled := s.handled + 1
      flash := storeMessage s.flash store start cred
      station := setStation s.station start
        (wifiManagerStep flashNvs s.flash store start cred).2 } := by
  obtain ⟨q, hq, hle⟩ := hkeeps
  obtain ⟨q', hq', hsent, htaken, htakes⟩ := queue_dequeue hq
  have hlt : s.handled < q.sent.length := by
    rw [sent_of_queue hq] at hcred
    exact (List.getElem?_eq_some_iff.mp hcred).1
  have hwait := q.taken_le
  have hready : s.handled < q'.taken := by
    by_cases hempty : q.taken < q.sent.length
    · exact lt_of_le_of_lt hle (htakes hempty)
    · omega
  generalize hs' : systemStep H hmac s (.device .dequeue) = s'
  have hstep : s' = { s with device := { s.device with biz := dequeue s.device.biz } } := by
    rw [← hs', systemStep, if_pos hup, deviceStep]
  have hqueue : s'.device.biz.wifiCredQueue = some q' := by rw [hstep]; exact hq'
  have hnext : s'.next = some cred := by
    rw [next_of_lt_taken hqueue (by rw [hstep]; exact hready), sent_of_queue hqueue, hsent,
      ← sent_of_queue hq, ← hcred, hstep]
  have hup' : s'.up = true := by rw [hstep]; exact hup
  rw [taskRound, List.foldl_cons, List.foldl_cons, List.foldl_nil, hs', systemStep, if_pos hup',
    hnext, hstep]

/-! ### The visit of a client -/

/-- What a client does, and what the others do before it comes, before it answers, and before
it writes its packet. -/
structure Attempt where
  before : List SystemEvent
  g : UInt16
  words : RandomWords
  reading : List SystemEvent
  answer : Access
  writing : List SystemEvent
  packet : Access
  cred : WifiCredentials

namespace Attempt

variable (v : Attempt)

/-- The run up to the packet. -/
def asked : List SystemEvent :=
  v.before ++ .device (.connect 0 v.g v.words) ::
    (v.reading ++ .device (.access v.answer) :: v.writing)

/-- The run up to the packet and with it. -/
def run : List SystemEvent :=
  v.asked ++ [.device (.access v.packet)]

end Attempt

variable (H hmac) in
/-- A client with the key provisions a network, while the others do what they like: it comes up
under a handle that is not 0, and finds a slot; it writes the right answer to its challenge;
and within five minutes of its connect it writes a packet that names a network, when the queue
has room or the task makes some in time. -/
structure Visit extends Attempt where
  handle_ne : g ≠ 0
  up : (systemAfter H hmac before).up = true
  slot : findEntry (systemAfter H hmac before).device.sec g ≠ none ∨
    allocEntry (systemAfter H hmac before).device.sec g ≠ none
  stays : ∀ e ∈ reading ++ writing, Stays g e
  right : IsAuthWrite H answer g (rightAnswer hmac words)
  writes : packet.op = .writeChr ∧ packet.connHandle = g ∧ packet.attrHandle = H.packetHandle
  copied : gattSvrWriteFlat packet 1 maxPkt = .ok packet.packet
  applies : .applyWifiCredentials cred ∈
    (parserHandlePacket (packet.packet.takeWhile (· != 0))).calls
  named : cred.ssidStr ≠ []
  inTime : (systemAfter H hmac toAttempt.asked).device.now.toNat ≤
    (systemAfter H hmac before).device.now.toNat + nonceLifetimeMs.toNat
  room : (systemAfter H hmac toAttempt.asked).device.biz.queue.pending.length < wifiCredQueueLen ∨
    packet.freed = true

namespace Visit

variable (v : Visit H hmac)

/-- The number of credentials that were accepted before that of the visit. -/
def turn : ℕ :=
  (systemAfter H hmac v.asked).device.sent.length

/-- **The client is authenticated** when it writes its packet. -/
theorem hasSession : HasSession (systemAfter H hmac v.asked) v.g v.words
    (systemAfter H hmac v.before).device.now True := by
  have hreading : ∀ e ∈ v.reading, Stays v.g e := fun e he => v.stays e (List.mem_append_left _ he)
  have hwriting : ∀ e ∈ v.writing, Stays v.g e := fun e he => v.stays e (List.mem_append_right _ he)
  have hopened := (hasSession_connect v.up v.handle_ne v.slot v.words).run v.handle_ne hreading
  have hsplit : v.asked = v.before ++ [.device (.connect 0 v.g v.words)] ++ v.reading ++
      [.device (.access v.answer)] ++ v.writing := by
    simp [Attempt.asked]
  have hpower : ∀ e ∈ [.device (.access v.answer)] ++ v.writing, KeepsPower e := by
    intro e he
    rcases List.mem_cons.mp he with rfl | he
    · trivial
    · exact (hwriting e he).1
  -- the answer came no later than the packet
  have hlater := (now_le_run hopened.up hpower).2
  rw [← List.append_assoc, ← hsplit] at hlater
  have hintime := (UInt64.le_iff_toNat_le.mp hlater).trans v.inTime
  have hholds := challenged_systemAfter H hmac
    (v.before ++ [.device (.connect 0 v.g v.words)] ++ v.reading)
  have hanswered := hopened.answer hholds.table hholds.key v.handle_ne v.right hintime
  rw [← systemAfter_concat] at hanswered
  rw [hsplit]
  exact hanswered.run v.handle_ne hwriting

/-- **The credential is queued**, behind those that were accepted before. -/
theorem sent_run : (systemAfter H hmac v.run).up = true ∧
    (systemAfter H hmac v.run).device.sent =
      (systemAfter H hmac v.asked).device.sent ++ [v.cred] := by
  obtain ⟨hop, hconn, hattr⟩ := v.writes
  have hauth := v.hasSession.authenticated v.inTime
  have hup := v.hasSession.up
  obtain ⟨q, hq, -⟩ := keepsUp_systemAfter H hmac v.asked
  have hroom := v.room
  rw [BizState.queue_eq hq] at hroom
  rw [Attempt.run, systemAfter_concat, systemStep, if_pos hup, deviceStep]
  refine ⟨hup, ?_⟩
  generalize systemAfter H hmac v.asked = s at hauth hq hroom
  rw [← hconn] at hauth
  rcases gattSvcAccess_packet_cases H hmac hop hattr hauth with
    ⟨rc, hflat, -⟩ | ⟨got, hflat, haccess⟩
  · exact absurd (v.copied.symm.trans hflat) (by simp)
  · obtain ⟨rfl, hlen⟩ := packet_of_gattSvrWriteFlat hflat
    dsimp only
    rw [haccess, packetText_eq hlen]
    exact sent_packet hq v.applies hroom

/-- The task has not come to the credential yet. -/
theorem handled_run : (systemAfter H hmac v.run).handled ≤ v.turn := by
  have hle : (systemAfter H hmac v.asked).handled ≤ v.turn := handled_le_systemAfter v.asked
  rw [Attempt.run, systemAfter_concat, systemStep, if_pos v.hasSession.up]
  exact hle

/-- The credential of the visit is valid. -/
theorem lengthsValid : lengthsValid v.cred = true := by
  have hcons := (fitting_of_packet (mem_appliedCreds.mpr v.applies)).consistent
  rw [← Bool.not_eq_false, hcons.lengthsValid_eq_false_iff]
  exact v.named

/-- The credential keeps its place. -/
theorem sent_turn {more : List SystemEvent} (hmore : ∀ e ∈ more, KeepsPower e) :
    (systemAfter H hmac (v.run ++ more)).device.sent[v.turn]? = some v.cred := by
  obtain ⟨hup, hsent⟩ := v.sent_run
  obtain ⟨rest, hrest⟩ := sent_run_front hup hmore
  rw [← hrest, hsent, List.append_assoc, turn, List.getElem?_append_right (Nat.le_refl _),
    Nat.sub_self]
  rfl

end Visit

/-- **Who has the key can provision.** The credential of the client is in the queue, behind no
more than the `turn` credentials that were accepted before it. And whatever happens from then
on with the power on: each round of the task handles one more of these; and once they are
handled, the next round, if its calls succeed, stores the credential and configures the
station with it. -/
theorem key_holder_provisions (v : Visit H hmac) (more : List SystemEvent)
    (hmore : ∀ e ∈ more, KeepsPower e) :
    let s := systemAfter H hmac (v.run ++ more)
    (systemAfter H hmac v.run).handled ≤ v.turn ∧ s.device.sent[v.turn]? = some v.cred ∧
      ∀ store start,
        let s' := systemAfter H hmac (v.run ++ more ++ taskRound store start)
        (s.handled ≤ v.turn → s'.handled = s.handled + 1) ∧
          (s.handled = v.turn → store.Succeeds → start.Configures →
            s'.flash.pair = some v.cred.strings ∧
              s'.station = some (stationConfig v.cred.ssidStr v.cred.passStr)) := by
  intro s
  have hturn : s.device.sent[v.turn]? = some v.cred := v.sent_turn hmore
  have hup : s.up = true := (now_le_run v.sent_run.1 hmore).1
  have hkeeps : KeepsUp s := keepsUp_systemAfter H hmac _
  have hround : ∀ store start, systemAfter H hmac (v.run ++ more ++ taskRound store start) =
      (taskRound store start).foldl (systemStep H hmac) s := fun _ _ => systemAfter_append _ _
  refine ⟨v.handled_run, hturn, fun store start =>
    ⟨fun hle => ?_, fun hreached hstore hstart => ?_⟩⟩
  · have hlt : s.handled < s.device.sent.length :=
      lt_of_le_of_lt hle (List.getElem?_eq_some_iff.mp hturn).1
    rw [hround, taskRound_spec hup hkeeps (List.getElem?_eq_getElem hlt)]
  · rw [← hreached] at hturn
    have hstored := (storeCredentialsNvs_fst_eq_ok flashNvs s.flash store v.cred.ssidStr
      v.cred.passStr).mpr hstore
    obtain ⟨hpair, hconfig⟩ := store_succeeds v.lengthsValid hstored hstart.1
    rw [hround, taskRound_spec hup hkeeps hturn]
    dsimp only
    rw [hconfig, setStation, if_pos hstart.2]
    exact ⟨Flash.pair_eq_some_iff.mpr ⟨hpair .ssid 0, hpair .pass 0⟩, rfl⟩

/-- The sample client, on a new device. -/
def homeVisit : Visit sampleHandles sampleHmac where
  before := [.boot {}]
  g := 7
  words := Vector.replicate 8 0
  reading := []
  answer := sampleAnswer 7
  writing := []
  packet := homePacket
  cred := mkCred (ascii "home") (ascii "key")
  handle_ne := by decide
  up := rfl
  slot := Or.inr (by decide +kernel)
  stays := fun e he => absurd he List.not_mem_nil
  right := ⟨rfl, rfl, rfl, rfl, rfl⟩
  writes := ⟨rfl, rfl, rfl⟩
  copied := rfl
  applies := by decide +kernel
  named := by decide +kernel
  inTime := by decide +kernel
  room := by decide +kernel

/-- The visit of a client with the key, with no one else around. -/
theorem key_holder_provisions_home :
    (systemAfter sampleHandles sampleHmac
      (homeVisit.run ++ [] ++ taskRound {} {})).flash.pair = some (ascii "home", ascii "key") :=
  (((key_holder_provisions homeVisit [] fun e he => absurd he List.not_mem_nil).2.2
    {} {}).2 (by decide +kernel) ⟨rfl, rfl, rfl, rfl⟩ ⟨rfl, rfl⟩).1

end AirShifter
