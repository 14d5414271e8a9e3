import AirShifter.System

/-!
# Clients

What a client can do to the others, and to the device, before it has answered its challenge:
nothing. This holds over any number of boots and for any handles, the ambiguous handle 0
included.

The invariant is about the slots of the session table. A slot is only marked as
authenticated by a response that is accepted for the handle it carries, and the mark does
not survive a change of its handle.

## Main results

* `authenticated_this_boot`: a connection that is authenticated has answered a challenge
  since the device booted.
* `quiet_clients_unseen`: the accesses of clients that never answer a challenge can be left
  out of a run, and nothing else changes.
-/

open CBytes Runs SlotTable

namespace AirShifter

/-! ### Marked slots -/

section Slots

variable {s : SecState} {i : Fin maxSecConns}

/-- A connect marks no slot. -/
theorem slot_secOnConnect_of_marked {now : UInt64} {words : RandomWords} {g : UInt16}
    (h : ((secOnConnect s now words g).slot i).authenticated = true) :
    (secOnConnect s now words g).slot i = s.slot i := by
  rw [secOnConnect_eq] at h ⊢
  cases hslot : connectSlot s g with
  | none => rfl
  | some j =>
      rw [hslot] at h
      dsimp only at h ⊢
      rw [slot_setSlot] at h ⊢
      split_ifs at h ⊢
      · exact absurd h (by simp [Conn.opened])
      · rfl

/-- A clear marks no slot. -/
theorem slot_secClearConn_of_marked {g : UInt16}
    (h : ((secClearConn s g).slot i).authenticated = true) :
    (secClearConn s g).slot i = s.slot i := by
  rw [secClearConn] at h ⊢
  cases hfind : findEntry s g with
  | none => rfl
  | some j =>
      rw [hfind] at h
      dsimp only [freeEntryIndex] at h ⊢
      rw [slot_setSlot] at h ⊢
      split_ifs at h ⊢
      rfl

/-- A response marks a slot of its own handle, if it is accepted. -/
theorem slot_secHandleAuthResponse (hmac : Bytes → Bytes → Vector UInt8 hmacSha256Len)
    (s : SecState) (i : Fin maxSecConns) (now : UInt64) (g : UInt16) (response : Option Bytes) :
    (secHandleAuthResponse hmac s now g response).1.slot i = s.slot i ∨
      (secHandleAuthResponse hmac s now g response).2 = true ∧
        ((secHandleAuthResponse hmac s now g response).1.slot i).connHandle = g := by
  rw [secHandleAuthResponse_eq]
  cases hfind : findEntry s g with
  | none => exact Or.inl rfl
  | some j =>
      dsimp only
      split_ifs
      · rw [slot_setSlot]
        split_ifs
        · exact Or.inr ⟨rfl, key_of_slotOf hfind⟩
        · exact Or.inl rfl
      · exact Or.inl rfl

end Slots

/-! ### Accepted responses -/

variable (H : CharHandles) (hmac : Bytes → Bytes → Vector UInt8 hmacSha256Len)

/-- The access is a response to the challenge, and the device accepts it. -/
def Accepts (s : System) (a : Access) : Prop :=
  s.up = true ∧ a.op = .writeChr ∧ a.attrHandle = H.authCharHandle ∧
    (gattSvcAccess H hmac s.device a).2.status = .success

/-- The connection `g` has answered a challenge, and the device has been up since. -/
def AnsweredThisBoot (es : List SystemEvent) (g : UInt16) : Prop :=
  ∃ pre a mid, es = pre ++ .device (.access a) :: mid ∧ a.connHandle = g ∧
    Accepts H hmac (systemAfter H hmac pre) a ∧
    ∀ m, m <+: mid → (systemAfter H hmac (pre ++ .device (.access a) :: m)).up = true

variable {H hmac}

/-- An answer counts as long as the device stays up. -/
theorem AnsweredThisBoot.concat {es : List SystemEvent} {g : UInt16}
    (h : AnsweredThisBoot H hmac es g) {e : SystemEvent}
    (hup : (systemAfter H hmac (es ++ [e])).up = true) : AnsweredThisBoot H hmac (es ++ [e]) g := by
  obtain ⟨pre, a, mid, rfl, ha, hacc, hmid⟩ := h
  refine ⟨pre, a, mid ++ [e], by rw [List.append_assoc, List.cons_append], ha, hacc, fun m hm => ?_⟩
  rcases List.prefix_concat_iff.mp hm with rfl | hm
  · rwa [List.append_assoc, List.cons_append] at hup
  · exact hmid m hm

/-- A response of this moment. -/
theorem answeredThisBoot_last {es : List SystemEvent} {a : Access}
    (hacc : Accepts H hmac (systemAfter H hmac es) a)
    (hup : (systemAfter H hmac (es ++ [.device (.access a)])).up = true) :
    AnsweredThisBoot H hmac (es ++ [.device (.access a)]) a.connHandle := by
  refine ⟨es, a, [], rfl, rfl, hacc, fun m hm => ?_⟩
  rwa [List.prefix_nil.mp hm]

variable (H hmac) in
/-- The status of a response to the challenge is that of the security module. -/
theorem status_gattSvcAccess_auth (d : Device) {a : Access} (hop : a.op = .writeChr)
    (hattr : a.attrHandle = H.authCharHandle) :
    (gattSvcAccess H hmac d a).1 = d ∨
      ∃ got, (gattSvcAccess H hmac d a).1.sec =
          (secHandleAuthResponse hmac d.sec d.now a.connHandle (some got)).1 ∧
        (gattSvcAccess H hmac d a).2.status = .success := by
  rw [gattSvcAccess, hop]
  dsimp only
  rcases writeChr_auth H hmac d hattr with ⟨rc, -, hw⟩ | ⟨got, hw⟩
  · exact Or.inl (by rw [hw])
  · exact Or.inr ⟨got, by rw [hw], by rw [hw]⟩

/-- **Only an accepted response marks a slot**, and the slot carries its handle. -/
theorem slot_deviceStep (d : Device) (e : DeviceEvent) (i : Fin maxSecConns)
    (h : ((deviceStep H hmac d e).1.sec.slot i).authenticated = true) :
    (deviceStep H hmac d e).1.sec.slot i = d.sec.slot i ∨
      ∃ a, e = .access a ∧ a.op = .writeChr ∧ a.attrHandle = H.authCharHandle ∧
        (gattSvcAccess H hmac d a).2.status = .success ∧
        ((deviceStep H hmac d e).1.sec.slot i).connHandle = a.connHandle := by
  cases e with
  | connect status g words =>
      dsimp only [deviceStep] at h ⊢
      split_ifs at h ⊢
      · exact Or.inl (slot_secOnConnect_of_marked h)
      · exact Or.inl rfl
  | disconnect g => exact Or.inl (slot_secClearConn_of_marked h)
  | tick now =>
      dsimp only [deviceStep]
      split_ifs <;> exact Or.inl rfl
  | dequeue => exact Or.inl rfl
  | access a =>
      change (gattSvcAccess H hmac d a).1.sec.slot i = _ ∨ _
      by_cases hauth : a.op = .writeChr ∧ a.attrHandle = H.authCharHandle
      · obtain ⟨hop, hattr⟩ := hauth
        rcases status_gattSvcAccess_auth H hmac d hop hattr with
          hsame | ⟨got, hsec, hstatus⟩
        · exact Or.inl (by rw [hsame])
        · rcases slot_secHandleAuthResponse hmac d.sec i d.now a.connHandle
            (some got) with hslot | ⟨-, hhandle⟩
          · exact Or.inl (by rw [hsec, hslot])
          · refine Or.inr ⟨a, rfl, hop, hattr, hstatus, ?_⟩
            change ((gattSvcAccess H hmac d a).1.sec.slot i).connHandle = _
            rw [hsec, hhandle]
      · exact Or.inl (by rw [sec_gattSvcAccess_of_ne hauth])

/-- After a boot no slot is authenticated. -/
theorem not_marked_bootDevice (i : Fin maxSecConns) :
    (bootDevice.sec.slot i).authenticated = false := by
  revert i
  decide

/-- A device without power is the one that boots. -/
theorem device_of_not_up (es : List SystemEvent) (h : (systemAfter H hmac es).up = false) :
    (systemAfter H hmac es).device = bootDevice := by
  induction es using List.reverseRecOn with
  | nil => rfl
  | append_singleton es e ih =>
      rw [systemAfter_concat] at h ⊢
      cases e with
      | device e =>
          rw [systemStep] at h ⊢
          split_ifs at h ⊢ with hup
          · exact absurd (hup.symm.trans h) (by simp)
          · exact ih h
      | handle store start =>
          rw [systemStep] at h ⊢
          split at h <;> exact ih h
      | cut call lost =>
          rw [systemStep] at h ⊢
          split at h
          · exact ih h
          · rfl
      | powerOff lost => rfl
      | boot codes =>
          rw [systemStep] at h ⊢
          split_ifs at h ⊢
          · exact ih h
          · rw [System.boot]
            split_ifs <;> rfl

variable (H hmac) in
/-- **What one event does to a slot** that is marked after it: nothing, or the connection
whose handle it carries has been accepted. -/
theorem slot_systemStep (s : System) (e : SystemEvent) (i : Fin maxSecConns)
    (h : ((systemStep H hmac s e).device.sec.slot i).authenticated = true) :
    (systemStep H hmac s e).device.sec.slot i = s.device.sec.slot i ∨
      ∃ a, e = .device (.access a) ∧ Accepts H hmac s a ∧
        ((systemStep H hmac s e).device.sec.slot i).connHandle = a.connHandle := by
  have hboot : ∀ {d : Device}, (d.sec.slot i).authenticated = true → d ≠ bootDevice := by
    rintro d hd rfl
    rw [not_marked_bootDevice] at hd
    exact Bool.false_ne_true hd
  cases e with
  | device e =>
      rw [systemStep] at h ⊢
      split_ifs at h ⊢ with hup
      · rcases slot_deviceStep s.device e i h with hslot | ⟨a, rfl, hop, hattr, hst, hhandle⟩
        · exact Or.inl hslot
        · exact Or.inr ⟨a, rfl, ⟨hup, hop, hattr, hst⟩, hhandle⟩
      · exact Or.inl rfl
  | handle store start =>
      rw [systemStep]
      split <;> exact Or.inl rfl
  | cut call lost =>
      rw [systemStep] at h ⊢
      split at h
      · exact Or.inl rfl
      · exact absurd rfl (hboot h)
  | powerOff lost => exact absurd rfl (hboot h)
  | boot codes =>
      rw [systemStep] at h ⊢
      split_ifs at h ⊢
      · exact Or.inl rfl
      · have hdevice : (s.boot codes).device = bootDevice := by
          rw [System.boot]
          split_ifs <;> rfl
        exact absurd hdevice (hboot h)

/-- Every marked slot carries a handle that has answered a challenge since the boot. -/
theorem marked_answered (es : List SystemEvent) (i : Fin maxSecConns)
    (h : ((systemAfter H hmac es).device.sec.slot i).authenticated = true) :
    AnsweredThisBoot H hmac es ((systemAfter H hmac es).device.sec.slot i).connHandle := by
  induction es using List.reverseRecOn with
  | nil => exact absurd ((not_marked_bootDevice i).symm.trans h) (by simp)
  | append_singleton es e ih =>
      have hup : (systemAfter H hmac (es ++ [e])).up = true := by
        refine Bool.eq_true_of_not_eq_false fun hdown => ?_
        rw [device_of_not_up _ hdown, not_marked_bootDevice] at h
        exact Bool.false_ne_true h
      have hstep := systemAfter_concat H hmac es e
      rw [hstep] at h
      rcases slot_systemStep H hmac _ e i h with hslot | ⟨a, rfl, hacc, hhandle⟩
      · rw [hslot] at h
        rw [hstep, hslot]
        exact (ih h).concat hup
      · rw [hstep, hhandle]
        exact answeredThisBoot_last hacc hup

/-- The slot behind an authenticated connection. -/
theorem marked_of_authenticated {s : SecState} {now : UInt64} {g : UInt16}
    (h : secIsConnAuthenticated s now g = true) :
    ∃ i, (s.slot i).authenticated = true ∧ (s.slot i).connHandle = g := by
  rw [secIsConnAuthenticated] at h
  cases hfind : findEntry s g with
  | none =>
      rw [hfind] at h
      exact absurd h (by simp)
  | some i =>
      rw [hfind] at h
      dsimp only at h
      exact ⟨i, (Bool.and_eq_true_iff.mp h).1, key_of_slotOf hfind⟩

variable (H hmac)

/-- **Who is authenticated has answered.** In every run over any number of boots: a
connection that the device takes for authenticated has had a response to its challenge
accepted under its handle, and the device has been up ever since. -/
theorem authenticated_this_boot (es : List SystemEvent) (g : UInt16)
    (h : secIsConnAuthenticated (systemAfter H hmac es).device.sec
      (systemAfter H hmac es).device.now g = true) :
    AnsweredThisBoot H hmac es g := by
  obtain ⟨i, hmarked, hhandle⟩ := marked_of_authenticated h
  exact hhandle ▸ marked_answered es i hmarked

/-- The client of the sample run has answered. -/
theorem authenticated_this_boot_sample :
    AnsweredThisBoot sampleHandles sampleHmac homeRun 7 :=
  authenticated_this_boot sampleHandles sampleHmac homeRun 7 (by decide +kernel)

/-! ### Clients that never answer -/

/-- What the client behind an event is answered. -/
def systemAnswer (s : System) : SystemEvent → Option AttResponse
  | .device e => if s.up then (deviceStep H hmac s.device e).2 else none
  | _ => none

/-- The effect of an event and the answer to it. -/
def systemReply (s : System) (e : SystemEvent) : System × Option AttResponse :=
  (systemStep H hmac s e, systemAnswer H hmac s e)

/-- The event is an access by one of the connections `G`. -/
def AccessBy (G : UInt16 → Bool) : SystemEvent → Bool
  | .device (.access a) => G a.connHandle
  | _ => false

variable {H hmac} in
/-- An access that is not accepted as a response, by a connection that is not
authenticated, does nothing. -/
theorem gattSvcAccess_idle {d : Device} {a : Access}
    (hauth : secIsConnAuthenticated d.sec d.now a.connHandle = false)
    (hacc : ¬ (a.op = .writeChr ∧ a.attrHandle = H.authCharHandle ∧
      (gattSvcAccess H hmac d a).2.status = .success)) : (gattSvcAccess H hmac d a).1 = d := by
  rcases gattSvcAccess_cases H hmac d a with hsame | ⟨hop, hattr, -⟩ | ⟨-, -, htrue, -⟩
  · exact hsame
  · rcases status_gattSvcAccess_auth H hmac d hop hattr with hsame | ⟨got, -, hstatus⟩
    · exact hsame
    · exact absurd ⟨hop, hattr, hstatus⟩ hacc
  · exact absurd (htrue.symm.trans hauth) (by simp)

/-- **Clients that never answer go unseen.** If no response to a challenge is accepted from
any of the connections `G` along a run, their accesses can all be left out of it, whatever
they read and write and however they are interleaved with the rest: the system ends up the
same, and everybody else is answered the same. -/
theorem quiet_clients_unseen (G : UInt16 → Bool) {es : List SystemEvent}
    (h : Along (systemStep H hmac) (.off .erased)
      (fun _ s e => ∀ a, e = .device (.access a) → G a.connHandle = true →
        ¬ Accepts H hmac s a) es) :
    systemAfter H hmac (es.filter fun e => !AccessBy G e) = systemAfter H hmac es ∧
      answers (systemReply H hmac) (.off .erased) (es.filter fun e => !AccessBy G e) =
        (answers (systemReply H hmac) (.off .erased) es).filter fun p => !AccessBy G p.1 := by
  have hidle : Along (fun s e => (systemReply H hmac s e).1) (.off .erased)
      (fun _ s e => (!AccessBy G e) = false → (systemReply H hmac s e).1 = s) es := ?_
  · exact answers_filter_of_idle hidle
  intro pre e post hes hvis
  change systemStep H hmac (systemAfter H hmac pre) e = systemAfter H hmac pre
  rw [Bool.not_eq_false'] at hvis
  have hquiet : ∀ g, G g = true → ¬ AnsweredThisBoot H hmac pre g := by
    rintro g hg ⟨pre', a, mid, rfl, rfl, hacc, -⟩
    exact h pre' _ (mid ++ e :: post) (by rw [hes, List.append_assoc, List.cons_append]) a rfl hg
      hacc
  match e, hvis with
  | .device (.access a), hG =>
      rw [systemStep]
      split_ifs with hup
      · have hauth : secIsConnAuthenticated (systemAfter H hmac pre).device.sec
            (systemAfter H hmac pre).device.now a.connHandle = false := by
          refine Bool.eq_false_of_not_eq_true fun htrue => hquiet a.connHandle hG ?_
          obtain ⟨i, hmarked, hhandle⟩ := marked_of_authenticated htrue
          exact hhandle ▸ marked_answered pre i hmarked
        have hidle := gattSvcAccess_idle hauth fun hacc => h pre _ post hes a rfl hG ⟨hup, hacc⟩
        change { systemAfter H hmac pre with
          device := (gattSvcAccess H hmac (systemAfter H hmac pre).device a).1 } = _
        rw [hidle]
      · rfl

/-- A write of the same packet by a client that has not answered. -/
def strangerRun : List SystemEvent :=
  homeRun ++ [.device (.access { homePacket with connHandle := 8 })]

theorem quiet_strangerRun : Along (systemStep sampleHandles sampleHmac) (.off .erased)
    (fun _ s e => ∀ a, e = .device (.access a) → (a.connHandle == 8) = true →
      ¬ Accepts sampleHandles sampleHmac s a) strangerRun := by
  rintro pre e post hes a rfl hG ⟨-, -, hattr, -⟩
  have ha : SystemEvent.device (.access a) ∈ strangerRun := by
    rw [hes]
    simp
  simp only [strangerRun, homeRun, completedRun, List.map_cons, List.map_nil, List.cons_append,
    List.nil_append, List.mem_cons, List.not_mem_nil, or_false, reduceCtorEq, false_or,
    SystemEvent.device.injEq, DeviceEvent.access.injEq] at ha
  rcases ha with rfl | rfl | rfl
  · exact absurd hG (by simp [sampleAnswer])
  · exact absurd hG (by simp [homePacket])
  · exact absurd hattr (by simp [homePacket, sampleHandles])

/-- The stranger's packet can be left out. -/
theorem quiet_clients_unseen_stranger :
    systemAfter sampleHandles sampleHmac strangerRun =
      systemAfter sampleHandles sampleHmac homeRun :=
  (quiet_clients_unseen sampleHandles sampleHmac (· == 8) quiet_strangerRun).1.symm

end AirShifter
