import AirShifter.CommandRange
import AirShifter.Notifications
import AirShifter.System

/-!
# Who Moves the Controls

A control can be set by a write of its characteristic and by packets, in two formats, with
several commands for one control in one packet, and by several clients at once. All these
commands make up one history, and the variables of the control show the end of it.

## Main results

* `hold_bizCalls`: calls leave the last number that the setter does not refuse.
* `said_writeChrCalls`: a write commands what the client has sent.
* `controls_were_commanded`: a control holds the last number it was commanded, and every
  command was sent by an authenticated client.
-/

open CBytes Runs

namespace AirShifter

/-! ### The commands of a run -/

/-- The number that a call stores for the control `c`, if its setter does not refuse it. -/
def storedBy (c : Control) : BizCall → Option ℤ
  | .set d v => if d = c ∧ 0 ≤ v then some v else none
  | .applyWifiCredentials _ => none

variable (H : CharHandles) (hmac : Bytes → Bytes → Vector UInt8 hmacSha256Len)

/-- The calls into the business logic that an event makes for a client. -/
def eventCalls (d : Device) : DeviceEvent → List BizCall
  | .access a =>
    match a.op with
    | .writeChr => writeChrCalls H d a
    | _ => []
  | _ => []

/-- The numbers that the control `c` is commanded along a run, in their order. -/
def commands (es : List DeviceEvent) (c : Control) : List ℤ :=
  trace (fun d e => (deviceStep H hmac d e).1)
    (fun d e => (eventCalls H d e).filterMap (storedBy c)) bootDevice es

/-- The access sends the number `v` to the control `c`: as the bytes of its characteristic,
or in the text of a packet, behind a name of the control. -/
def Sends (a : Access) (c : Control) (v : ℤ) : Prop :=
  (a.attrHandle = H.ctrlHandle c ∧ a.packet.length = ctrlSize c ∧ v = ctrlArg c a.packet) ∨
    (a.attrHandle = H.packetHandle ∧
      (BizCall.set c v).StandsIn (a.packet.takeWhile fun b => b != 0))

variable {H}

/-! ### What calls leave -/

/-- A call into the business logic leaves the number that it stores, or what was there. -/
theorem hold_bizCall (freed : Bool) {s : BizState} {c : Control} {v : ℤ}
    (h : s.controls.Hold c (v % c.size)) (call : BizCall) :
    (bizCall freed s call).controls.Hold c (((storedBy c call).getD v) % c.size) := by
  cases call with
  | set d w =>
      rw [bizCall, storedBy]
      dsimp only
      by_cases hd : d = c
      · subst hd
        obtain ⟨hneg, hpos⟩ := bizSet_self s.controls d w
        by_cases hw : 0 ≤ w
        · rw [if_pos ⟨rfl, hw⟩]
          exact hpos hw
        · rw [if_neg (fun hdw => hw hdw.2), hneg (by omega)]
          exact h
      · obtain ⟨hctrl, hstat⟩ := bizSet_of_ne s.controls (Ne.symm hd) w
        rw [if_neg (fun hdw => hd hdw.1), Controls.Hold, hctrl, hstat]
        exact h
  | applyWifiCredentials cred =>
      have hsame : (bizCall freed s (.applyWifiCredentials cred)).controls = s.controls := by
        rw [bizCall, bizApplyWifiCredentials]
        cases s.wifiCredQueue <;> rfl
      rw [hsame]
      exact h

/-- **Calls leave the last number** that they store. -/
theorem hold_bizCalls (freed : Bool) {s : BizState} {c : Control} {v : ℤ}
    (h : s.controls.Hold c (v % c.size)) (calls : List BizCall) :
    (bizCalls freed s calls).controls.Hold c
      (((calls.filterMap (storedBy c)).getLast?.getD v) % c.size) := by
  induction calls generalizing s v with
  | nil => exact h
  | cons call calls ih =>
      have hrest := ih (hold_bizCall freed h call)
      cases hstored : storedBy c call with
      | none =>
          rw [hstored] at hrest
          rw [List.filterMap_cons_none hstored]
          exact hrest
      | some w =>
          rw [hstored] at hrest
          rw [List.filterMap_cons_some hstored, List.getLast?_cons]
          exact hrest

variable (H) in
/-- An event does to the controls what its calls do. -/
theorem controls_deviceStep_eq (d : Device) (e : DeviceEvent) :
    ∃ freed, (deviceStep H hmac d e).1.biz.controls =
      (bizCalls freed d.biz (eventCalls H d e)).controls := by
  cases e with
  | connect status g words =>
      refine ⟨false, ?_⟩
      rw [deviceStep]
      split_ifs <;> rfl
  | disconnect g => exact ⟨false, rfl⟩
  | tick now =>
      refine ⟨false, ?_⟩
      rw [deviceStep]
      split_ifs <;> rfl
  | dequeue =>
      refine ⟨false, ?_⟩
      rw [deviceStep, dequeue]
      cases d.biz.wifiCredQueue.bind CredQueue.receive <;> rfl
  | access a =>
      refine ⟨a.freed, ?_⟩
      rw [deviceStep, gattSvcAccess, eventCalls]
      cases a.op with
      | readChr | readDsc | writeDsc | other => rfl
      | writeChr =>
          dsimp only
          rw [biz_writeChr]

/-! ### What a client has sent -/

/-- What is copied out of a packet buffer is all of it. -/
theorem packet_of_gattSvrWriteFlat {a : Access} {lo hi : ℕ} {got : Bytes}
    (h : gattSvrWriteFlat a lo hi = .ok got) : got = a.packet ∧ got.length ≤ hi := by
  rw [gattSvrWriteFlat] at h
  split_ifs at h with hlen
  obtain rfl := Except.ok.inj h
  refine ⟨rfl, ?_⟩
  rw [List.length_take]
  omega

/-- **A write commands what the client has sent**, and only if it is authenticated. -/
theorem said_writeChrCalls {d : Device} {a : Access} {c : Control} {v : ℤ}
    (h : BizCall.set c v ∈ writeChrCalls H d a) :
    secIsConnAuthenticated d.sec d.now a.connHandle = true ∧ Sends H a c v := by
  rw [writeChrCalls] at h
  by_cases hattr : a.attrHandle = H.authCharHandle
  · rw [if_pos hattr] at h
    exact absurd h List.not_mem_nil
  · rw [if_neg hattr] at h
    cases hauth : secIsConnAuthenticated d.sec d.now a.connHandle with
    | false =>
        rw [hauth] at h
        cases hctrl : H.ctrlOf a.attrHandle <;> simp [hctrl] at h
    | true =>
        rw [hauth] at h
        refine ⟨rfl, ?_⟩
        cases hctrl : H.ctrlOf a.attrHandle with
        | some c' =>
            rw [hctrl] at h
            cases hflat : gattSvrWriteFlat a (ctrlSize c') (ctrlSize c') with
            | error rc => simp [hflat] at h
            | ok got =>
                obtain ⟨rfl, rfl⟩ : c = c' ∧ v = ctrlArg c' got := by simpa [hflat] using h
                obtain ⟨rfl, hlen⟩ := gattSvrWriteFlat_eq_ok hflat
                exact Or.inl ⟨CharHandles.ctrlHandle_of_ctrlOf hctrl, hlen, rfl⟩
        | none =>
            rw [hctrl] at h
            by_cases hpacket : a.attrHandle = H.packetHandle
            · cases hflat : gattSvrWriteFlat a 1 maxPkt with
              | error rc => simp [hflat] at h
              | ok got =>
                  obtain ⟨rfl, hlen⟩ := packet_of_gattSvrWriteFlat hflat
                  have hcall : .set c v ∈ (parserHandlePacket (packetText a.packet)).calls := by
                    simpa [hflat, hpacket] using h
                  have hstands := standsIn_parserHandlePacket (zero_notMem_cstr _) _ hcall
                  exact Or.inr ⟨hpacket, by rwa [← packetText_eq hlen]⟩
            · simp [hpacket] at h

/-- A number that an event stores was sent by it. -/
theorem sends_of_stored {d : Device} {e : DeviceEvent} {c : Control} {v : ℤ}
    (h : v ∈ (eventCalls H d e).filterMap (storedBy c)) :
    ∃ a, e = .access a ∧ a.op = .writeChr ∧
      secIsConnAuthenticated d.sec d.now a.connHandle = true ∧ Sends H a c v ∧ 0 ≤ v := by
  obtain ⟨call, hcall, hstored⟩ := List.mem_filterMap.mp h
  cases call with
  | applyWifiCredentials cred => exact absurd hstored (by simp [storedBy])
  | set c' v' =>
      dsimp only [storedBy] at hstored
      split_ifs at hstored with hset
      obtain ⟨rfl, hpos⟩ := hset
      obtain rfl := Option.some.inj hstored
      match e, hcall with
      | .access a, hcall =>
          rw [eventCalls] at hcall
          cases hop : a.op with
          | readChr | readDsc | writeDsc | other =>
              rw [hop] at hcall
              exact absurd hcall List.not_mem_nil
          | writeChr =>
              rw [hop] at hcall
              obtain ⟨hauth, hsends⟩ := said_writeChrCalls hcall
              exact ⟨a, rfl, hop, hauth, hsends, hpos⟩

/-! ### Whole runs -/

variable (H)

theorem commands_concat (es : List DeviceEvent) (e : DeviceEvent) (c : Control) :
    commands H hmac (es ++ [e]) c =
      commands H hmac es c ++ (eventCalls H (deviceAfter H hmac es) e).filterMap (storedBy c) :=
  trace_concat _ _ _ _ _

/-- The variables of a control hold the last of its commands. -/
theorem hold_commands (es : List DeviceEvent) (c : Control) :
    (deviceAfter H hmac es).biz.controls.Hold c
      (((commands H hmac es c).getLast?.getD 0) % c.size) := by
  induction es using List.reverseRecOn with
  | nil => cases c <;> exact ⟨rfl, rfl⟩
  | append_singleton es e ih =>
      obtain ⟨freed, hstep⟩ := controls_deviceStep_eq H hmac (deviceAfter H hmac es) e
      have hcalls := hold_bizCalls freed ih (eventCalls H (deviceAfter H hmac es) e)
      rw [deviceAfter_concat, hstep, commands_concat, List.getLast?_append]
      cases hlast : ((eventCalls H (deviceAfter H hmac es) e).filterMap (storedBy c)).getLast? with
      | none =>
          rw [hlast] at hcalls
          exact hcalls
      | some v =>
          rw [hlast] at hcalls
          exact hcalls

/-- **The controls were commanded.** In every run, whichever clients are connected and
however their writes and packets are interleaved, both variables of a control hold the last
number that it was commanded, wrapped to their width, and 0 before the first command. And
every command was sent by a client that was authenticated at that moment, in the bytes of
the characteristic or behind a name of the control in the text of a packet. -/
theorem controls_were_commanded (es : List DeviceEvent) (c : Control) :
    (deviceAfter H hmac es).biz.controls.Hold c
        (((commands H hmac es c).getLast?.getD 0) % c.size) ∧
      ∀ v ∈ commands H hmac es c, 0 ≤ v ∧
        Occurs (fun pre e => ∃ a, e = .access a ∧ a.op = .writeChr ∧
          secIsConnAuthenticated (deviceAfter H hmac pre).sec (deviceAfter H hmac pre).now
            a.connHandle = true ∧ Sends H a c v) es := by
  refine ⟨hold_commands H hmac es c, ?_⟩
  induction es using List.reverseRecOn with
  | nil =>
      intro v hv
      exact absurd hv List.not_mem_nil
  | append_singleton es e ih =>
      intro v hv
      rw [commands_concat, List.mem_append] at hv
      rcases hv with hv | hv
      · obtain ⟨hpos, hoccurs⟩ := ih v hv
        exact ⟨hpos, occurs_concat_iff.mpr (Or.inl hoccurs)⟩
      · obtain ⟨a, he, hop, hauth, hsends, hpos⟩ := sends_of_stored hv
        exact ⟨hpos, occurs_concat_iff.mpr (Or.inr ⟨a, he, hop, hauth, hsends⟩)⟩

end AirShifter
