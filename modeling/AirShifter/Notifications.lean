import AirShifter.Registers

/-!
# Notifications

The characteristics that a client can subscribe to are the challenge and the four status
characteristics. The device does not send a notification itself. It calls
`ble_gatts_chr_updated`, and the host reads the value for every subscriber at some later
time. What matters is therefore that no change of a value goes without a call.

## Main results

* `no_change_unnotified`: whenever a read of such a characteristic comes to return something
  else, whichever connection reads, there was a call for it in between.
-/

open CBytes Runs SlotTable

namespace AirShifter

/-! ### The calls of `ble_gatts_chr_updated` -/

/-- What `notify_status_rpm`, and the like, call `ble_gatts_chr_updated` with. -/
def notifyStatus (statHandle : UInt16) : List UInt16 :=
  if statHandle ≠ 0 then [statHandle] else []

variable (H : CharHandles) (hmac : Bytes → Bytes → Vector UInt8 hmacSha256Len)

/-- `notify_status_rpm`. -/
def notifyStatusRpm : List UInt16 := notifyStatus (H.statHandle .rpm)

/-- `notify_status_angle`. -/
def notifyStatusAngle : List UInt16 := notifyStatus (H.statHandle .angle)

/-- `notify_status_light`. -/
def notifyStatusLight : List UInt16 := notifyStatus (H.statHandle .light)

/-- `notify_status_power`. -/
def notifyStatusPower : List UInt16 := notifyStatus (H.statHandle .power)

/-- The helper that the setter of a control ends with. -/
def notifyStatusOf : Control → List UInt16
  | .rpm => notifyStatusRpm H
  | .angle => notifyStatusAngle H
  | .light => notifyStatusLight H
  | .power => notifyStatusPower H

/-- The calls made by the setter of a control. -/
def bizSetUpdates (c : Control) (v : ℤ) : List UInt16 :=
  if v < 0 then [] else notifyStatusOf H c

/-- The calls made by a call into the business logic. -/
def bizCallUpdates : BizCall → List UInt16
  | .set c v => bizSetUpdates H c v
  | .applyWifiCredentials _ => []

/-- The calls into the business logic that the branch `BLE_GATT_ACCESS_OP_WRITE_CHR` makes. -/
def writeChrCalls (d : Device) (a : Access) : List BizCall :=
  if a.attrHandle = H.authCharHandle then []
  else
    match H.ctrlOf a.attrHandle with
    | some c =>
      if !secIsConnAuthenticated d.sec d.now a.connHandle then []
      else
        match gattSvrWriteFlat a (ctrlSize c) (ctrlSize c) with
        | .error _ => []
        | .ok v => [.set c (ctrlArg c v)]
    | none =>
      if a.attrHandle = H.packetHandle then
        if !secIsConnAuthenticated d.sec d.now a.connHandle then []
        else
          match gattSvrWriteFlat a 1 maxPkt with
          | .error _ => []
          | .ok got => (parserHandlePacket (packetText got)).calls
      else []

/-- The calls made by `sec_on_connect`: `update_auth_char_value_and_notify` makes one, once
a nonce is drawn. -/
def secOnConnectUpdates (s : SecState) (now : UInt64) (words : RandomWords) (connHandle : UInt16) :
    List UInt16 :=
  let found := match findEntry s connHandle with
    | some idx => some (idx, s)
    | none => allocEntry s connHandle
  match found with
  | none => []
  | some (idx, s') =>
    if (generateNonceForIndex s' now words idx).isSome then [H.authCharHandle] else []

/-- The calls made while an event is handled. -/
def deviceUpdates (d : Device) : DeviceEvent → List UInt16
  | .connect status h words =>
    if status = 0 then secOnConnectUpdates H d.sec d.now words h else []
  | .access a =>
    match a.op with
    | .writeChr => (writeChrCalls H d a).flatMap (bizCallUpdates H)
    | _ => []
  | _ => []

/-- The characteristics that are declared with `BLE_GATT_CHR_F_NOTIFY` and that the callback
knows. -/
def CharHandles.Notifies (H : CharHandles) (h : UInt16) : Prop :=
  h = H.authCharHandle ∨ ∃ c, h = H.statHandle c

/-- What a read of the characteristic `h` returns to the connection `g`, unless it fails. -/
def valueFor (d : Device) (g h : UInt16) : Option Bytes :=
  let r := readChr H d { op := .readChr, connHandle := g, attrHandle := h }
  if r.status = .success then some r.data else none

variable {H hmac}

/-! ### The status -/

/-- A value that is taken is notified. -/
theorem bizSetUpdates_of_not_neg (c : Control) {v : ℤ} (hv : ¬ v < 0) :
    bizSetUpdates H c v = [H.statHandle c] := by
  have hne : H.statHandle c ≠ 0 := H.ne_zero _ (by simp [Control.mem_all])
  rw [bizSetUpdates, if_neg hv]
  cases c <;> exact if_pos hne

/-- A negative value is not taken. -/
theorem bizSet_of_neg (s : Controls) (c : Control) {v : ℤ} (hv : v < 0) : bizSet s c v = s := by
  cases c <;> exact if_pos hv

/-- **A call into the business logic** keeps a status, or it is notified. -/
theorem statBytes_bizCall (freed : Bool) (s : BizState) (call : BizCall) (c : Control) :
    (bizCall freed s call).controls.statBytes c = s.controls.statBytes c ∨
      H.statHandle c ∈ bizCallUpdates H call := by
  cases call with
  | set c' v =>
      by_cases hv : v < 0
      · exact Or.inl (by rw [bizCall, bizSet_of_neg _ _ hv])
      · by_cases hc : c = c'
        · subst hc
          right
          rw [bizCallUpdates, bizSetUpdates_of_not_neg c hv]
          exact List.mem_singleton_self _
        · exact Or.inl (bytes_bizSet_of_ne s.controls hc v).2
  | applyWifiCredentials cred =>
      left
      rw [bizCall, bizApplyWifiCredentials]
      cases s.wifiCredQueue <;> rfl

/-- The calls of a packet change no status without a notification. -/
theorem statBytes_bizCalls (freed : Bool) (s : BizState) (calls : List BizCall) (c : Control) :
    (bizCalls freed s calls).controls.statBytes c = s.controls.statBytes c ∨
      H.statHandle c ∈ calls.flatMap (bizCallUpdates H) := by
  induction calls generalizing s with
  | nil => exact Or.inl rfl
  | cons call calls ih =>
      rw [List.flatMap_cons, List.mem_append]
      rcases statBytes_bizCall freed s call c with hcall | hcall
      · rcases ih (bizCall freed s call) with hcalls | hcalls
        · exact Or.inl (hcalls.trans hcall)
        · exact Or.inr (Or.inr hcalls)
      · exact Or.inr (Or.inl hcall)

variable (H hmac) in
/-- A write does to the business logic what its calls do. -/
theorem biz_writeChr (d : Device) (a : Access) :
    (writeChr H hmac d a).1.biz = bizCalls a.freed d.biz (writeChrCalls H d a) := by
  rw [writeChr, writeChrCalls]
  by_cases hattr : a.attrHandle = H.authCharHandle
  · rw [if_pos hattr, if_pos hattr]
    cases gattSvrWriteFlat a 32 32 with
    | error rc => rfl
    | ok got =>
        dsimp only
        split_ifs <;> rfl
  · rw [if_neg hattr, if_neg hattr]
    cases H.ctrlOf a.attrHandle with
    | some c =>
        cases secIsConnAuthenticated d.sec d.now a.connHandle with
        | false => rfl
        | true =>
            dsimp only
            cases gattSvrWriteFlat a (ctrlSize c) (ctrlSize c) <;> rfl
    | none =>
        dsimp only
        split_ifs
        · rfl
        · cases gattSvrWriteFlat a 1 maxPkt with
          | error rc => rfl
          | ok got => dsimp only
        · rfl

variable (hmac) in
/-- An event keeps a status, or it is notified. -/
theorem statBytes_deviceStep (d : Device) (e : DeviceEvent) (c : Control) :
    (deviceStep H hmac d e).1.biz.controls.statBytes c = d.biz.controls.statBytes c ∨
      H.statHandle c ∈ deviceUpdates H d e := by
  cases e with
  | connect status g words =>
      left
      rw [deviceStep]
      split_ifs <;> rfl
  | disconnect g => exact Or.inl rfl
  | tick now =>
      left
      rw [deviceStep]
      split_ifs <;> rfl
  | dequeue =>
      left
      rw [deviceStep, dequeue]
      cases d.biz.wifiCredQueue.bind CredQueue.receive <;> rfl
  | access a =>
      rw [deviceStep, gattSvcAccess, deviceUpdates]
      cases a.op with
      | readChr | readDsc | writeDsc | other => exact Or.inl rfl
      | writeChr =>
          dsimp only
          rw [biz_writeChr]
          exact statBytes_bizCalls a.freed d.biz _ c

/-! ### The challenge -/

/-- A connect changes nothing, or the host is told. -/
theorem mem_secOnConnectUpdates (s : SecState) (now : UInt64) (words : RandomWords) (g : UInt16) :
    secOnConnect s now words g = s ∨
      H.authCharHandle ∈ secOnConnectUpdates H s now words g := by
  have hlen : ¬ s.nonceLen.val > 32 := not_lt.mpr s.nonceLen.2.2
  rw [secOnConnect, secOnConnectUpdates]
  cases findEntry s g with
  | some i =>
      right
      simp [generateNonceForIndex, hlen]
  | none =>
      rw [allocEntry]
      cases freeSlot Conn.connHandle (· = 0) s.conns with
      | none => exact Or.inl rfl
      | some i =>
          right
          simp [generateNonceForIndex, hlen]

/-- A response to a challenge leaves all challenges as they are. -/
theorem secGetAuthValue_secHandleAuthResponse (s : SecState) (now : UInt64) (g' : UInt16)
    (response : Option Bytes) (g : UInt16) :
    secGetAuthValue (secHandleAuthResponse hmac s now g' response).1 g = secGetAuthValue s g := by
  rw [secGetAuthValue_eq, secGetAuthValue_eq, sessionOf_secHandleAuthResponse]
  cases sessionOf s g with
  | none => rfl
  | some c =>
      rw [Option.map_some]
      split_ifs <;> rfl

/-- A slot that was cleared holds no challenge. -/
theorem secGetAuthValue_of_cleared {s : SecState} {i : Fin maxSecConns} {g : UInt16}
    (h : findEntry (freeEntryIndex s i) g = some i) :
    secGetAuthValue (freeEntryIndex s i) g = (-1, []) := by
  have hslot : (freeEntryIndex s i).conns[i] = {} := by
    rw [freeEntryIndex]
    dsimp only
    rw [get_set, if_pos rfl]
  rw [secGetAuthValue, h]
  dsimp only
  rw [hslot, if_pos rfl]

/-- A cleared slot is free, so a lookup of the handle 0 finds it, or the free slot that it
found before. -/
theorem findEntry_zero_freeEntryIndex (s : SecState) (i : Fin maxSecConns) :
    findEntry (freeEntryIndex s i) 0 = some i ∨
      ∃ z, z < i ∧ findEntry (freeEntryIndex s i) 0 = some z ∧ findEntry s 0 = some z := by
  unfold findEntry slotOf freeEntryIndex
  exact first_set_of_pos s.conns i rfl

/-- **A disconnect** keeps the challenge of a connection, or leaves none. -/
theorem secGetAuthValue_secClearConn {s : SecState} (hs : TableOk s) (g' g : UInt16) :
    secGetAuthValue (secClearConn s g') g = secGetAuthValue s g ∨
      secGetAuthValue (secClearConn s g') g = (-1, []) := by
  by_cases hg : g = 0
  · subst hg
    rw [secClearConn]
    cases findEntry s g' with
    | none => exact Or.inl rfl
    | some i =>
        dsimp only
        rcases findEntry_zero_freeEntryIndex s i with hnew | ⟨z, hz, hnew, hold⟩
        · exact Or.inr (secGetAuthValue_of_cleared hnew)
        · left
          have hslot : (freeEntryIndex s i).conns[z] = s.conns[z] := by
            rw [freeEntryIndex]
            dsimp only
            rw [get_set, if_neg (ne_of_gt hz)]
          rw [secGetAuthValue, secGetAuthValue, hnew, hold]
          dsimp only
          rw [hslot]
  · have hclear := (hs.secClearConn g').2 g hg
    rw [secGetAuthValue_eq, secGetAuthValue_eq, hclear]
    split_ifs
    · exact Or.inr rfl
    · exact Or.inl rfl

/-! ### What a subscriber sees -/

/-- What a connection reads for its challenge. -/
theorem valueFor_auth (d : Device) (g : UInt16) :
    valueFor H d g H.authCharHandle =
      if (secGetAuthValue d.sec g).1 = 16 then some (secGetAuthValue d.sec g).2 else none := by
  rw [valueFor, readChr, if_pos rfl]
  by_cases h16 : (secGetAuthValue d.sec g).1 = 16
  · rw [if_pos h16, if_neg (not_not.mpr h16)]
    rfl
  · rw [if_neg h16, if_pos h16]
    rfl

/-- What it reads for a status. -/
theorem valueFor_stat (d : Device) (g : UInt16) (c : Control) :
    valueFor H d g (H.statHandle c) = some (d.biz.controls.statBytes c) := by
  rw [valueFor, (readChr_control c).2 rfl]
  rfl

variable (hmac) in
/-- **One event** keeps the challenge of a connection, or takes it away, or the host is
told. -/
theorem secGetAuthValue_deviceStep {d : Device} (hs : TableOk d.sec) (e : DeviceEvent)
    (g : UInt16) :
    secGetAuthValue (deviceStep H hmac d e).1.sec g = secGetAuthValue d.sec g ∨
      secGetAuthValue (deviceStep H hmac d e).1.sec g = (-1, []) ∨
      H.authCharHandle ∈ deviceUpdates H d e := by
  cases e with
  | connect status g' words =>
      rw [deviceStep, deviceUpdates]
      split_ifs
      · dsimp only
        rcases mem_secOnConnectUpdates (H := H) d.sec d.now words g' with hsame | hmem
        · exact Or.inl (by rw [hsame])
        · exact Or.inr (Or.inr hmem)
      · exact Or.inl rfl
  | disconnect g' =>
      rw [deviceStep]
      rcases secGetAuthValue_secClearConn hs g' g with hsame | hgone
      · exact Or.inl hsame
      · exact Or.inr (Or.inl hgone)
  | tick now =>
      left
      rw [deviceStep]
      split_ifs <;> rfl
  | dequeue => exact Or.inl rfl
  | access a =>
      left
      rw [deviceStep]
      dsimp only
      rcases gattSvcAccess_cases H hmac d a with
        hsame | ⟨-, -, got, hresponse⟩ | ⟨-, -, -, calls, hbiz⟩
      · rw [hsame]
      · rw [hresponse, secGetAuthValue_secHandleAuthResponse]
      · rw [hbiz]

/-- **One event** keeps what a connection reads, or takes it away, or the host is told. -/
theorem valueFor_deviceStep {d : Device} (hs : TableOk d.sec) (e : DeviceEvent) {h : UInt16}
    (hnotifies : H.Notifies h) (g : UInt16) :
    valueFor H (deviceStep H hmac d e).1 g h = valueFor H d g h ∨
      valueFor H (deviceStep H hmac d e).1 g h = none ∨ h ∈ deviceUpdates H d e := by
  rcases hnotifies with rfl | ⟨c, rfl⟩
  · rw [valueFor_auth, valueFor_auth]
    rcases secGetAuthValue_deviceStep hmac hs e g with hsame | hgone | hmem
    · exact Or.inl (by rw [hsame])
    · exact Or.inr (Or.inl (by rw [hgone, if_neg (by decide)]))
    · exact Or.inr (Or.inr hmem)
  · rw [valueFor_stat, valueFor_stat]
    rcases statBytes_deviceStep hmac d e c with hsame | hmem
    · exact Or.inl (by rw [hsame])
    · exact Or.inr (Or.inr hmem)

variable (H hmac)

/-- **No change goes unnotified.** In every run, between any two moments of it: if a read of
the challenge or of a status succeeds at the later moment, for whatever connection, and does
not return what it returned at the earlier one, then `ble_gatts_chr_updated` was called for
that characteristic in between. -/
theorem no_change_unnotified (es post : List DeviceEvent) {h : UInt16} (hnotifies : H.Notifies h)
    (g : UInt16) {v : Bytes}
    (hafter : valueFor H (deviceAfter H hmac (es ++ post)) g h = some v)
    (hbefore : valueFor H (deviceAfter H hmac es) g h ≠ some v) :
    Occurs (fun pre e => h ∈ deviceUpdates H (deviceAfter H hmac (es ++ pre)) e) post := by
  have hsplit : ∀ l, deviceAfter H hmac (es ++ l) =
      l.foldl (fun d e => (deviceStep H hmac d e).1) (deviceAfter H hmac es) :=
    fun l => List.foldl_append
  have hsteps : Along (fun d e => (deviceStep H hmac d e).1) (deviceAfter H hmac es)
      (fun _ d e => valueFor H (deviceStep H hmac d e).1 g h = valueFor H d g h ∨
        valueFor H (deviceStep H hmac d e).1 g h = none ∨ h ∈ deviceUpdates H d e) post := by
    intro pre e rest _
    rw [← hsplit]
    exact valueFor_deviceStep (tableOk_deviceAfter H hmac (es ++ pre)) e hnotifies g
  simp only [hsplit] at hafter ⊢
  exact noted_of_changed (fun d => valueFor H d g h) hsteps hafter hbefore

/-- The challenge of the sample connection has been announced. -/
theorem no_change_unnotified_sample :
    Occurs (fun pre e => sampleHandles.authCharHandle ∈
      deviceUpdates sampleHandles (deviceAfter sampleHandles sampleHmac ([] ++ pre)) e)
      (completedRun 7) :=
  no_change_unnotified sampleHandles sampleHmac [] (completedRun 7) (Or.inl rfl) 7
    (v := drawn (Vector.replicate 8 0) 16) (by decide +kernel) (by decide +kernel)

end AirShifter
