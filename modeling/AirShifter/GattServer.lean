import AirShifter.Parser
import AirShifter.SecurityRun

/-!
# The GATT Server

The access callback of `gatt_svr.c` with the connect and disconnect handlers of `main.c`,
over the state of the whole device: the session table, the business logic, and the
millisecond clock. The payload of an access, the outcomes of the buffer calls of NimBLE,
and whether the Wi-Fi task makes room in a full queue are inputs.

Handles of characteristics are assigned by NimBLE. That they are distinct and not zero is
part of `CharHandles`.

## Main results

* `writeChr_cases`, `gattSvcAccess_cases`: what an access can do to the device.
* `gattSvcAccess_refused`: a write to a control or packet characteristic without
  authentication changes nothing.
* `no_effect_without_authentication`: both, for every step of every run.
* `gattSvcAccess_unchanged`: a refused access, and a read, change nothing.
-/

open CBytes Runs

namespace AirShifter

/-! ### The device -/

/-- The value handles of the characteristics. -/
structure CharHandles where
  authCharHandle : UInt16
  packetHandle : UInt16
  ctrlHandle : Control → UInt16
  statHandle : Control → UInt16
  nodup : (authCharHandle :: packetHandle ::
    (Control.all.map ctrlHandle ++ Control.all.map statHandle)).Nodup
  ne_zero : ∀ h ∈ authCharHandle :: packetHandle ::
    (Control.all.map ctrlHandle ++ Control.all.map statHandle), h ≠ 0

/-- The control whose control characteristic has the handle. -/
def CharHandles.ctrlOf (H : CharHandles) (attrHandle : UInt16) : Option Control :=
  Control.all.find? fun c => attrHandle = H.ctrlHandle c

/-- The control whose status characteristic has the handle. -/
def CharHandles.statOf (H : CharHandles) (attrHandle : UInt16) : Option Control :=
  Control.all.find? fun c => attrHandle = H.statHandle c

/-- The state of the device. -/
structure Device where
  sec : SecState
  biz : BizState
  now : UInt64
  deriving DecidableEq

/-- The device after start-up: `sec_init` done, and the credential queue created. -/
def bootDevice : Device where
  sec := bootSec
  biz := { wifiCredQueue := some .empty }
  now := 0

/-! ### An access -/

/-- `BLE_GATT_ACCESS_OP_*`; `other` stands for every other value. -/
inductive GattOp
  | readChr | writeChr | readDsc | writeDsc | other
  deriving DecidableEq

/-- The status codes `BLE_ATT_ERR_*` the callback returns; `success` is 0. -/
inductive AttStatus
  | success | invalidAttrValueLen | unlikely | insufficientAuthen | insufficientRes
  | writeNotPermitted
  deriving DecidableEq

/-- The arguments of a call of `gatt_svc_access`: `payload` are the bytes in `ctxt->om`,
`flatRc` and `appendRc` the return codes of `ble_hs_mbuf_to_flat` and `os_mbuf_append`,
`dscKnown` tells whether the descriptor is the custom one, and `freed` whether the Wi-Fi
task takes an element while a send waits on a full queue. -/
structure Access where
  op : GattOp
  connHandle : UInt16
  attrHandle : UInt16
  payload : Bytes := []
  flatRc : ℤ := 0
  appendRc : ℤ := 0
  dscKnown : Bool := false
  freed : Bool := false
  deriving DecidableEq

/-- What an access returns: the status, and the bytes appended to the response. -/
structure AttResponse where
  status : AttStatus
  data : Bytes := []
  deriving DecidableEq

/-- `gatt_svr_write_flat`: the bytes it copies, or the error it returns. The length of a
packet is a 16-bit number. -/
def gattSvrWriteFlat (a : Access) (minLen maxLen : ℕ) : Except AttStatus Bytes :=
  let omLen := a.payload.length % 2 ^ 16
  if omLen < minLen ∨ omLen > maxLen then .error .invalidAttrValueLen
  else if a.flatRc ≠ 0 then .error .unlikely
  else .ok (a.payload.take omLen)

/-- The response of a read that appends `data`. -/
def appendResponse (a : Access) (data : Bytes) : AttResponse :=
  if a.appendRc = 0 then ⟨.success, data⟩ else ⟨.insufficientRes, []⟩

/-- The bytes of a control variable in memory. -/
def Controls.ctrlBytes (s : Controls) : Control → Bytes
  | .rpm => leBytes s.ctrlRpm
  | .angle => leBytes s.ctrlAngle
  | .light => [s.ctrlLight]
  | .power => [s.ctrlPower]

/-- The bytes of a status variable in memory. -/
def Controls.statBytes (s : Controls) : Control → Bytes
  | .rpm => leBytes s.statRpm
  | .angle => leBytes s.statAngle
  | .light => [s.statLight]
  | .power => [s.statPower]

/-- The size of a control variable. -/
def ctrlSize : Control → ℕ
  | .rpm | .angle => 4
  | .light | .power => 1

/-- The value `v` read from the bytes of a write, converted to `int`. -/
def ctrlArg : Control → Bytes → ℤ
  | .rpm, data | .angle, data => (leWord data).toBitVec.toInt
  | .light, data | .power, data => (data.headD 0).toNat

/-- `MAX_PKT`. -/
abbrev maxPkt : ℕ := 128

/-- The NUL-terminated text of a packet of at most `MAX_PKT` bytes. -/
def packetText (data : Bytes) : Bytes :=
  let buf : Vector UInt8 (maxPkt + 1) := memcpy (Vector.replicate _ 0) 0 data
  let buf := memcpy buf data.length [0]
  cstr buf

variable (H : CharHandles) (hmac : Bytes → Bytes → Vector UInt8 hmacSha256Len)

/-- The branch `BLE_GATT_ACCESS_OP_READ_CHR`. -/
def readChr (d : Device) (a : Access) : AttResponse :=
  if a.attrHandle = H.authCharHandle then
    let r := secGetAuthValue d.sec a.connHandle
    if r.1 ≠ 16 then ⟨.unlikely, []⟩ else appendResponse a r.2
  else
    match H.ctrlOf a.attrHandle with
    | some c => appendResponse a (d.biz.controls.ctrlBytes c)
    | none =>
      match H.statOf a.attrHandle with
      | some c => appendResponse a (d.biz.controls.statBytes c)
      | none => ⟨.unlikely, []⟩

/-- The branch `BLE_GATT_ACCESS_OP_WRITE_CHR`. -/
def writeChr (d : Device) (a : Access) : Device × AttStatus :=
  if a.attrHandle = H.authCharHandle then
    match gattSvrWriteFlat a 32 32 with
    | .error _ => (d, .invalidAttrValueLen)
    | .ok got =>
      if got.length ≠ 32 then (d, .invalidAttrValueLen)
      else
        let r := secHandleAuthResponse hmac d.sec d.now a.connHandle (some got)
        ({ d with sec := r.1 }, if r.2 then .success else .insufficientAuthen)
  else
    match H.ctrlOf a.attrHandle with
    | some c =>
      if !secIsConnAuthenticated d.sec d.now a.connHandle then (d, .insufficientAuthen)
      else
        match gattSvrWriteFlat a (ctrlSize c) (ctrlSize c) with
        | .error rc => (d, rc)
        | .ok v =>
          ({ d with biz := { d.biz with
              controls := bizSet d.biz.controls c (ctrlArg c v) } }, .success)
    | none =>
      if a.attrHandle = H.packetHandle then
        if !secIsConnAuthenticated d.sec d.now a.connHandle then (d, .insufficientAuthen)
        else
          match gattSvrWriteFlat a 1 maxPkt with
          | .error rc => (d, rc)
          | .ok got =>
            ({ d with
              biz := bizCalls a.freed d.biz (parserHandlePacket (packetText got)).calls },
              .success)
      else (d, .writeNotPermitted)

/-- `gatt_svr_dsc_val`, as `gatt_svr_init` sets it before any access. -/
def gattSvrDscVal : UInt8 := 0x99

/-- `gatt_svc_access`. -/
def gattSvcAccess (d : Device) (a : Access) : Device × AttResponse :=
  match a.op with
  | .readChr => (d, readChr H d a)
  | .writeChr =>
    let r := writeChr H hmac d a
    (r.1, ⟨r.2, []⟩)
  | .readDsc => (d, if a.dscKnown then appendResponse a [gattSvrDscVal] else ⟨.unlikely, []⟩)
  | .writeDsc => (d, ⟨.success, []⟩)
  | .other => (d, ⟨.unlikely, []⟩)

/-! ### Runs of the device -/

/-- What happens to the device: `BLE_GAP_EVENT_CONNECT` with its status and the random
words of a nonce, `BLE_GAP_EVENT_DISCONNECT`, the clock reaching a time, the Wi-Fi task
taking a credential, an access. -/
inductive DeviceEvent
  | connect (status : ℤ) (connHandle : UInt16) (words : RandomWords)
  | disconnect (connHandle : UInt16)
  | tick (now : UInt64)
  | dequeue
  | access (a : Access)
  deriving DecidableEq

/-- The effect of an event, and the response if it is an access. -/
def deviceStep (d : Device) : DeviceEvent → Device × Option AttResponse
  | .connect status h words =>
    (if status = 0 then { d with sec := secOnConnect d.sec d.now words h } else d, none)
  | .disconnect h =>
    ({ d with
      sec := secClearConn d.sec h
      biz := { d.biz with authTable := bizClearAuth d.biz.authTable h } }, none)
  | .tick now => (if d.now ≤ now then { d with now := now } else d, none)
  | .dequeue => ({ d with biz := dequeue d.biz }, none)
  | .access a =>
    let r := gattSvcAccess H hmac d a
    (r.1, some r.2)

/-- The device after a run from boot. -/
def deviceAfter (es : List DeviceEvent) : Device :=
  es.foldl (fun d e => (deviceStep H hmac d e).1) bootDevice

theorem deviceAfter_concat (es : List DeviceEvent) (e : DeviceEvent) :
    deviceAfter H hmac (es ++ [e]) = (deviceStep H hmac (deviceAfter H hmac es) e).1 := by
  rw [deviceAfter, List.foldl_append]
  rfl

/-! ### Which accesses have an effect -/

/-- The characteristics whose writes act on the device: the control characteristics and
the packet characteristic. -/
def CharHandles.Acts (H : CharHandles) (attrHandle : UInt16) : Prop :=
  (∃ c, attrHandle = H.ctrlHandle c) ∨ attrHandle = H.packetHandle

variable {H}

/-- A handle that is found for a control is the one of its variable. -/
theorem CharHandles.ctrlHandle_of_ctrlOf {attrHandle : UInt16} {c : Control}
    (h : H.ctrlOf attrHandle = some c) : attrHandle = H.ctrlHandle c := by
  simpa using List.find?_some h

/-- A handle that can have an effect is not the one for authentication. -/
theorem CharHandles.ne_auth_of_acts {attrHandle : UInt16} (h : H.Acts attrHandle) :
    attrHandle ≠ H.authCharHandle := by
  have hnot := (List.nodup_cons.mp H.nodup).1
  rintro rfl
  rcases h with ⟨c, hc⟩ | hpacket
  · exact hnot (by simp [hc, Control.mem_all])
  · exact hnot (by simp [hpacket])

/-- A handle with an effect leads to a control branch or to the packet branch. -/
theorem CharHandles.acts_cases {attrHandle : UInt16} (h : H.Acts attrHandle) :
    (∃ c, H.ctrlOf attrHandle = some c) ∨
      H.ctrlOf attrHandle = none ∧ attrHandle = H.packetHandle := by
  cases hctrl : H.ctrlOf attrHandle with
  | some c => exact Or.inl ⟨c, rfl⟩
  | none =>
      refine Or.inr ⟨rfl, h.resolve_left ?_⟩
      rintro ⟨c, hc⟩
      exact absurd (List.find?_eq_none.mp hctrl c (Control.mem_all c)) (by simpa using hc)

variable {hmac} {d : Device} {a : Access}

/-- **A write without authentication is refused**, and changes nothing. -/
theorem gattSvcAccess_refused (hop : a.op = .writeChr) (hacts : H.Acts a.attrHandle)
    (hauth : secIsConnAuthenticated d.sec d.now a.connHandle = false) :
    gattSvcAccess H hmac d a = (d, ⟨.insufficientAuthen, []⟩) := by
  have hwrite : writeChr H hmac d a = (d, .insufficientAuthen) := by
    rw [writeChr, if_neg (CharHandles.ne_auth_of_acts hacts)]
    rcases CharHandles.acts_cases hacts with ⟨c, hc⟩ | ⟨hnone, hpacket⟩
    · rw [hc]
      dsimp only
      rw [hauth]
      rfl
    · rw [hnone]
      dsimp only
      rw [if_pos hpacket, hauth]
      rfl
  rw [gattSvcAccess, hop]
  dsimp only
  rw [hwrite]

/-- A response to the challenge that is not accepted changes nothing. -/
theorem secHandleAuthResponse_of_not {s : SecState} {now : UInt64} {h : UInt16}
    {response : Option Bytes} (hrefused : (secHandleAuthResponse hmac s now h response).2 ≠ true) :
    (secHandleAuthResponse hmac s now h response).1 = s := by
  rw [secHandleAuthResponse_eq] at hrefused ⊢
  cases hf : findEntry s h with
  | none => rfl
  | some i =>
      rw [hf] at hrefused
      dsimp only at hrefused ⊢
      split_ifs with hacc
      · rw [if_pos hacc] at hrefused
        exact absurd rfl hrefused
      · rfl

/-- A buffer that is not copied out is an error. -/
theorem ne_success_of_writeFlat {lo hi : ℕ} {rc : AttStatus}
    (h : gattSvrWriteFlat a lo hi = .error rc) : rc ≠ .success := by
  rw [gattSvrWriteFlat] at h
  split_ifs at h <;> rw [← Except.error.inj h] <;> simp

variable (H hmac) in
/-- A write of the auth characteristic. -/
theorem writeChr_auth (d : Device) (hattr : a.attrHandle = H.authCharHandle) :
    (∃ rc, rc ≠ .success ∧ writeChr H hmac d a = (d, rc)) ∨
      ∃ got, writeChr H hmac d a =
        ({ d with sec := (secHandleAuthResponse hmac d.sec d.now a.connHandle (some got)).1 },
          .success) := by
  rw [writeChr, if_pos hattr]
  cases gattSvrWriteFlat a 32 32 with
  | error rc => exact Or.inl ⟨_, by simp, rfl⟩
  | ok got =>
      dsimp only
      by_cases hlen : got.length = 32
      · rw [if_neg (not_not.mpr hlen)]
        by_cases hacc : (secHandleAuthResponse hmac d.sec d.now a.connHandle (some got)).2 = true
        · rw [if_pos hacc]
          exact Or.inr ⟨got, rfl⟩
        · rw [if_neg hacc, secHandleAuthResponse_of_not hacc]
          exact Or.inl ⟨_, by simp, rfl⟩
      · rw [if_pos hlen]
        exact Or.inl ⟨_, by simp, rfl⟩

variable (H hmac) in
/-- A write of a control characteristic. -/
theorem writeChr_ctrl (d : Device) (hattr : a.attrHandle ≠ H.authCharHandle) {c : Control}
    (hctrl : H.ctrlOf a.attrHandle = some c) :
    (∃ rc, rc ≠ .success ∧ writeChr H hmac d a = (d, rc)) ∨
      ∃ v, secIsConnAuthenticated d.sec d.now a.connHandle = true ∧
        gattSvrWriteFlat a (ctrlSize c) (ctrlSize c) = .ok v ∧
        writeChr H hmac d a =
          ({ d with biz := bizCall a.freed d.biz (.set c (ctrlArg c v)) }, .success) := by
  rw [writeChr, if_neg hattr, hctrl]
  cases hauth : secIsConnAuthenticated d.sec d.now a.connHandle with
  | false => exact Or.inl ⟨_, by simp, rfl⟩
  | true =>
      dsimp only
      rw [Bool.not_true, if_neg Bool.false_ne_true]
      cases hv : gattSvrWriteFlat a (ctrlSize c) (ctrlSize c) with
      | error rc => exact Or.inl ⟨_, ne_success_of_writeFlat hv, rfl⟩
      | ok v => exact Or.inr ⟨v, rfl, rfl, rfl⟩

variable (H hmac) in
/-- A write of the packet characteristic, or of one that cannot be written. -/
theorem writeChr_packet (d : Device) (hattr : a.attrHandle ≠ H.authCharHandle)
    (hctrl : H.ctrlOf a.attrHandle = none) :
    (∃ rc, rc ≠ .success ∧ writeChr H hmac d a = (d, rc)) ∨
      (a.attrHandle = H.packetHandle ∧
        secIsConnAuthenticated d.sec d.now a.connHandle = true ∧ ∃ got,
        writeChr H hmac d a =
          ({ d with biz := bizCalls a.freed d.biz (parserHandlePacket (packetText got)).calls },
            .success)) := by
  rw [writeChr, if_neg hattr, hctrl]
  dsimp only
  by_cases hpacket : a.attrHandle = H.packetHandle
  · rw [if_pos hpacket]
    cases hauth : secIsConnAuthenticated d.sec d.now a.connHandle with
    | false => exact Or.inl ⟨_, by simp, rfl⟩
    | true =>
        rw [Bool.not_true, if_neg Bool.false_ne_true]
        cases hv : gattSvrWriteFlat a 1 maxPkt with
        | error rc => exact Or.inl ⟨_, ne_success_of_writeFlat hv, rfl⟩
        | ok got => exact Or.inr ⟨hpacket, rfl, got, rfl⟩
  · rw [if_neg hpacket]
    exact Or.inl ⟨_, by simp, rfl⟩

variable (H hmac) in
/-- **What a write can do to the device.** It fails and does nothing, or it succeeds and
does what its characteristic is for. -/
theorem writeChr_cases (d : Device) (a : Access) :
    (∃ rc, rc ≠ .success ∧ writeChr H hmac d a = (d, rc)) ∨
      (a.attrHandle = H.authCharHandle ∧ ∃ got,
        writeChr H hmac d a =
          ({ d with sec := (secHandleAuthResponse hmac d.sec d.now a.connHandle (some got)).1 },
            .success)) ∨
      (∃ c v, H.ctrlOf a.attrHandle = some c ∧
        secIsConnAuthenticated d.sec d.now a.connHandle = true ∧
        gattSvrWriteFlat a (ctrlSize c) (ctrlSize c) = .ok v ∧
        writeChr H hmac d a =
          ({ d with biz := bizCall a.freed d.biz (.set c (ctrlArg c v)) }, .success)) ∨
      (a.attrHandle = H.packetHandle ∧
        secIsConnAuthenticated d.sec d.now a.connHandle = true ∧ ∃ got,
        writeChr H hmac d a =
          ({ d with biz := bizCalls a.freed d.biz (parserHandlePacket (packetText got)).calls },
            .success)) := by
  by_cases hattr : a.attrHandle = H.authCharHandle
  · exact (writeChr_auth H hmac d hattr).imp id fun hgot => Or.inl ⟨hattr, hgot⟩
  · cases hctrl : H.ctrlOf a.attrHandle with
    | some c =>
        refine (writeChr_ctrl H hmac d hattr hctrl).imp id fun hset => Or.inr (Or.inl ?_)
        obtain ⟨v, hauth, hv, hw⟩ := hset
        exact ⟨c, v, rfl, hauth, hv, hw⟩
    | none =>
        exact (writeChr_packet H hmac d hattr hctrl).imp id fun hpacket =>
          Or.inr (Or.inr hpacket)

variable (H hmac) in
/-- **What an access can do to the device**: nothing; a response to the challenge; or, for
an authenticated connection, calls into the business logic. -/
theorem gattSvcAccess_cases (d : Device) (a : Access) :
    (gattSvcAccess H hmac d a).1 = d ∨
      (a.op = .writeChr ∧ a.attrHandle = H.authCharHandle ∧ ∃ got,
        (gattSvcAccess H hmac d a).1 =
          { d with sec := (secHandleAuthResponse hmac d.sec d.now a.connHandle (some got)).1 }) ∨
      (a.op = .writeChr ∧ H.Acts a.attrHandle ∧
        secIsConnAuthenticated d.sec d.now a.connHandle = true ∧ ∃ calls,
          (gattSvcAccess H hmac d a).1 = { d with biz := bizCalls a.freed d.biz calls }) := by
  rw [gattSvcAccess]
  cases hop : a.op with
  | readChr | readDsc | writeDsc | other => exact Or.inl rfl
  | writeChr =>
      dsimp only
      rcases writeChr_cases H hmac d a with
        ⟨rc, -, hw⟩ | ⟨hattr, got, hw⟩ | ⟨c, v, hctrl, hauth, -, hw⟩ | ⟨hpacket, hauth, got, hw⟩
      · exact Or.inl (by rw [hw])
      · exact Or.inr (Or.inl ⟨rfl, hattr, got, by rw [hw]⟩)
      · exact Or.inr (Or.inr ⟨rfl, Or.inl ⟨c, CharHandles.ctrlHandle_of_ctrlOf hctrl⟩, hauth,
          [.set c (ctrlArg c v)], by rw [hw]; rfl⟩)
      · exact Or.inr (Or.inr ⟨rfl, Or.inr hpacket, hauth, _, by rw [hw]⟩)

variable (H hmac) in
/-- **A refused access changes nothing**, and neither does a read, refused or not. -/
theorem gattSvcAccess_unchanged (d : Device) (a : Access) :
    ((gattSvcAccess H hmac d a).2.status ≠ .success → (gattSvcAccess H hmac d a).1 = d) ∧
      (a.op = .readChr ∨ a.op = .readDsc → (gattSvcAccess H hmac d a).1 = d) := by
  rw [gattSvcAccess]
  cases hop : a.op with
  | readChr | readDsc | writeDsc | other => exact ⟨fun _ => rfl, fun _ => rfl⟩
  | writeChr =>
      dsimp only
      refine ⟨fun hrefused => ?_, by simp⟩
      rcases writeChr_cases H hmac d a with
        ⟨rc, -, hw⟩ | ⟨-, got, hw⟩ | ⟨c, v, -, -, -, hw⟩ | ⟨-, -, got, hw⟩
      · rw [hw]
      · exact absurd (by rw [hw]) hrefused
      · exact absurd (by rw [hw]) hrefused
      · exact absurd (by rw [hw]) hrefused

/-- Only an authenticated write reaches the business logic. -/
theorem gattSvcAccess_biz (hne : (gattSvcAccess H hmac d a).1.biz ≠ d.biz) :
    a.op = .writeChr ∧ H.Acts a.attrHandle ∧
      secIsConnAuthenticated d.sec d.now a.connHandle = true := by
  rcases gattSvcAccess_cases H hmac d a with
    hsame | ⟨-, -, got, hsec⟩ | ⟨hop, hacts, hauth, -⟩
  · exact absurd (congrArg Device.biz hsame) hne
  · exact absurd (congrArg Device.biz hsec) hne
  · exact ⟨hop, hacts, hauth⟩

/-! ### No effect without authentication -/

/-- The credentials the queue ever accepted. -/
def Device.sent (d : Device) : List WifiCredentials :=
  (d.biz.wifiCredQueue.map CredQueue.sent).getD []

/-- A credential that is taken stays among the accepted ones. -/
theorem sent_dequeue (s : BizState) :
    (dequeue s).controls = s.controls ∧
      (dequeue s).wifiCredQueue.map CredQueue.sent = s.wifiCredQueue.map CredQueue.sent := by
  rw [dequeue]
  cases hq : s.wifiCredQueue with
  | none => exact ⟨rfl, by rw [Option.bind_none]; exact congrArg _ hq⟩
  | some q =>
      rw [Option.bind_some]
      cases hr : q.receive with
      | none => exact ⟨rfl, congrArg _ hq⟩
      | some r => exact ⟨rfl, congrArg some (q.sent_receive hr)⟩

/-- The step `e` from `d` changes a control or status variable, or the queue accepts a
credential. -/
def HasEffect (H : CharHandles) (hmac : Bytes → Bytes → Vector UInt8 hmacSha256Len) (d : Device)
    (e : DeviceEvent) : Prop :=
  (deviceStep H hmac d e).1.biz.controls ≠ d.biz.controls ∨
    (deviceStep H hmac d e).1.sent ≠ d.sent

/-- The step is a write of a control or packet characteristic by the connection `h`. -/
def IsActingWrite (H : CharHandles) (e : DeviceEvent) (h : UInt16) : Prop :=
  ∃ a, e = .access a ∧ a.op = .writeChr ∧ H.Acts a.attrHandle ∧ a.connHandle = h

/-- A step with an effect is an authenticated write. -/
theorem write_of_hasEffect {e : DeviceEvent} (h : HasEffect H hmac d e) :
    ∃ conn, IsActingWrite H e conn ∧ secIsConnAuthenticated d.sec d.now conn = true := by
  cases e with
  | connect status g words =>
      have hbiz : (deviceStep H hmac d (.connect status g words)).1.biz = d.biz := by
        dsimp only [deviceStep]
        split_ifs <;> rfl
      rw [HasEffect, Device.sent, Device.sent, hbiz] at h
      exact absurd h (by simp)
  | disconnect g => exact absurd h (by simp [HasEffect, Device.sent, deviceStep])
  | tick now =>
      have hbiz : (deviceStep H hmac d (.tick now)).1.biz = d.biz := by
        dsimp only [deviceStep]
        split_ifs <;> rfl
      rw [HasEffect, Device.sent, Device.sent, hbiz] at h
      exact absurd h (by simp)
  | dequeue =>
      obtain ⟨hcontrols, hsent⟩ := sent_dequeue d.biz
      rw [HasEffect, Device.sent, Device.sent, deviceStep, hcontrols, hsent] at h
      exact absurd h (by simp)
  | access a =>
      have hne : (gattSvcAccess H hmac d a).1.biz ≠ d.biz := by
        intro hbiz
        rw [HasEffect, Device.sent, Device.sent, deviceStep] at h
        dsimp only at h
        rw [hbiz] at h
        exact absurd h (by simp)
      obtain ⟨hop, hacts, hauth⟩ := gattSvcAccess_biz hne
      exact ⟨a.connHandle, ⟨a, rfl, hop, hacts, rfl⟩, hauth⟩

variable (H hmac)

/-- **No effect without authentication.** In every run from boot, a step that changes a
control or status variable, or adds a credential to the queue, is a write of a control or
packet characteristic by a connection that is authenticated just before it; and such a
write by any other connection is answered by `BLE_ATT_ERR_INSUFFICIENT_AUTHEN` and leaves
the device as it was. -/
theorem no_effect_without_authentication (es : List DeviceEvent) :
    Along (fun d e => (deviceStep H hmac d e).1) bootDevice
      (fun _ d e =>
        (HasEffect H hmac d e →
          ∃ h, IsActingWrite H e h ∧ secIsConnAuthenticated d.sec d.now h = true) ∧
        ∀ h, IsActingWrite H e h → secIsConnAuthenticated d.sec d.now h = false →
          deviceStep H hmac d e = (d, some ⟨.insufficientAuthen, []⟩))
      es := by
  intro pre e post _
  refine ⟨write_of_hasEffect, ?_⟩
  rintro h ⟨a, rfl, hop, hacts, rfl⟩ hauth
  rw [deviceStep, gattSvcAccess_refused hop hacts hauth]

end AirShifter
