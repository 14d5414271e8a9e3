import AirShifter.CString

/-!
# The Business Logic

The module `biz_logix.c`: the control variables with the status variables that mirror
them, and the queue that hands Wi-Fi credentials to the Wi-Fi task. Setter arguments are
C `int`s; the conversions to the 32-bit and 8-bit variables wrap.

The queue is a FreeRTOS queue of two elements. It is modelled by its history: the
credentials that were ever accepted, oldest first, and how many of them the task has
taken. What waits in the queue is the rest. A send to a full queue waits 50 ms; whether
the task takes an element in that time is an input of the send.

Of the key-based authentication table only the clearing of a handle stands here, which
the disconnect handler calls; the calls that look a handle up have a module of their own.
The status notifications carry no data and are left out.

## Main results

* `ssid_credCopy`: the copy that is sent holds the SSID it was made from, cut to the
  field.
* `bizSet_comm`: setters of different variables commute.
-/

open CBytes

namespace AirShifter

/-! ### Credentials -/

/-- `WIFI_SSID_MAX_LEN`. -/
abbrev wifiSsidMaxLen : ℕ := 32

/-- `WIFI_PASS_MAX_LEN`. -/
abbrev wifiPassMaxLen : ℕ := 64

/-- `wifi_credentials_t`. The default value is the one initialised by `{0}`. -/
structure WifiCredentials where
  ssidLen : UInt8 := 0
  passLen : UInt8 := 0
  ssid : Vector UInt8 (wifiSsidMaxLen + 1) := Vector.replicate _ 0
  pass : Vector UInt8 (wifiPassMaxLen + 1) := Vector.replicate _ 0
  deriving DecidableEq

/-- The local copy that `biz_apply_wifi_credentials` sends. -/
def credCopy (cred : WifiCredentials) : WifiCredentials :=
  let copy : WifiCredentials := {}
  let copy := { copy with
    ssid := strncpy copy.ssid (cstr cred.ssid) wifiSsidMaxLen
    ssidLen := cred.ssidLen }
  if cred.passLen ≠ 0 then
    { copy with
      pass := strncpy copy.pass (cstr cred.pass) wifiPassMaxLen
      passLen := cred.passLen }
  else { copy with passLen := 0, pass := memcpy copy.pass 0 [0] }

/-! ### The credential queue -/

/-- Capacity of `wifi_cred_queue`. -/
abbrev wifiCredQueueLen : ℕ := 2

/-- The history of `wifi_cred_queue`: the elements it accepted and how many of them were
taken. -/
structure CredQueue where
  sent : List WifiCredentials
  taken : ℕ
  taken_le : taken ≤ sent.length
  length_le : sent.length ≤ taken + wifiCredQueueLen
  deriving DecidableEq

/-- The elements that wait in the queue. -/
def CredQueue.pending (q : CredQueue) : List WifiCredentials :=
  q.sent.drop q.taken

/-- The queue as `xQueueCreate` makes it. -/
def CredQueue.empty : CredQueue :=
  ⟨[], 0, by simp, by simp⟩

/-- `xQueueReceive` by the Wi-Fi task; `none` when the task has to wait. -/
def CredQueue.receive (q : CredQueue) : Option (WifiCredentials × CredQueue) :=
  if h : q.taken < q.sent.length then
    some (q.sent[q.taken], ⟨q.sent, q.taken + 1, h, by have := q.length_le; omega⟩)
  else none

/-- `xQueueSend` with a timeout of 50 ms; `freed` tells whether the Wi-Fi task takes an
element while the send waits on a full queue. -/
def CredQueue.send (q : CredQueue) (cred : WifiCredentials) (freed : Bool) : CredQueue :=
  if h : q.sent.length < q.taken + wifiCredQueueLen then
    ⟨q.sent ++ [cred], q.taken, by have := q.taken_le; simp; omega, by simp; omega⟩
  else if freed then
    ⟨q.sent ++ [cred], q.taken + 1, by simp; omega,
      by have := q.length_le; simp only [List.length_append, List.length_singleton]; omega⟩
  else q

/-! ### Control and status variables -/

/-- The variables `g_ctrl_*` and `g_stat_*`. -/
structure Controls where
  ctrlRpm : UInt32 := 0
  ctrlAngle : UInt32 := 0
  ctrlLight : UInt8 := 0
  ctrlPower : UInt8 := 0
  statRpm : UInt32 := 0
  statAngle : UInt32 := 0
  statLight : UInt8 := 0
  statPower : UInt8 := 0
  deriving DecidableEq

/-- `biz_set_rpm`. -/
def bizSetRpm (s : Controls) (rpm : ℤ) : Controls :=
  if rpm < 0 then s
  else { s with ctrlRpm := UInt32.ofInt rpm, statRpm := UInt32.ofInt rpm }

/-- `biz_set_angle`. -/
def bizSetAngle (s : Controls) (angle : ℤ) : Controls :=
  if angle < 0 then s
  else { s with ctrlAngle := UInt32.ofInt angle, statAngle := UInt32.ofInt angle }

/-- `biz_set_light`. -/
def bizSetLight (s : Controls) (light : ℤ) : Controls :=
  if light < 0 then s
  else { s with ctrlLight := UInt8.ofInt light, statLight := UInt8.ofInt light }

/-- `biz_set_power`. -/
def bizSetPower (s : Controls) (power : ℤ) : Controls :=
  if power < 0 then s
  else { s with ctrlPower := UInt8.ofInt power, statPower := UInt8.ofInt power }

/-- The four controls. -/
inductive Control
  | rpm | angle | light | power
  deriving DecidableEq

/-- The four controls, in the order in which the code goes through them. -/
def Control.all : List Control :=
  [.rpm, .angle, .light, .power]

/-- There are no other controls. -/
theorem Control.mem_all (c : Control) : c ∈ Control.all := by
  cases c <;> decide

/-- The setter of a control. -/
def bizSet (s : Controls) : Control → ℤ → Controls
  | .rpm => bizSetRpm s
  | .angle => bizSetAngle s
  | .light => bizSetLight s
  | .power => bizSetPower s

/-! ### The state of the module -/

/-- An entry of `g_auth_table`. -/
structure AuthState where
  connHandle : UInt16 := 0
  authenticated : Bool := false
  deriving DecidableEq

/-- `BLE_HS_CONN_HANDLE_NONE`. -/
def bleHsConnHandleNone : UInt16 := 0xFFFF

/-- `MAX_BLE_CONNECTIONS`. -/
abbrev maxBleConnections : ℕ := 4

/-- `biz_clear_auth`. -/
def bizClearAuth (t : Vector AuthState maxBleConnections) (connHandle : UInt16) :
    Vector AuthState maxBleConnections :=
  t.map fun e =>
    if e.connHandle = connHandle then
      { connHandle := bleHsConnHandleNone, authenticated := false }
    else e

/-- The state of the module; a queue `none` is a null `wifi_cred_queue`. -/
structure BizState where
  controls : Controls := {}
  wifiCredQueue : Option CredQueue := none
  authTable : Vector AuthState maxBleConnections := Vector.replicate _ {}
  deriving DecidableEq

/-- `biz_apply_wifi_credentials`. -/
def bizApplyWifiCredentials (s : BizState) (cred : WifiCredentials) (freed : Bool) :
    BizState :=
  match s.wifiCredQueue with
  | none => s
  | some q => { s with wifiCredQueue := some (q.send (credCopy cred) freed) }

/-- The state after the Wi-Fi task took a credential from the queue, if there is one. -/
def dequeue (s : BizState) : BizState :=
  match s.wifiCredQueue.bind CredQueue.receive with
  | none => s
  | some r => { s with wifiCredQueue := some r.2 }

/-- A call into the module that a packet can cause. -/
inductive BizCall
  | set (c : Control) (v : ℤ)
  | applyWifiCredentials (cred : WifiCredentials)
  deriving DecidableEq

/-- The effect of a call. -/
def bizCall (freed : Bool) (s : BizState) : BizCall → BizState
  | .set c v => { s with controls := bizSet s.controls c v }
  | .applyWifiCredentials cred => bizApplyWifiCredentials s cred freed

/-- The effect of the calls of one packet, in order. -/
def bizCalls (freed : Bool) (s : BizState) (calls : List BizCall) : BizState :=
  calls.foldl (bizCall freed) s

/-! ### Facts about credentials -/

/-- The credential with the given strings, its lengths set to theirs. -/
def mkCred (ssid pass : Bytes) : WifiCredentials :=
  { ssidLen := UInt8.ofNat ssid.length
    passLen := UInt8.ofNat pass.length
    ssid := strncpy (Vector.replicate _ 0) ssid wifiSsidMaxLen
    pass := strncpy (Vector.replicate _ 0) pass wifiPassMaxLen }

/-- The SSID that a credential holds. -/
def WifiCredentials.ssidStr (cred : WifiCredentials) : Bytes :=
  cstr cred.ssid

/-- The password that a credential holds. -/
def WifiCredentials.passStr (cred : WifiCredentials) : Bytes :=
  cstr cred.pass

/-- A C string has no NUL. -/
theorem zero_notMem_cstr {n : ℕ} (v : Vector UInt8 n) : 0 ∉ cstr v := by
  intro h
  simpa using List.mem_takeWhile_imp h

/-- The bounded copy of a string that fits. -/
theorem cstr_strncpy_of_le {n : ℕ} {src : Bytes} (h0 : 0 ∉ src) (hlen : src.length ≤ n) :
    cstr (strncpy (Vector.replicate (n + 1) 0) src n) = src :=
  (cstr_strncpy (n := n + 1) h0 (Nat.succ_pos n)).trans (List.take_of_length_le hlen)

/-- The SSID of a credential is the one it is made from, as far as it fits. -/
theorem ssidStr_mkCred {ssid : Bytes} (h : 0 ∉ ssid) (pass : Bytes) :
    (mkCred ssid pass).ssidStr = ssid.take wifiSsidMaxLen :=
  cstr_strncpy h (by decide)

/-- **The copy holds the SSID it was made from**, cut to the field. -/
theorem ssid_credCopy (cred : WifiCredentials) :
    (credCopy cred).ssidStr = cred.ssidStr.take wifiSsidMaxLen := by
  have h := cstr_strncpy (n := wifiSsidMaxLen + 1) (zero_notMem_cstr cred.ssid) (by decide)
  dsimp only [credCopy]
  split_ifs <;> exact h

/-- A credential made from strings that fit is copied unchanged. -/
theorem credCopy_mkCred {ssid pass : Bytes} (hs : 0 ∉ ssid) (hp : 0 ∉ pass)
    (hslen : ssid.length ≤ wifiSsidMaxLen) (hplen : pass.length ≤ wifiPassMaxLen) :
    credCopy (mkCred ssid pass) = mkCred ssid pass := by
  have hssid : cstr (mkCred ssid pass).ssid = ssid := cstr_strncpy_of_le hs hslen
  have hpass : cstr (mkCred ssid pass).pass = pass := cstr_strncpy_of_le hp hplen
  dsimp only [credCopy]
  rw [hssid, hpass]
  split_ifs with hlen
  · rfl
  · have hnil : pass = [] := by
      have h0 : (UInt8.ofNat pass.length).toNat = (0 : UInt8).toNat :=
        congrArg UInt8.toNat (not_not.mp hlen)
      rw [UInt8.toNat_ofNat', Nat.mod_eq_of_lt (lt_of_le_of_lt hplen (by decide))] at h0
      exact List.length_eq_zero_iff.mp h0
    subst hnil
    rfl

/-- A credential made from the strings in two buffers. -/
theorem mkCred_take_eq {ssid pass : Bytes} (hs : 0 ∉ ssid) (hp : 0 ∉ pass) :
    mkCred (ssid.take wifiSsidMaxLen) (pass.take wifiPassMaxLen) =
      { ssidLen := UInt8.ofNat
          (cstr (strncpy (Vector.replicate (wifiSsidMaxLen + 1) 0) ssid wifiSsidMaxLen)).length
        passLen := UInt8.ofNat
          (cstr (strncpy (Vector.replicate (wifiPassMaxLen + 1) 0) pass wifiPassMaxLen)).length
        ssid := strncpy (Vector.replicate _ 0) ssid wifiSsidMaxLen
        pass := strncpy (Vector.replicate _ 0) pass wifiPassMaxLen } := by
  have hslen := cstr_strncpy (n := wifiSsidMaxLen + 1) hs (by decide)
  have hplen := cstr_strncpy (n := wifiPassMaxLen + 1) hp (by decide)
  rw [Nat.add_sub_cancel] at hslen hplen
  rw [mkCred, strncpy_take, strncpy_take, hslen, hplen]

/-- A credential made from strings that fit their fields. -/
def WifiCredentials.Fitting (cred : WifiCredentials) : Prop :=
  ∃ ssid pass : Bytes, (0 ∉ ssid ∧ 0 ∉ pass) ∧
    (ssid.length ≤ wifiSsidMaxLen ∧ pass.length ≤ wifiPassMaxLen) ∧ cred = mkCred ssid pass

/-- A credential that is made from strings that were cut fits. -/
theorem fitting_mkCred {ssid pass : Bytes} (hs : 0 ∉ ssid) (hp : 0 ∉ pass) :
    (mkCred (ssid.take wifiSsidMaxLen) (pass.take wifiPassMaxLen)).Fitting :=
  ⟨_, _, ⟨fun h => hs (List.mem_of_mem_take h), fun h => hp (List.mem_of_mem_take h)⟩,
    ⟨List.length_take_le _ _, List.length_take_le _ _⟩, rfl⟩

/-- A credential that fits is queued as it is. -/
theorem WifiCredentials.Fitting.credCopy_eq {cred : WifiCredentials} (h : cred.Fitting) :
    credCopy cred = cred := by
  obtain ⟨ssid, pass, ⟨hs, hp⟩, ⟨hslen, hplen⟩, rfl⟩ := h
  exact credCopy_mkCred hs hp hslen hplen

/-! ### The queue -/

/-- Taking an element does not change the history. -/
theorem CredQueue.sent_receive {q : CredQueue} {r : WifiCredentials × CredQueue}
    (h : q.receive = some r) : r.2.sent = q.sent := by
  rw [CredQueue.receive] at h
  split_ifs at h
  rw [← Option.some.inj h]

/-! ### Setters -/

/-- **Setters of different controls commute.** -/
theorem bizSet_comm (s : Controls) {c d : Control} (h : c ≠ d) (v w : ℤ) :
    bizSet (bizSet s c v) d w = bizSet (bizSet s d w) c v := by
  cases c <;> cases d <;> first
    | exact absurd rfl h
    | (dsimp only [bizSet, bizSetRpm, bizSetAngle, bizSetLight, bizSetPower]
       split_ifs <;> rfl)

end AirShifter
