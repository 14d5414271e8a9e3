import AirShifter.BizLogix

/-!
# The Wi-Fi Task

The credential part of `wifi_manager.c`: the task takes credentials from the queue, checks
their lengths, stores them in the non-volatile storage, and starts the station with them.
After a restart the stored credentials are loaded again.

The storage itself is part of the platform. It is a parameter with the two properties the
task relies on: a key returns the string last set under it, and setting one key leaves the
other alone. The return codes of the platform calls are inputs.

## Main results

* `load_after_store`: what was stored under both keys is loaded.
* `load_after_step`: a valid credential that the task stored is loaded.
* `station_holds_all_iff`: when the station is configured with the whole credential.
-/

open CBytes

namespace AirShifter

/-! ### The platform -/

/-- `esp_err_t`. -/
abbrev EspErr := ℤ

/-- `ESP_OK`. -/
abbrev espOk : EspErr := 0

/-- The keys `NVS_KEY_SSID` and `NVS_KEY_PASS` of the namespace `NVS_NAMESPACE`. -/
inductive NvsKey
  | ssid | pass
  deriving DecidableEq

/-- The non-volatile storage: `setStr` is the effect of an `nvs_set_str` that succeeds,
`getStr` what `nvs_get_str` returns, with room for `n` bytes, and the string it writes if
it succeeds. -/
structure Nvs (σ : Type*) where
  setStr : σ → NvsKey → Bytes → σ
  getStr : σ → NvsKey → ℕ → EspErr × Bytes
  getStr_setStr_self : ∀ st k {s n}, s.length < n → getStr (setStr st k s) k n = (espOk, s)
  getStr_setStr_of_ne : ∀ st {k k'} s n, k' ≠ k → getStr (setStr st k s) k' n = getStr st k' n

/-- The return codes of the calls in `store_credentials_nvs`. -/
structure StoreCodes where
  nvsOpen : EspErr := espOk
  setSsid : EspErr := espOk
  setPass : EspErr := espOk
  commit : EspErr := espOk

/-- The return codes of the calls in `wifi_start_with_creds`. -/
structure StartCodes where
  setMode : EspErr := espOk
  setConfig : EspErr := espOk
  start : EspErr := espOk
  connect : EspErr := espOk

/-- The fields of `wifi_config_t` that are set, initialised by `{0}`. -/
structure WifiConfig where
  ssid : Vector UInt8 32 := Vector.replicate _ 0
  password : Vector UInt8 64 := Vector.replicate _ 0
  deriving DecidableEq

/-! ### The functions -/

variable {σ : Type*} (nvs : Nvs σ)

/-- `store_credentials_nvs`: the code it returns and the storage it leaves. -/
def storeCredentialsNvs (st : σ) (rc : StoreCodes) (ssid pass : Bytes) : EspErr × σ :=
  if rc.nvsOpen ≠ espOk then (rc.nvsOpen, st)
  else if rc.setSsid ≠ espOk then (rc.setSsid, st)
  else
    let st := nvs.setStr st .ssid ssid
    if rc.setPass ≠ espOk then (rc.setPass, st)
    else
      let st := nvs.setStr st .pass pass
      if rc.commit ≠ espOk then (rc.commit, st)
      else (espOk, st)

/-- `load_credentials_nvs`: the code it returns and what it leaves in `out`. -/
def loadCredentialsNvs (st : σ) (nvsOpen : EspErr) (out : WifiCredentials) :
    EspErr × WifiCredentials :=
  if nvsOpen ≠ espOk then (nvsOpen, out)
  else
    let ssid := nvs.getStr st .ssid (wifiSsidMaxLen + 1)
    if ssid.1 ≠ espOk then (ssid.1, out)
    else
      let out := { out with ssid := memcpy out.ssid 0 (ssid.2 ++ [0]) }
      let pass := nvs.getStr st .pass (wifiPassMaxLen + 1)
      if pass.1 ≠ espOk then (pass.1, out)
      else
        let out := { out with pass := memcpy out.pass 0 (pass.2 ++ [0]) }
        (espOk, { out with
          ssidLen := UInt8.ofNat (cstr out.ssid).length
          passLen := UInt8.ofNat (cstr out.pass).length })

/-- `wifi_start_with_creds`: the code it returns and the configuration it hands to
`esp_wifi_set_config`, if it gets there. -/
def wifiStartWithCreds (rc : StartCodes) (cred : WifiCredentials) :
    EspErr × Option WifiConfig :=
  let config : WifiConfig := {}
  let config := { config with
    ssid := strncpy config.ssid (cstr cred.ssid) 31
    password := strncpy config.password (cstr cred.pass) 63 }
  if rc.setMode ≠ espOk then (rc.setMode, none)
  else if rc.setConfig ≠ espOk then (rc.setConfig, some config)
  else if rc.start ≠ espOk then (rc.start, some config)
  else if rc.connect ≠ espOk then (rc.connect, some config)
  else (espOk, some config)

/-- The length check of `wifi_manager_task`. -/
def lengthsValid (cred : WifiCredentials) : Bool :=
  !(cred.ssidLen == 0 || decide (cred.ssidLen.toNat > wifiSsidMaxLen) ||
    decide (cred.passLen.toNat > wifiPassMaxLen))

/-- One round of the receive loop of `wifi_manager_task`, for the credential it received:
the storage it leaves and the configuration it hands on. -/
def wifiManagerStep (st : σ) (store : StoreCodes) (start : StartCodes)
    (cred : WifiCredentials) : σ × Option WifiConfig :=
  if !lengthsValid cred then (st, none)
  else
    let stored := storeCredentialsNvs nvs st store (cstr cred.ssid) (cstr cred.pass)
    if stored.1 ≠ espOk then (stored.2, none)
    else (stored.2, (wifiStartWithCreds start cred).2)

/-! ### Storing and loading -/

/-- A credential holds the strings `ssid` and `pass`, with their lengths. -/
structure WifiCredentials.Holds (cred : WifiCredentials) (ssid pass : Bytes) : Prop where
  ssidStr_eq : cred.ssidStr = ssid
  passStr_eq : cred.passStr = pass
  ssidLen_eq : cred.ssidLen.toNat = ssid.length
  passLen_eq : cred.passLen.toNat = pass.length

variable {ssid pass : Bytes}

/-- A length that fits a byte is kept by it. -/
theorem toNat_ofNat_length {s : Bytes} {n : ℕ} (h : s.length ≤ n) (hn : n < 256) :
    (UInt8.ofNat s.length).toNat = s.length := by
  rw [UInt8.toNat_ofNat', Nat.mod_eq_of_lt (lt_of_le_of_lt h hn)]

/-- A credential made from strings that fit holds them. -/
theorem holds_mkCred (hs : 0 ∉ ssid) (hp : 0 ∉ pass) (hslen : ssid.length ≤ wifiSsidMaxLen)
    (hplen : pass.length ≤ wifiPassMaxLen) : (mkCred ssid pass).Holds ssid pass where
  ssidStr_eq := cstr_strncpy_of_le hs hslen
  passStr_eq := cstr_strncpy_of_le hp hplen
  ssidLen_eq := toNat_ofNat_length hslen (by decide)
  passLen_eq := toNat_ofNat_length hplen (by decide)

/-- The length check accepts the lengths from 1 to 32 and from 0 to 64. -/
theorem lengthsValid_iff (cred : WifiCredentials) :
    lengthsValid cred = true ↔ cred.ssidLen.toNat ≠ 0 ∧
      cred.ssidLen.toNat ≤ wifiSsidMaxLen ∧ cred.passLen.toNat ≤ wifiPassMaxLen := by
  have hzero : cred.ssidLen = 0 ↔ cred.ssidLen.toNat = 0 := by
    rw [← UInt8.toNat_inj]
    rfl
  simp only [lengthsValid, Bool.not_eq_true', Bool.or_eq_false_iff, beq_eq_false_iff_ne,
    decide_eq_false_iff_not, not_lt, ne_eq, hzero, and_assoc]

/-- A credential passes the length check if it holds a non-empty SSID and both strings
fit. -/
theorem WifiCredentials.Holds.lengthsValid {cred : WifiCredentials} (h : cred.Holds ssid pass)
    (hne : ssid ≠ []) (hslen : ssid.length ≤ wifiSsidMaxLen)
    (hplen : pass.length ≤ wifiPassMaxLen) : lengthsValid cred = true := by
  rw [lengthsValid_iff, h.ssidLen_eq, h.passLen_eq]
  exact ⟨fun h0 => hne (List.length_eq_zero_iff.mp h0), hslen, hplen⟩

/-- A credential that the length check is meant for: both arrays hold a string, and the
length bytes are the lengths of these strings, within the limits. -/
structure WifiCredentials.Consistent (cred : WifiCredentials) : Prop where
  ssid_terminated : 0 ∈ cred.ssid.toList
  pass_terminated : 0 ∈ cred.pass.toList
  ssidLen_eq : cred.ssidLen.toNat = cred.ssidStr.length
  passLen_eq : cred.passLen.toNat = cred.passStr.length
  ssidLen_le : cred.ssidLen.toNat ≤ wifiSsidMaxLen
  passLen_le : cred.passLen.toNat ≤ wifiPassMaxLen

/-- A credential that holds strings that fit is consistent. -/
theorem WifiCredentials.Holds.consistent {cred : WifiCredentials} (h : cred.Holds ssid pass)
    (hslen : ssid.length ≤ wifiSsidMaxLen) (hplen : pass.length ≤ wifiPassMaxLen) :
    cred.Consistent := by
  obtain ⟨rfl, rfl, hs, hp⟩ := h
  exact ⟨zero_mem_of_length_cstr_lt (Nat.lt_succ_of_le hslen),
    zero_mem_of_length_cstr_lt (Nat.lt_succ_of_le hplen), hs, hp, hs ▸ hslen, hp ▸ hplen⟩

/-- A consistent credential holds its strings. -/
theorem WifiCredentials.Consistent.holds {cred : WifiCredentials} (h : cred.Consistent) :
    cred.Holds cred.ssidStr cred.passStr :=
  ⟨rfl, rfl, h.ssidLen_eq, h.passLen_eq⟩

/-- The storage that `store_credentials_nvs` leaves: it sets the SSID, then the password,
and takes nothing back. -/
theorem storeCredentialsNvs_snd (st : σ) (rc : StoreCodes) (ssid pass : Bytes) :
    (storeCredentialsNvs nvs st rc ssid pass).2 =
      if rc.nvsOpen = espOk ∧ rc.setSsid = espOk then
        if rc.setPass = espOk then nvs.setStr (nvs.setStr st .ssid ssid) .pass pass
        else nvs.setStr st .ssid ssid
      else st := by
  rw [storeCredentialsNvs]
  by_cases hopen : rc.nvsOpen = espOk <;> by_cases hset : rc.setSsid = espOk <;>
    by_cases hpass : rc.setPass = espOk <;> by_cases hcommit : rc.commit = espOk <;>
    simp [hopen, hset, hpass, hcommit]

/-- The storage that a round of the task leaves. -/
theorem wifiManagerStep_fst (st : σ) (store : StoreCodes) (start : StartCodes)
    (cred : WifiCredentials) :
    (wifiManagerStep nvs st store start cred).1 =
      if lengthsValid cred = true then
        (storeCredentialsNvs nvs st store cred.ssidStr cred.passStr).2
      else st := by
  rw [wifiManagerStep]
  cases lengthsValid cred with
  | false => rfl
  | true =>
      dsimp only
      rw [Bool.not_true, if_neg Bool.false_ne_true, if_pos rfl]
      split_ifs <;> rfl

/-- What loading two strings leaves in `out`. -/
def loadedCred (out : WifiCredentials) (ssid pass : Bytes) : WifiCredentials where
  ssidLen := UInt8.ofNat ssid.length
  passLen := UInt8.ofNat pass.length
  ssid := memcpy out.ssid 0 (ssid ++ [0])
  pass := memcpy out.pass 0 (pass ++ [0])

/-- A credential that is loaded holds both strings. -/
theorem holds_loadedCred (hs : 0 ∉ ssid) (hp : 0 ∉ pass) (hslen : ssid.length ≤ wifiSsidMaxLen)
    (hplen : pass.length ≤ wifiPassMaxLen) (out : WifiCredentials) :
    (loadedCred out ssid pass).Holds ssid pass where
  ssidStr_eq := cstr_memcpy_nul hs (by omega) _
  passStr_eq := cstr_memcpy_nul hp (by omega) _
  ssidLen_eq := toNat_ofNat_length hslen (by decide)
  passLen_eq := toNat_ofNat_length hplen (by decide)

/-- Two stored strings that fit are loaded. -/
theorem load_of_getStr {st : σ} (hssid : nvs.getStr st .ssid (wifiSsidMaxLen + 1) = (espOk, ssid))
    (hpass : nvs.getStr st .pass (wifiPassMaxLen + 1) = (espOk, pass))
    (hs : 0 ∉ ssid) (hp : 0 ∉ pass) (hslen : ssid.length ≤ wifiSsidMaxLen)
    (hplen : pass.length ≤ wifiPassMaxLen) (out : WifiCredentials) :
    loadCredentialsNvs nvs st espOk out = (espOk, loadedCred out ssid pass) := by
  have hcred := holds_loadedCred hs hp hslen hplen out
  have hsstr : cstr (memcpy out.ssid 0 (ssid ++ [0])) = ssid := hcred.ssidStr_eq
  have hpstr : cstr (memcpy out.pass 0 (pass ++ [0])) = pass := hcred.passStr_eq
  simp only [loadCredentialsNvs, hssid, hpass, hsstr, hpstr, ne_eq, not_true_eq_false, if_false,
    loadedCred]

/-- **What was stored under both keys is loaded.** -/
theorem load_after_store (hs : 0 ∉ ssid) (hp : 0 ∉ pass) (hslen : ssid.length ≤ wifiSsidMaxLen)
    (hplen : pass.length ≤ wifiPassMaxLen) (st : σ) (out : WifiCredentials) :
    ∃ cred, loadCredentialsNvs nvs (nvs.setStr (nvs.setStr st .ssid ssid) .pass pass) espOk out =
      (espOk, cred) ∧ cred.Holds ssid pass := by
  have hssid : nvs.getStr (nvs.setStr (nvs.setStr st .ssid ssid) .pass pass) .ssid
      (wifiSsidMaxLen + 1) = (espOk, ssid) := by
    rw [nvs.getStr_setStr_of_ne _ _ _ (by simp), nvs.getStr_setStr_self _ _ (by omega)]
  have hpass : nvs.getStr (nvs.setStr (nvs.setStr st .ssid ssid) .pass pass) .pass
      (wifiPassMaxLen + 1) = (espOk, pass) :=
    nvs.getStr_setStr_self _ _ (by omega)
  exact ⟨_, load_of_getStr nvs hssid hpass hs hp hslen hplen out,
    holds_loadedCred hs hp hslen hplen out⟩

/-- **A credential that the task stored is loaded**, whatever becomes of the station. -/
theorem load_after_step {cred : WifiCredentials} (h : cred.Holds ssid pass) (hne : ssid ≠ [])
    (hslen : ssid.length ≤ wifiSsidMaxLen) (hplen : pass.length ≤ wifiPassMaxLen) (st : σ)
    (start : StartCodes) (out : WifiCredentials) :
    ∃ loaded, loadCredentialsNvs nvs (wifiManagerStep nvs st {} start cred).1 espOk out =
      (espOk, loaded) ∧ loaded.Holds ssid pass := by
  have hs0 : 0 ∉ ssid := h.ssidStr_eq ▸ zero_notMem_cstr cred.ssid
  have hp0 : 0 ∉ pass := h.passStr_eq ▸ zero_notMem_cstr cred.pass
  have hstep : (wifiManagerStep nvs st {} start cred).1 =
      nvs.setStr (nvs.setStr st .ssid ssid) .pass pass := by
    rw [wifiManagerStep_fst, if_pos (h.lengthsValid hne hslen hplen), h.ssidStr_eq, h.passStr_eq,
      storeCredentialsNvs_snd]
    rfl
  rw [hstep]
  exact load_after_store nvs hs0 hp0 hslen hplen st out

/-! ### Configuring the station -/

/-- The configuration holds all of both strings, and zeros behind them. -/
def WifiConfig.HoldsAll (config : WifiConfig) (ssid pass : Bytes) : Prop :=
  config.ssid.toList = ssid ++ List.replicate (32 - ssid.length) 0 ∧
    config.password.toList = pass ++ List.replicate (64 - pass.length) 0

instance (config : WifiConfig) (ssid pass : Bytes) : Decidable (config.HoldsAll ssid pass) :=
  inferInstanceAs (Decidable (_ ∧ _))

/-- The configuration that is handed on, if the station mode could be set. -/
theorem wifiStartWithCreds_snd (rc : StartCodes) (cred : WifiCredentials) :
    (wifiStartWithCreds rc cred).2 =
      if rc.setMode ≠ espOk then none
      else some { ssid := strncpy (Vector.replicate _ 0) cred.ssidStr 31
                  password := strncpy (Vector.replicate _ 0) cred.passStr 63 } := by
  rw [wifiStartWithCreds]
  dsimp only
  split_ifs <;> rfl

/-- **The station is configured with the whole credential** exactly when the SSID leaves
the last byte of its field free, and the password the last byte of its own. -/
theorem station_holds_all_iff (rc : StartCodes) {cred : WifiCredentials}
    (hvalid : lengthsValid cred = true)
    (hssid : cred.ssidLen.toNat = cred.ssidStr.length)
    (hpass : cred.passLen.toNat = cred.passStr.length) :
    (∀ config ∈ (wifiStartWithCreds rc cred).2, config.HoldsAll cred.ssidStr cred.passStr) ↔
      rc.setMode ≠ espOk ∨ cred.ssidLen.toNat ≤ 31 ∧ cred.passLen.toNat ≤ 63 := by
  obtain ⟨-, hslen, hplen⟩ := (lengthsValid_iff cred).mp hvalid
  have hs := toList_strncpy_eq_iff (n := 31) (zero_notMem_cstr cred.ssid) (hssid ▸ hslen)
  have hp := toList_strncpy_eq_iff (n := 63) (zero_notMem_cstr cred.pass) (hpass ▸ hplen)
  rw [wifiStartWithCreds_snd, hssid, hpass]
  by_cases hmode : rc.setMode = espOk
  · rw [if_neg (not_not.mpr hmode)]
    simp only [Option.mem_some_iff, forall_eq', hmode, ne_eq, not_true_eq_false, false_or]
    exact and_congr hs hp
  · simp [hmode]

/-- A short SSID with a short password. -/
theorem station_holds_all_short :
    ∃ config, (wifiStartWithCreds {} (mkCred (ascii "net") (ascii "key"))).2 = some config ∧
      config.HoldsAll (ascii "net") (ascii "key") := by
  have hvalid : lengthsValid (mkCred (ascii "net") (ascii "key")) = true := by decide
  have hall := (station_holds_all_iff {} hvalid (by decide) (by decide)).mpr (Or.inr (by decide))
  exact ⟨_, rfl, hall _ rfl⟩

/-- The credential with an SSID of 32 bytes and no password. -/
def longCred : WifiCredentials :=
  mkCred (List.replicate 32 97) []

/-- **The last byte of a long SSID is dropped** on the way to the driver. -/
theorem station_drops_last_byte :
    lengthsValid longCred = true ∧ longCred.ssidLen.toNat = longCred.ssidStr.length ∧
      longCred.passLen.toNat = longCred.passStr.length ∧
      ∃ config, (wifiStartWithCreds {} longCred).2 = some config ∧
        config.ssid.toList = List.replicate 31 97 ++ [0] ∧
        ¬ config.HoldsAll longCred.ssidStr longCred.passStr :=
  ⟨by decide, by decide, by decide, _, rfl, by decide, by decide⟩

end AirShifter
