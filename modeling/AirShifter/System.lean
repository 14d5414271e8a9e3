import AirShifter.Challenge
import AirShifter.CredentialQueue
import AirShifter.PacketText
import AirShifter.StoredCredentials

/-!
# The Device Over Its Boots

The GATT server, the Wi-Fi task, the storage and the station as one system, over any number
of boots. Clients write packets; the task takes a credential from the queue, stores it and
configures the station; the power goes off at any point, also in the middle of a store; and
on the next boot `app_main` initialises the storage, possibly by erasing it, and the task
configures the station with what it loads.

Three questions join the parts. Where does a network come from that the device stores or
joins? Is the station still configured with what is stored? And does a loss of power show?

## Main results

* `networks_were_provisioned`: every stored string, and every network the station is
  configured with, stands in a packet that an authenticated connection wrote.
* `station_survives_power_loss`: along the runs in which no store stops half way and every
  station call succeeds, a loss of power and a boot leave the station as it was.
-/

open CBytes Runs

namespace AirShifter

/-! ### The system -/

/-- `ESP_ERR_NVS_NO_FREE_PAGES`. -/
def espErrNvsNoFreePages : EspErr := 0x110d

/-- `ESP_ERR_NVS_NEW_VERSION_FOUND`. -/
def espErrNvsNewVersionFound : EspErr := 0x1110

/-- The return codes at start-up: of the first `nvs_flash_init`, of `nvs_flash_erase` and
the second `nvs_flash_init` if they are called, of `nvs_open` when the credentials are
loaded, and of the station calls. -/
structure BootCodes where
  flashInit : EspErr := espOk
  flashErase : EspErr := espOk
  flashAgain : EspErr := espOk
  nvsOpen : EspErr := espOk
  start : StartCodes := {}

/-- The storage with nothing in it. -/
def Flash.erased : Flash :=
  fun _ _ => none

/-- The first lines of `app_main`: the storage they leave, and whether they get past every
`ESP_ERROR_CHECK`. An erase that fails leaves the storage alone. -/
def initStorage (f : Flash) (codes : BootCodes) : Flash × Bool :=
  if codes.flashInit = espErrNvsNoFreePages ∨ codes.flashInit = espErrNvsNewVersionFound then
    if codes.flashErase ≠ espOk then (f, false)
    else (Flash.erased, decide (codes.flashAgain = espOk))
  else (f, decide (codes.flashInit = espOk))

/-- The system: whether it is up, the device, how many of the credentials taken from the
queue the Wi-Fi task has handled, the storage, and the configuration that
`esp_wifi_set_config` accepted last since the boot. -/
structure System where
  up : Bool
  device : Device
  handled : ℕ
  flash : Flash
  station : Option WifiConfig

/-- The system without power. -/
def System.off (f : Flash) : System where
  up := false
  device := bootDevice
  handled := 0
  flash := f
  station := none

/-- The credential that the Wi-Fi task has taken and not handled yet. -/
def System.next (s : System) : Option WifiCredentials :=
  s.device.biz.wifiCredQueue.bind fun q => q.received[s.handled]?

/-- The station after it was handed a configuration, or none. -/
def setStation (station : Option WifiConfig) (start : StartCodes) (handed : Option WifiConfig) :
    Option WifiConfig :=
  if start.setConfig = espOk then handed.or station else station

/-- The storage after the task has handled a credential. -/
def storeMessage (f : Flash) (store : StoreCodes) (start : StartCodes) (cred : WifiCredentials) :
    Flash :=
  let st := (wifiManagerStep flashNvs f store start cred).1
  if lengthsValid cred = true ∧
      (storeCredentialsNvs flashNvs f store cred.ssidStr cred.passStr).1 = espOk then
    st.commit
  else st

/-- The boot: `app_main`, and the Wi-Fi task up to its loop. The `cred` that the task loads
into is not initialised, and not read unless the load succeeds. -/
def System.boot (s : System) (codes : BootCodes) : System :=
  let init := initStorage s.flash codes
  if init.2 then
    let load := loadCredentialsNvs flashNvs init.1 codes.nvsOpen {}
    { up := true
      device := bootDevice
      handled := 0
      flash := init.1
      station :=
        if load.1 = espOk then
          setStation none codes.start (wifiStartWithCreds codes.start load.2).2
        else none }
  else .off init.1

/-- What happens to the system: an event of the device; the Wi-Fi task handles the
credential it has taken; the power goes off while the task stores it, before the given call;
the power goes off while nothing is stored; the device boots. -/
inductive SystemEvent
  | device (e : DeviceEvent)
  | handle (store : StoreCodes) (start : StartCodes)
  | cut (call : StoreCall) (lost : NvsKey → ℕ)
  | powerOff (lost : NvsKey → ℕ)
  | boot (codes : BootCodes)

variable (H : CharHandles) (hmac : Bytes → Bytes → Vector UInt8 hmacSha256Len)

/-- The effect of an event. Without power there is only the boot. -/
def systemStep (s : System) : SystemEvent → System
  | .device e => if s.up then { s with device := (deviceStep H hmac s.device e).1 } else s
  | .handle store start =>
    match if s.up then s.next else none with
    | none => s
    | some cred =>
      { s with
        handled := s.handled + 1
        flash := storeMessage s.flash store start cred
        station := setStation s.station start
          (wifiManagerStep flashNvs s.flash store start cred).2 }
  | .cut call lost =>
    match if s.up then s.next else none with
    | none => s
    | some cred =>
      .off ((wifiManagerStep flashNvs s.flash call.stopped {} cred).1.powerLoss lost)
  | .powerOff lost => .off (s.flash.powerLoss lost)
  | .boot codes => if s.up then s else s.boot codes

/-- The system after a run, from a new device. -/
def systemAfter (es : List SystemEvent) : System :=
  es.foldl (systemStep H hmac) (.off .erased)

/-- The system after one event more. -/
theorem systemAfter_concat (es : List SystemEvent) (e : SystemEvent) :
    systemAfter H hmac (es ++ [e]) = systemStep H hmac (systemAfter H hmac es) e := by
  rw [systemAfter, List.foldl_append]
  rfl

/-! ### Where a network comes from -/

/-- The access is a write of the packet characteristic, by a connection that is
authenticated. -/
def PacketWrite (s : System) (a : Access) : Prop :=
  s.up = true ∧ a.op = .writeChr ∧ a.attrHandle = H.packetHandle ∧
    secIsConnAuthenticated s.device.sec s.device.now a.connHandle = true

/-- A client that was authenticated wrote a packet in which the credential stands. -/
def Provisioned (es : List SystemEvent) (cred : WifiCredentials) : Prop :=
  Occurs (fun pre e => ∃ a, e = .device (.access a) ∧ PacketWrite H (systemAfter H hmac pre) a ∧
    (BizCall.applyWifiCredentials cred).StandsIn a.payload) es

/-- The string of a credential that is stored under a key. -/
def WifiCredentials.str (cred : WifiCredentials) : NvsKey → Bytes
  | .ssid => cred.ssidStr
  | .pass => cred.passStr

/-- What `esp_wifi_set_config` is handed for two strings. -/
def stationConfig (ssid pass : Bytes) : WifiConfig where
  ssid := strncpy (Vector.replicate _ 0) ssid 31
  password := strncpy (Vector.replicate _ 0) pass 63

variable {H hmac}

/-- A credential stays provisioned. -/
theorem Provisioned.concat {es : List SystemEvent} {cred : WifiCredentials}
    (h : Provisioned H hmac es cred) (e : SystemEvent) : Provisioned H hmac (es ++ [e]) cred :=
  occurs_concat_iff.mpr (Or.inl h)

/-- A write of the packet characteristic hands the parser the packet it copied. -/
theorem biz_writeChr_packet {d : Device} {a : Access} (hattr : a.attrHandle ≠ H.authCharHandle)
    (hctrl : H.ctrlOf a.attrHandle = none) :
    (writeChr H hmac d a).1 = d ∨
      (a.attrHandle = H.packetHandle ∧
        secIsConnAuthenticated d.sec d.now a.connHandle = true ∧ ∃ got,
        gattSvrWriteFlat a 1 maxPkt = .ok got ∧
        (writeChr H hmac d a).1.biz = queueStep d.biz (.packet (packetText got) a.freed)) := by
  rw [writeChr, if_neg hattr, hctrl]
  dsimp only
  by_cases hpacket : a.attrHandle = H.packetHandle
  · rw [if_pos hpacket]
    cases hauth : secIsConnAuthenticated d.sec d.now a.connHandle with
    | false => exact Or.inl rfl
    | true =>
        rw [Bool.not_true, if_neg Bool.false_ne_true]
        cases hgot : gattSvrWriteFlat a 1 maxPkt with
        | error rc => exact Or.inl rfl
        | ok got =>
            exact Or.inr ⟨hpacket, rfl, got, rfl, by rw [queueStep, QueueEvent.biz, bizStep]⟩
  · rw [if_neg hpacket]
    exact Or.inl rfl

variable (H hmac) in
/-- **What an access does to the queue**: nothing, or an authenticated connection wrote a
packet. -/
theorem queue_gattSvcAccess (d : Device) (a : Access) :
    (gattSvcAccess H hmac d a).1.biz.wifiCredQueue = d.biz.wifiCredQueue ∨
      (a.op = .writeChr ∧ a.attrHandle = H.packetHandle ∧
        secIsConnAuthenticated d.sec d.now a.connHandle = true ∧ ∃ got,
        gattSvrWriteFlat a 1 maxPkt = .ok got ∧
        (gattSvcAccess H hmac d a).1.biz = queueStep d.biz (.packet (packetText got) a.freed)) := by
  rw [gattSvcAccess]
  cases hop : a.op with
  | readChr | readDsc | writeDsc | other => exact Or.inl rfl
  | writeChr =>
      dsimp only
      by_cases hattr : a.attrHandle = H.authCharHandle
      · rcases writeChr_auth H hmac d hattr with ⟨rc, -, hw⟩ | ⟨got, hw⟩ <;>
          exact Or.inl (by rw [hw])
      · cases hctrl : H.ctrlOf a.attrHandle with
        | some c =>
            rcases writeChr_ctrl H hmac d hattr hctrl with ⟨rc, -, hw⟩ | ⟨v, -, -, hw⟩
            · exact Or.inl (by rw [hw])
            · exact Or.inl (by rw [hw]; rfl)
        | none =>
            rcases biz_writeChr_packet hattr hctrl with hsame | ⟨hpacket, hauth, hgot⟩
            · exact Or.inl (by rw [hsame])
            · exact Or.inr ⟨rfl, hpacket, hauth, hgot⟩

/-- Bytes that were copied with a NUL behind them are read up to their first NUL. -/
theorem cstr_memcpy_nul {n : ℕ} (v : Vector UInt8 n) {data : Bytes} (h : data.length < n) :
    cstr (memcpy (memcpy v 0 data) data.length [0]) = data.takeWhile (· != 0) := by
  generalize hbuf : memcpy (memcpy v 0 data) data.length [0] = buf
  have hfront : ∀ i (hi : i < data.length), buf[i] = data[i] := by
    intro i hi
    rw [← hbuf, getElem_memcpy, if_neg (by omega), getElem_memcpy,
      if_pos ⟨Nat.zero_le i, by omega⟩, Nat.sub_zero, List.getD_eq_getElem _ _ hi]
  have hnul : buf[data.length] = 0 := by
    rw [← hbuf, getElem_memcpy, if_pos (by simp), Nat.sub_self]
    rfl
  have hpre : data.takeWhile (· != 0) <+: data := List.takeWhile_prefix _
  refine cstr_eq (fun hz => by simpa using List.mem_takeWhile_imp hz)
    (by have := hpre.length_le; omega) (fun i hi => ?_) ?_
  · rw [hfront i (lt_of_lt_of_le hi hpre.length_le), hpre.getElem]
  · rcases Nat.eq_or_lt_of_le hpre.length_le with hlen | hlen
    · simp only [hlen, hnul]
    · -- the string stops at a NUL of the packet itself
      rw [hfront _ hlen]
      have hparts := List.takeWhile_append_dropWhile (p := fun b : UInt8 => b != 0) (l := data)
      have hstop := List.head?_dropWhile_not (· != 0) data
      cases hrest : data.dropWhile (· != 0) with
      | nil =>
          rw [hrest, List.append_nil] at hparts
          rw [hparts] at hlen
          exact absurd hlen (lt_irrefl _)
      | cons c rest =>
          rw [hrest] at hstop hparts
          rw [List.getElem_of_eq hparts.symm, List.getElem_append_right (le_refl _)]
          simpa using hstop

/-- The text of a packet is the front of its bytes, up to the first NUL. -/
theorem packetText_eq {data : Bytes} (h : data.length ≤ maxPkt) :
    packetText data = data.takeWhile (· != 0) := by
  rw [packetText]
  exact cstr_memcpy_nul _ (by omega)

/-- The packet that the parser gets is the front of what the client wrote. -/
theorem packetText_payload {a : Access} {lo : ℕ} {got : Bytes}
    (h : gattSvrWriteFlat a lo maxPkt = .ok got) : packetText got <+: a.payload := by
  rw [gattSvrWriteFlat] at h
  split_ifs at h with hlen hrc
  obtain rfl := Except.ok.inj h
  rw [packetText_eq (by rw [List.length_take]; omega)]
  exact (List.takeWhile_prefix _).trans (List.take_prefix _ _)

/-- The queue holds what it held, and the credential of the last send at most. -/
theorem mem_sent_send {q : CredQueue} {cred cred' : WifiCredentials} {freed : Bool}
    (h : cred' ∈ (q.send cred freed).sent) : cred' ∈ q.sent ∨ cred' = cred := by
  obtain ⟨haccept, hfull⟩ := q.send_cases cred freed
  by_cases hroom : q.pending.length < wifiCredQueueLen ∨ freed = true
  · rw [haccept hroom, List.mem_append, List.mem_singleton] at h
    exact h
  · rw [hfull hroom] at h
    exact Or.inl h

/-! ### The storage and the station -/

/-- Every string that the storage can come to hold meets `P`. -/
def Flash.All (P : NvsKey → Bytes → Prop) (f : Flash) : Prop :=
  ∀ k n, ∀ x ∈ f k n, P k x

section Storage

variable {P : NvsKey → Bytes → Prop} {f : Flash}

/-- An erased storage holds nothing. -/
theorem Flash.all_erased : Flash.erased.All P :=
  fun _ _ _ hx => absurd hx (by simp [Flash.erased])

/-- A weaker property holds of the strings, too. -/
theorem Flash.All.mono {Q : NvsKey → Bytes → Prop} (hf : f.All P) (h : ∀ k x, P k x → Q k x) :
    f.All Q :=
  fun k n x hx => h k x (hf k n x hx)

/-- A string with the property can be set. -/
theorem Flash.All.setStr (hf : f.All P) {k : NvsKey} {x : Bytes} (hx : P k x) :
    (f.setStr k x).All P := by
  intro k' n y hy
  by_cases hk : k' = k
  · subst hk
    cases n with
    | zero =>
        rw [Flash.setStr_self_zero] at hy
        exact Option.some.inj hy ▸ hx
    | succ n =>
        rw [Flash.setStr_self_succ] at hy
        exact hf _ n y hy
  · rw [Flash.setStr_of_ne hk] at hy
    exact hf k' n y hy

/-- A commit adds no string. -/
theorem Flash.All.commit (hf : f.All P) : f.commit.All P :=
  fun k _ => hf k 0

/-- Neither does a loss of power. -/
theorem Flash.All.powerLoss (hf : f.All P) (lost : NvsKey → ℕ) : (f.powerLoss lost).All P :=
  fun k _ => hf k (lost k)

/-- **A store writes the strings of its credential**, however far it gets. -/
theorem Flash.All.wifiManagerStep (hf : f.All P) {cred : WifiCredentials}
    (hcred : ∀ k, P k (cred.str k)) (store : StoreCodes) (start : StartCodes) :
    (wifiManagerStep flashNvs f store start cred).1.All P := by
  rw [wifiManagerStep_fst, storeCredentialsNvs_snd]
  split_ifs
  · exact (hf.setStr (hcred .ssid)).setStr (hcred .pass)
  · exact hf.setStr (hcred .ssid)
  · exact hf
  · exact hf

/-- The task adds the strings of its credential at most. -/
theorem Flash.All.storeMessage (hf : f.All P) {cred : WifiCredentials}
    (hcred : ∀ k, P k (cred.str k)) (store : StoreCodes) (start : StartCodes) :
    (storeMessage f store start cred).All P := by
  have hstep := hf.wifiManagerStep hcred store start
  rw [AirShifter.storeMessage]
  split_ifs
  · exact hstep.commit
  · exact hstep

/-- A boot adds none. -/
theorem Flash.All.initStorage (hf : f.All P) (codes : BootCodes) :
    (initStorage f codes).1.All P := by
  rw [AirShifter.initStorage]
  split_ifs
  · exact hf
  · exact Flash.all_erased
  · exact hf

/-- The strings still fit after a boot. -/
theorem Flash.Fits.initStorage (hf : f.Fits) (codes : BootCodes) : (initStorage f codes).1.Fits :=
  Flash.All.initStorage (P := fun k x => 0 ∉ x ∧ x.length ≤ k.maxLen) hf codes

/-- **A load that succeeds** finds both strings. -/
theorem pair_of_load (hf : f.Fits) {nvsOpen : EspErr} {out : WifiCredentials}
    (h : (loadCredentialsNvs flashNvs f nvsOpen out).1 = espOk) :
    nvsOpen = espOk ∧ ∃ ssid pass, f.pair = some (ssid, pass) ∧
      (loadCredentialsNvs flashNvs f nvsOpen out).2.ssidStr = ssid ∧
      (loadCredentialsNvs flashNvs f nvsOpen out).2.passStr = pass := by
  by_cases hopen : nvsOpen = espOk
  · subst hopen
    rcases hpair : f.pair with - | ⟨ssid, pass⟩
    · exact absurd ((load_of_pair_none hf hpair out).symm.trans h) (by decide)
    · obtain ⟨hload, hholds⟩ := load_of_pair_some hf hpair out
      rw [hload]
      exact ⟨rfl, ssid, pass, rfl, hholds.ssidStr_eq, hholds.passStr_eq⟩
  · rw [load_of_not_open hopen] at h
    exact absurd h hopen

/-- What the station is handed for a credential. -/
theorem wifiStartWithCreds_config (start : StartCodes) (cred : WifiCredentials) :
    (wifiStartWithCreds start cred).2 =
      if start.setMode ≠ espOk then none else some (stationConfig cred.ssidStr cred.passStr) :=
  wifiStartWithCreds_snd start cred

/-- What the station is handed after a store. -/
theorem wifiManagerStep_snd (f : Flash) (store : StoreCodes) (start : StartCodes)
    (cred : WifiCredentials) :
    (wifiManagerStep flashNvs f store start cred).2 =
      if lengthsValid cred = true ∧
          (storeCredentialsNvs flashNvs f store cred.ssidStr cred.passStr).1 = espOk ∧
          start.setMode = espOk then
        some (stationConfig cred.ssidStr cred.passStr)
      else none := by
  have hstr : (cred.ssidStr = cstr cred.ssid) ∧ cred.passStr = cstr cred.pass := ⟨rfl, rfl⟩
  rw [AirShifter.wifiManagerStep, hstr.1, hstr.2]
  cases lengthsValid cred with
  | false => simp
  | true =>
      by_cases hstored :
          (storeCredentialsNvs flashNvs f store (cstr cred.ssid) (cstr cred.pass)).1 = espOk
      · have hconfig := wifiStartWithCreds_config start cred
        by_cases hmode : start.setMode = espOk <;> simp_all
      · simp [hstored]

/-- The station is configured with what it is handed, or stays as it was. -/
theorem mem_setStation {station handed : Option WifiConfig} {start : StartCodes}
    {config : WifiConfig} (h : config ∈ setStation station start handed) :
    config ∈ handed ∨ config ∈ station := by
  rw [setStation] at h
  split_ifs at h
  · cases handed with
    | none => exact Or.inr h
    | some c => exact Or.inl h
  · exact Or.inr h

end Storage

/-! ### Provenance -/

/-- Whatever the parts of the system hold was provisioned. -/
structure Sourced (H : CharHandles) (hmac : Bytes → Bytes → Vector UInt8 hmacSha256Len)
    (es : List SystemEvent) (s : System) : Prop where
  queue : ∀ q ∈ s.device.biz.wifiCredQueue, ∀ cred ∈ q.sent,
    Provisioned H hmac es cred ∧ cred.Fitting
  flash : s.flash.All fun k x => ∃ cred, Provisioned H hmac es cred ∧ cred.Fitting ∧ cred.str k = x
  station : ∀ config ∈ s.station, ∃ cred cred', Provisioned H hmac es cred ∧
    Provisioned H hmac es cred' ∧ config = stationConfig cred.ssidStr cred'.passStr

/-- What has a source keeps it. -/
theorem Sourced.concat {es : List SystemEvent} {s : System} (h : Sourced H hmac es s)
    (e : SystemEvent) : Sourced H hmac (es ++ [e]) s where
  queue q hq cred hcred := (h.queue q hq cred hcred).imp (·.concat e) id
  flash := h.flash.mono fun _ _ ⟨cred, hp, hcred⟩ => ⟨cred, hp.concat e, hcred⟩
  station config hconfig := by
    obtain ⟨cred, cred', hp, hp', heq⟩ := h.station config hconfig
    exact ⟨cred, cred', hp.concat e, hp'.concat e, heq⟩

/-- Strings that were provisioned fit. -/
theorem fits_of_sourced {es : List SystemEvent} {s : System} (h : Sourced H hmac es s) :
    s.flash.Fits := by
  intro k n x hx
  obtain ⟨cred, -, hfit, rfl⟩ := h.flash k n x hx
  obtain ⟨hs, hp⟩ := fits_message ⟨cred, hfit.consistent⟩
  cases k with
  | ssid => exact hs
  | pass => exact hp

/-- Without power only the storage needs a source. -/
theorem sourced_off {es : List SystemEvent} {f : Flash}
    (hf : f.All fun k x => ∃ cred, Provisioned H hmac es cred ∧ cred.Fitting ∧ cred.str k = x) :
    Sourced H hmac es (.off f) where
  queue := by
    rintro q ⟨⟩ cred hcred
    exact absurd hcred List.not_mem_nil
  flash := hf
  station _ hconfig := absurd hconfig (by simp [System.off])

/-- The credential that the task has taken was queued. -/
theorem mem_sent_of_next {s : System} {cred : WifiCredentials} (h : s.next = some cred) :
    ∃ q ∈ s.device.biz.wifiCredQueue, cred ∈ q.sent := by
  obtain ⟨q, hq, hget⟩ := Option.bind_eq_some_iff.mp h
  exact ⟨q, hq, List.mem_of_mem_take (List.mem_of_getElem? hget)⟩

/-- What an event of the device adds to the queue stands in a packet that an authenticated
connection wrote. -/
theorem sent_deviceStep {d : Device} {e : DeviceEvent} {q' : CredQueue}
    (hq' : q' ∈ (deviceStep H hmac d e).1.biz.wifiCredQueue) {cred : WifiCredentials}
    (hcred : cred ∈ q'.sent) :
    (∃ q ∈ d.biz.wifiCredQueue, cred ∈ q.sent) ∨
      ∃ a, e = .access a ∧ a.op = .writeChr ∧ a.attrHandle = H.packetHandle ∧
        secIsConnAuthenticated d.sec d.now a.connHandle = true ∧
        (BizCall.applyWifiCredentials cred).StandsIn a.payload ∧ cred.Fitting := by
  have hsame : (deviceStep H hmac d e).1.biz.wifiCredQueue = d.biz.wifiCredQueue →
      ∃ q ∈ d.biz.wifiCredQueue, cred ∈ q.sent := fun h => ⟨q', h ▸ hq', hcred⟩
  cases e with
  | connect status g words =>
      refine Or.inl (hsame ?_)
      dsimp only [deviceStep]
      split_ifs <;> rfl
  | disconnect g => exact Or.inl (hsame rfl)
  | tick now =>
      refine Or.inl (hsame ?_)
      dsimp only [deviceStep]
      split_ifs <;> rfl
  | dequeue =>
      cases hq : d.biz.wifiCredQueue with
      | none =>
          have : (dequeue d.biz).wifiCredQueue = none := by rw [dequeue, hq]; exact hq
          exact absurd (this ▸ hq') (by simp)
      | some q =>
          obtain ⟨-, hsent⟩ := sent_dequeue d.biz
          have hsent' : (some q').map CredQueue.sent = some q.sent := by
            rw [← Option.mem_def.mp hq']
            exact hsent.trans (by rw [hq]; rfl)
          exact Or.inl ⟨q, rfl, Option.some.inj hsent' ▸ hcred⟩
  | access a =>
      rcases queue_gattSvcAccess H hmac d a with
        h | ⟨hop, hattr, hauth, got, hgot, hbiz⟩
      · exact Or.inl (hsame h)
      · cases hq : d.biz.wifiCredQueue with
        | none =>
            change q' ∈ (gattSvcAccess H hmac d a).1.biz.wifiCredQueue at hq'
            rw [hbiz, queueStep, QueueEvent.biz, bizStep, wifiCredQueue_bizCalls, hq] at hq'
            exact absurd hq' (by simp)
        | some q =>
            have hqueue := queue_packet hq (packetText got) a.freed
            rw [← hbiz] at hqueue
            obtain rfl := Option.some.inj (hqueue.symm.trans hq')
            rcases appliedCreds_packet (packetText got) with hnil | ⟨cred', hfit, hcreds, -⟩
            · rw [hnil, List.foldl_nil] at hcred
              exact Or.inl ⟨q, rfl, hcred⟩
            · rw [hcreds, List.foldl_cons, List.foldl_nil] at hcred
              rcases mem_sent_send hcred with hcred | rfl
              · exact Or.inl ⟨q, rfl, hcred⟩
              · obtain ⟨trail, htrail⟩ := packetText_payload hgot
                have hcall : .applyWifiCredentials cred ∈
                    (parserHandlePacket (packetText got)).calls :=
                  mem_appliedCreds.mp (by rw [hcreds]; exact List.mem_singleton_self cred)
                have hstands := standsIn_parserHandlePacket (zero_notMem_cstr _) _ hcall
                refine Or.inr ⟨a, rfl, hop, hattr, hauth, ?_, hfit⟩
                rw [← htrail]
                exact hstands.append_right trail

/-- What a boot loads was provisioned. -/
theorem Sourced.boot {es : List SystemEvent} {s : System} (h : Sourced H hmac es s)
    (codes : BootCodes) : Sourced H hmac es (s.boot codes) := by
  have hflash := h.flash.initStorage codes
  have hfits : (initStorage s.flash codes).1.Fits := fits_of_sourced (sourced_off hflash)
  rw [System.boot]
  split_ifs with hup
  · refine ⟨?_, hflash, fun config hconfig => ?_⟩
    · rintro q ⟨⟩ cred hcred
      exact absurd hcred List.not_mem_nil
    · dsimp only at hconfig
      split_ifs at hconfig with hload
      · obtain ⟨-, ssid, pass, hpair, hssid, hpass⟩ := pair_of_load hfits hload
        obtain ⟨hs, hp⟩ := Flash.pair_eq_some_iff.mp hpair
        obtain ⟨cred, hcred, -, hcs⟩ := hflash .ssid 0 ssid hs
        obtain ⟨cred', hcred', -, hcp⟩ := hflash .pass 0 pass hp
        refine ⟨cred, cred', hcred, hcred', ?_⟩
        rcases mem_setStation hconfig with hconfig | hconfig
        · rw [wifiStartWithCreds_config] at hconfig
          split_ifs at hconfig
          · exact absurd hconfig (by simp)
          · rw [← Option.some.inj hconfig, hssid, hpass, ← hcs, ← hcp]
            rfl
        · exact absurd hconfig (by simp)
      · exact absurd hconfig (by simp)
  · exact sourced_off hflash

/-- **One step keeps the sources.** -/
theorem Sourced.systemStep {es : List SystemEvent} (h : Sourced H hmac es (systemAfter H hmac es))
    (e : SystemEvent) : Sourced H hmac (es ++ [e]) (systemAfter H hmac (es ++ [e])) := by
  have hkeep := h.concat e
  have hnext : ∀ cred, (systemAfter H hmac es).next = some cred →
      Provisioned H hmac (es ++ [e]) cred ∧ cred.Fitting := by
    intro cred hcred
    obtain ⟨q, hq, hmem⟩ := mem_sent_of_next hcred
    exact hkeep.queue q hq cred hmem
  rw [systemAfter_concat]
  generalize hs : systemAfter H hmac es = s at h hkeep hnext
  cases e with
  | device e =>
      rw [AirShifter.systemStep]
      split_ifs with hup
      · refine ⟨fun q' hq' cred hcred => ?_, hkeep.flash, hkeep.station⟩
        rcases sent_deviceStep hq' hcred with ⟨q, hq, hmem⟩ | ⟨a, rfl, hop, hattr, hauth, hst, hfit⟩
        · exact hkeep.queue q hq cred hmem
        · refine ⟨occurs_concat_iff.mpr (Or.inr ⟨a, rfl, ?_, hst⟩), hfit⟩
          rw [hs]
          exact ⟨hup, hop, hattr, hauth⟩
      · exact hkeep
  | handle store start =>
      rw [AirShifter.systemStep]
      cases hcred : if s.up then s.next else none with
      | none => exact hkeep
      | some cred =>
          obtain ⟨hprov, hfit⟩ := hnext cred (Option.ite_none_right_eq_some.mp hcred).2
          refine ⟨hkeep.queue, hkeep.flash.storeMessage (fun k => ⟨cred, hprov, hfit, rfl⟩) _ _, ?_⟩
          intro config hconfig
          rcases mem_setStation hconfig with hconfig | hconfig
          · rw [wifiManagerStep_snd] at hconfig
            split_ifs at hconfig
            · exact ⟨cred, cred, hprov, hprov, (Option.some.inj hconfig).symm⟩
            · exact absurd hconfig (by simp)
          · exact hkeep.station config hconfig
  | cut call lost =>
      rw [AirShifter.systemStep]
      cases hcred : if s.up then s.next else none with
      | none => exact hkeep
      | some cred =>
          obtain ⟨hprov, hfit⟩ := hnext cred (Option.ite_none_right_eq_some.mp hcred).2
          exact sourced_off ((hkeep.flash.wifiManagerStep (fun k => ⟨cred, hprov, hfit, rfl⟩)
            _ _).powerLoss lost)
  | powerOff lost => exact sourced_off (hkeep.flash.powerLoss lost)
  | boot codes =>
      rw [AirShifter.systemStep]
      split_ifs
      · exact hkeep
      · exact hkeep.boot codes

variable (H hmac)

/-- **After every run** all networks have a source. -/
theorem sourced_systemAfter (es : List SystemEvent) :
    Sourced H hmac es (systemAfter H hmac es) := by
  induction es using List.reverseRecOn with
  | nil => exact sourced_off Flash.all_erased
  | append_singleton es e ih => exact ih.systemStep e

/-- **Every network was provisioned.** In every run over any number of boots, whatever fails
and whenever the power goes off: each credential in the queue, each string in the storage,
and the SSID and the password that the station is configured with come from a packet that a
client wrote while it was authenticated, and stand in it behind a name of theirs. -/
theorem networks_were_provisioned (es : List SystemEvent) :
    (∀ q ∈ (systemAfter H hmac es).device.biz.wifiCredQueue, ∀ cred ∈ q.sent,
      Provisioned H hmac es cred) ∧
    (∀ k n, ∀ x ∈ (systemAfter H hmac es).flash k n,
      ∃ cred, Provisioned H hmac es cred ∧ cred.str k = x) ∧
    ∀ config ∈ (systemAfter H hmac es).station, ∃ cred cred', Provisioned H hmac es cred ∧
      Provisioned H hmac es cred' ∧ config = stationConfig cred.ssidStr cred'.passStr := by
  have h := sourced_systemAfter H hmac es
  refine ⟨fun q hq cred hcred => (h.queue q hq cred hcred).1, fun k n x hx => ?_, h.station⟩
  obtain ⟨cred, hprov, -, hx⟩ := h.flash k n x hx
  exact ⟨cred, hprov, hx⟩

/-! ### A loss of power does not show -/

/-- All calls of a station start succeed that the configuration depends on. -/
def StartCodes.Configures (start : StartCodes) : Prop :=
  start.setMode = espOk ∧ start.setConfig = espOk

/-- No store stops half way, and no call fails that configures the station: a store that
fails has not set anything; one that succeeds goes on to configure the station; and a boot
that finds two strings loads them and configures the station. -/
def Smooth (s : System) : SystemEvent → Prop
  | .handle store start => s.up = true → ∀ cred ∈ s.next, lengthsValid cred = true →
      (store.nvsOpen ≠ espOk ∨ store.setSsid ≠ espOk) ∨
      (storeCredentialsNvs flashNvs s.flash store cred.ssidStr cred.passStr).1 = espOk ∧
        start.Configures
  | .boot codes => (initStorage s.flash codes).1.pair ≠ none →
      codes.nvsOpen = espOk ∧ codes.start.Configures
  | .device _ | .cut _ _ | .powerOff _ => True

/-- Nothing that is stored can be lost any more, and the station is configured with it. -/
structure Settled (s : System) : Prop where
  committed : ∀ k n, s.flash k n = s.flash k 0
  station : s.up = true → s.station = s.flash.pair.map fun x => stationConfig x.1 x.2

/-- A device without power is settled if its storage is committed. -/
theorem settled_off {f : Flash} (h : ∀ k n, f k n = f k 0) : Settled (.off f) :=
  ⟨h, fun hup => absurd hup (by simp [System.off])⟩

variable {H hmac} {s : System}

/-- A boot leaves nothing that is not committed. -/
theorem committed_initStorage (h : ∀ k n, s.flash k n = s.flash k 0) (codes : BootCodes)
    (k : NvsKey) (n : ℕ) :
    (initStorage s.flash codes).1 k n = (initStorage s.flash codes).1 k 0 := by
  rw [initStorage]
  split_ifs
  · exact h k n
  · rfl
  · exact h k n

/-- **The station after a boot** is configured with the pair that is stored, if there is
one. -/
theorem station_boot (codes : BootCodes) (hfits : (initStorage s.flash codes).1.Fits)
    (hup : (initStorage s.flash codes).2 = true)
    (hcodes : (initStorage s.flash codes).1.pair ≠ none →
      codes.nvsOpen = espOk ∧ codes.start.Configures) :
    (s.boot codes).station =
      (initStorage s.flash codes).1.pair.map fun x => stationConfig x.1 x.2 := by
  rw [System.boot, if_pos hup]
  dsimp only
  rcases hpair : (initStorage s.flash codes).1.pair with - | ⟨ssid, pass⟩
  · rw [if_neg fun hload => ?_]
    · rfl
    · obtain ⟨-, ssid, pass, hsome, -⟩ := pair_of_load hfits hload
      rw [hpair] at hsome
      exact absurd hsome (by simp)
  · obtain ⟨hopen, hmode, hconfig⟩ := hcodes (by rw [hpair]; simp)
    obtain ⟨hload, hholds⟩ := load_of_pair_some hfits hpair {}
    rw [hopen, hload, if_pos rfl, setStation, if_pos hconfig, wifiStartWithCreds_config,
      if_neg (not_not.mpr hmode), hholds.ssidStr_eq, hholds.passStr_eq]
    rfl

/-- A store that does not set anything leaves the storage and the station alone. -/
theorem store_not_set {store : StoreCodes} (h : store.nvsOpen ≠ espOk ∨ store.setSsid ≠ espOk)
    (f : Flash) (start : StartCodes) (cred : WifiCredentials) :
    storeMessage f store start cred = f ∧
      (wifiManagerStep flashNvs f store start cred).2 = none := by
  have hnot : ¬ (store.nvsOpen = espOk ∧ store.setSsid = espOk) := by
    rw [not_and_or]
    exact h
  have hfails : (storeCredentialsNvs flashNvs f store cred.ssidStr cred.passStr).1 ≠ espOk := by
    rw [ne_eq, storeCredentialsNvs_fst_eq_ok]
    exact fun hok => hnot ⟨hok.1, hok.2.1⟩
  refine ⟨?_, by rw [wifiManagerStep_snd, if_neg fun hv => hfails hv.2.1]⟩
  rw [storeMessage, if_neg fun hv => hfails hv.2, wifiManagerStep_fst, storeCredentialsNvs_snd,
    if_neg hnot, ite_self]

/-- A store that succeeds leaves the pair of its credential, committed, and hands it to the
station. -/
theorem store_succeeds {store : StoreCodes} {start : StartCodes} {cred : WifiCredentials}
    {f : Flash} (hvalid : lengthsValid cred = true)
    (hstored : (storeCredentialsNvs flashNvs f store cred.ssidStr cred.passStr).1 = espOk)
    (hmode : start.setMode = espOk) :
    (∀ k n, storeMessage f store start cred k n = some (cred.str k)) ∧
      (wifiManagerStep flashNvs f store start cred).2 =
        some (stationConfig cred.ssidStr cred.passStr) := by
  obtain ⟨hopen, hset, hpass, -⟩ := (storeCredentialsNvs_fst_eq_ok _ _ _ _ _).mp hstored
  refine ⟨fun k n => ?_, by rw [wifiManagerStep_snd, if_pos ⟨hvalid, hstored, hmode⟩]⟩
  rw [storeMessage, if_pos ⟨hvalid, hstored⟩, wifiManagerStep_fst, if_pos hvalid,
    storeCredentialsNvs_snd, if_pos ⟨hopen, hset⟩, if_pos hpass]
  cases k with
  | ssid =>
      exact (Flash.setStr_of_ne (k := .pass) (by simp) _ cred.passStr 0).trans
        (f.setStr_self_zero .ssid cred.ssidStr)
  | pass => exact (f.setStr .ssid cred.ssidStr).setStr_self_zero .pass cred.passStr

/-- **One smooth step** keeps the station configured with what is stored. -/
theorem Settled.systemStep (h : Settled s) (hfits : s.flash.Fits) {e : SystemEvent}
    (he : Smooth s e) : Settled (systemStep H hmac s e) := by
  cases e with
  | device e =>
      rw [AirShifter.systemStep]
      split_ifs
      · exact ⟨h.committed, h.station⟩
      · exact h
  | handle store start =>
      rw [AirShifter.systemStep]
      cases hcred : if s.up then s.next else none with
      | none => exact h
      | some cred =>
          obtain ⟨hup, hnext⟩ := Option.ite_none_right_eq_some.mp hcred
          dsimp only
          by_cases hvalid : lengthsValid cred = true
          · rcases he hup cred hnext hvalid with hnot | ⟨hstored, hmode, hconfig⟩
            · obtain ⟨hflash, hstation⟩ := store_not_set hnot s.flash start cred
              rw [hflash, hstation, setStation, Option.none_or, ite_self]
              exact ⟨h.committed, h.station⟩
            · obtain ⟨hflash, hstation⟩ := store_succeeds hvalid hstored hmode
              have hpair : (storeMessage s.flash store start cred).pair =
                  some (cred.ssidStr, cred.passStr) :=
                Flash.pair_eq_some_iff.mpr ⟨hflash .ssid 0, hflash .pass 0⟩
              refine ⟨fun k n => (hflash k n).trans (hflash k 0).symm, fun _ => ?_⟩
              dsimp only
              rw [hpair, hstation, setStation, if_pos hconfig]
              rfl
          · have hflash : storeMessage s.flash store start cred = s.flash := by
              rw [storeMessage, if_neg fun hv => hvalid hv.1, wifiManagerStep_fst, if_neg hvalid]
            have hstation : (wifiManagerStep flashNvs s.flash store start cred).2 = none := by
              rw [wifiManagerStep_snd, if_neg fun hv => hvalid hv.1]
            rw [hflash, hstation, setStation, Option.none_or, ite_self]
            exact ⟨h.committed, h.station⟩
  | cut call lost =>
      rw [AirShifter.systemStep]
      cases hcred : if s.up then s.next else none with
      | none => exact h
      | some cred => exact settled_off fun _ _ => rfl
  | powerOff lost => exact settled_off fun _ _ => rfl
  | boot codes =>
      rw [AirShifter.systemStep]
      split_ifs with hup
      · exact h
      · have hcommitted := committed_initStorage h.committed codes
        have hinit := hfits.initStorage codes
        cases hok : (initStorage s.flash codes).2 with
        | true =>
            refine ⟨fun k n => ?_, fun _ => ?_⟩
            · rw [System.boot, if_pos hok]
              exact hcommitted k n
            · rw [station_boot codes hinit hok he, System.boot, if_pos hok]
        | false =>
            rw [System.boot, if_neg (by rw [hok]; exact Bool.false_ne_true)]
            exact settled_off hcommitted

variable (H hmac)

/-- Along a smooth run the station is configured with what is stored. -/
theorem settled_systemAfter {es : List SystemEvent}
    (h : Along (systemStep H hmac) (.off .erased) (fun _ s e => Smooth s e) es) :
    Settled (systemAfter H hmac es) := by
  refine foldl_history_along (I := fun _ s => Settled s) (settled_off fun _ _ => rfl) ?_ h
  intro pre e he hI
  exact hI.systemStep (fits_of_sourced (sourced_systemAfter H hmac pre)) he

/-- **A loss of power does not show.** Along every run in which no store stops half way and
no call fails that configures the station, the station of a device that is up is configured
with the pair that is stored, or with nothing if there is none; and it still is after a loss
of power and a boot, whatever was not committed yet. -/
theorem station_survives_power_loss {es : List SystemEvent}
    (h : Along (systemStep H hmac) (.off .erased) (fun _ s e => Smooth s e) es)
    (hup : (systemAfter H hmac es).up = true) (lost : NvsKey → ℕ) {codes : BootCodes}
    (hcodes : codes.flashInit = espOk ∧ codes.nvsOpen = espOk ∧ codes.start.Configures) :
    (systemAfter H hmac es).station =
        (systemAfter H hmac es).flash.pair.map (fun x => stationConfig x.1 x.2) ∧
      (systemAfter H hmac (es ++ [.powerOff lost, .boot codes])).up = true ∧
      (systemAfter H hmac (es ++ [.powerOff lost, .boot codes])).station =
        (systemAfter H hmac es).station := by
  have hsettled := settled_systemAfter H hmac h
  have hfits := fits_of_sourced (sourced_systemAfter H hmac es)
  have hsplit : es ++ [.powerOff lost, .boot codes] = es ++ [.powerOff lost] ++ [.boot codes] := by
    rw [List.append_assoc, List.singleton_append]
  rw [hsplit, systemAfter_concat, systemAfter_concat]
  generalize systemAfter H hmac es = s at hup hsettled hfits ⊢
  obtain ⟨hinit, hopen, hconfigures⟩ := hcodes
  have hstorage : initStorage (s.flash.powerLoss lost) codes = (s.flash.powerLoss lost, true) := by
    rw [initStorage, hinit, if_neg (by decide), decide_eq_true rfl]
  have hpair : (s.flash.powerLoss lost).pair = s.flash.pair := by
    rw [Flash.pair, Flash.pair, Flash.powerLoss_apply, Flash.powerLoss_apply,
      hsettled.committed .ssid, hsettled.committed .pass]
  have hboot : systemStep H hmac (systemStep H hmac s (.powerOff lost)) (.boot codes) =
      (System.off (s.flash.powerLoss lost)).boot codes := rfl
  have hstation := station_boot (s := .off (s.flash.powerLoss lost)) codes
    (by rw [System.off, hstorage]; exact hfits.powerLoss lost) (by rw [System.off, hstorage])
    fun _ => ⟨hopen, hconfigures⟩
  rw [hboot]
  refine ⟨hsettled.station hup, ?_, ?_⟩
  · rw [System.boot, if_pos (by rw [System.off, hstorage])]
  · rw [hstation, hsettled.station hup, ← hpair, System.off, hstorage]

/-- A write of the packet `{"ssid":"home","pass":"key"}`. -/
def homePacket : Access where
  op := .writeChr
  connHandle := 7
  attrHandle := 15
  payload := ascii "\x7b\"ssid\":\"home\",\"pass\":\"key\"\x7d"

/-- A client answers its challenge and writes the packet, and the task handles it. -/
def homeRun : List SystemEvent :=
  .boot {} :: ((completedRun 7).map .device ++
    [.device (.access homePacket), .device .dequeue, .handle {} {}])

/-- No store of the run stops half way, and no call fails. -/
theorem along_homeRun : Along (systemStep sampleHandles sampleHmac) (.off .erased)
    (fun _ s e => Smooth s e) homeRun := by
  intro pre e post hes
  have he : e ∈ homeRun := by
    rw [hes]
    simp
  generalize pre.foldl (systemStep sampleHandles sampleHmac) (.off .erased) = s
  simp only [homeRun, completedRun, List.map_cons, List.map_nil, List.cons_append, List.nil_append,
    List.mem_cons, List.not_mem_nil, or_false] at he
  rcases he with rfl | rfl | rfl | rfl | rfl | rfl
  · exact fun _ => ⟨rfl, rfl, rfl⟩
  · trivial
  · trivial
  · trivial
  · trivial
  · exact fun _ cred _ _ => Or.inr
      ⟨(storeCredentialsNvs_fst_eq_ok _ _ _ _ _).mpr ⟨rfl, rfl, rfl, rfl⟩, rfl, rfl⟩

/-- After a loss of power the station is on the network of the packet. -/
theorem station_survives_power_loss_home :
    (systemAfter sampleHandles sampleHmac
      (homeRun ++ [.powerOff fun _ => 0, .boot {}])).station =
        some (stationConfig (ascii "home") (ascii "key")) :=
  (station_survives_power_loss sampleHandles sampleHmac along_homeRun (by decide +kernel)
    (fun _ => 0) ⟨rfl, rfl, rfl, rfl⟩).2.2.trans (by decide +kernel)

end AirShifter
