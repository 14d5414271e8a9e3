import AirShifter.Notifications

/-!
# The Declared Characteristics

`gatt_svr_svcs` tells the host, and through it every client, what can be done with each
characteristic: whether it can be read, written, and subscribed to. One callback serves them
all, and finds out by the handle which one is meant. The table and the callback are written
apart from each other; here they are compared.

They agree on every characteristic but one. The characteristic that the example brought
along is declared to be readable, writable and subscribable, and none of this is served.

## Main results

* `valHandle_injective`: the callback can tell the characteristics apart.
* `mem_deviceUpdates`: what is announced is the challenge or a status.
* `table_served`: what is declared is what is served, that one characteristic apart.
-/

open CBytes Runs

namespace AirShifter

/-! ### The table -/

/-- `BLE_GATT_CHR_F_*`. -/
inductive ChrFlag
  | read | write | writeNoRsp | notify | indicate
  deriving DecidableEq

/-- The variables that `val_handle` points to: one for each characteristic. -/
inductive Characteristic
  | gattSvrChr
  | ctrl (c : Control)
  | auth
  | packet
  | stat (c : Control)
  deriving DecidableEq

/-- The entries of `ble_gatt_chr_def` that differ. -/
structure ChrDef where
  valHandle : Characteristic
  flags : List ChrFlag

/-- `control_chrs_local`. -/
def controlChrsLocal : List ChrDef :=
  [⟨.ctrl .rpm, [.read, .write]⟩, ⟨.ctrl .angle, [.read, .write]⟩,
    ⟨.ctrl .light, [.read, .write]⟩, ⟨.ctrl .power, [.read, .write]⟩,
    ⟨.auth, [.read, .write, .notify]⟩, ⟨.packet, [.write, .writeNoRsp]⟩]

/-- `status_chrs_local`. -/
def statusChrsLocal : List ChrDef :=
  [⟨.stat .rpm, [.read, .notify]⟩, ⟨.stat .angle, [.read, .notify]⟩,
    ⟨.stat .light, [.read, .notify]⟩, ⟨.stat .power, [.read, .notify]⟩]

/-- `gatt_svr_svcs`: the characteristics of each service. -/
def gattSvrSvcs : List (List ChrDef) :=
  [[⟨.gattSvrChr, [.read, .write, .notify, .indicate]⟩], controlChrsLocal, statusChrsLocal]

/-- The flags that a characteristic is declared with. -/
def flagsOf (x : Characteristic) : List ChrFlag :=
  ((gattSvrSvcs.flatten.find? fun d => d.valHandle = x).map ChrDef.flags).getD []

/-- The handles that the host assigns. They are all different. -/
structure GattHandles extends CharHandles where
  gattSvrChrValHandle : UInt16
  notMem : gattSvrChrValHandle ∉ authCharHandle :: packetHandle ::
    (Control.all.map ctrlHandle ++ Control.all.map statHandle)

/-- The handle of a characteristic. -/
def GattHandles.valHandle (G : GattHandles) : Characteristic → UInt16
  | .gattSvrChr => G.gattSvrChrValHandle
  | .ctrl c => G.ctrlHandle c
  | .auth => G.authCharHandle
  | .packet => G.packetHandle
  | .stat c => G.statHandle c

variable (G : GattHandles) (hmac : Bytes → Bytes → Vector UInt8 hmacSha256Len)

/-- In some reachable state an access of the characteristic succeeds. -/
def Serves (op : GattOp) (x : Characteristic) : Prop :=
  ∃ es a, a.op = op ∧ a.attrHandle = G.valHandle x ∧
    (gattSvcAccess G.toCharHandles hmac (deviceAfter G.toCharHandles hmac es) a).2.status =
      .success

/-- In some reachable state an event announces a new value of the characteristic. -/
def Announces (x : Characteristic) : Prop :=
  ∃ es e, G.valHandle x ∈
    deviceUpdates G.toCharHandles (deviceAfter G.toCharHandles hmac es) e

variable {G}

/-! ### Handles -/

/-- **The callback can tell the characteristics apart.** -/
theorem valHandle_injective : Function.Injective G.valHandle := by
  let all : List Characteristic := .gattSvrChr :: .auth :: .packet ::
    (Control.all.map .ctrl ++ Control.all.map .stat)
  have hall : ∀ x, x ∈ all := by
    intro x
    cases x <;> simp [all, Control.mem_all]
  have hnodup : (all.map G.valHandle).Nodup :=
    List.nodup_cons.mpr ⟨G.notMem, G.nodup⟩
  exact fun x y h => List.inj_on_of_nodup_map hnodup (hall x) (hall y) h

/-- Only variables are found as variables. -/
theorem ctrlOf_eq_none {x : Characteristic} (h : ∀ c, x ≠ .ctrl c) :
    G.ctrlOf (G.valHandle x) = none := by
  refine List.find?_eq_none.mpr fun c _ hsame => h c ?_
  exact valHandle_injective (of_decide_eq_true hsame)

/-- Only status values are found as such. -/
theorem statOf_eq_none {x : Characteristic} (h : ∀ c, x ≠ .stat c) :
    G.statOf (G.valHandle x) = none := by
  refine List.find?_eq_none.mpr fun c _ hsame => h c ?_
  exact valHandle_injective (of_decide_eq_true hsame)

/-! ### What is not served -/

/-- Only the challenge, the controls and the statuses can be read. -/
theorem readChr_of_other {d : Device} {a : Access} {x : Characteristic}
    (ha : a.attrHandle = G.valHandle x) (hauth : x ≠ .auth) (hctrl : ∀ c, x ≠ .ctrl c)
    (hstat : ∀ c, x ≠ .stat c) : (readChr G.toCharHandles d a).status = .unlikely := by
  have hne : a.attrHandle ≠ G.authCharHandle := fun h =>
    hauth (valHandle_injective (ha.symm.trans h))
  rw [readChr, if_neg hne, ha, ctrlOf_eq_none hctrl, statOf_eq_none hstat]

/-- Only the challenge, the controls and the packet can be written. -/
theorem writeChr_of_other {d : Device} {a : Access} {x : Characteristic}
    (ha : a.attrHandle = G.valHandle x) (hauth : x ≠ .auth) (hctrl : ∀ c, x ≠ .ctrl c)
    (hpacket : x ≠ .packet) :
    (writeChr G.toCharHandles hmac d a).2 = .writeNotPermitted := by
  have hne : a.attrHandle ≠ G.authCharHandle := fun h =>
    hauth (valHandle_injective (ha.symm.trans h))
  have hne' : a.attrHandle ≠ G.packetHandle := fun h =>
    hpacket (valHandle_injective (ha.symm.trans h))
  have hnone : G.ctrlOf a.attrHandle = none := by rw [ha, ctrlOf_eq_none hctrl]
  rw [writeChr, if_neg hne, hnone]
  dsimp only
  rw [if_neg hne']

/-- A connect announces nothing but a challenge. -/
theorem eq_of_mem_secOnConnectUpdates {H : CharHandles} {s : SecState} {now : UInt64}
    {words : RandomWords} {g h : UInt16} (hmem : h ∈ secOnConnectUpdates H s now words g) :
    h = H.authCharHandle := by
  have hone : ∀ slot : Fin maxSecConns × SecState,
      h ∈ (if (generateNonceForIndex slot.2 now words slot.1).isSome then [H.authCharHandle]
        else []) →
        h = H.authCharHandle := by
    intro slot hslot
    split_ifs at hslot
    · exact List.mem_singleton.mp hslot
    · exact absurd hslot List.not_mem_nil
  rw [secOnConnectUpdates] at hmem
  cases hfind : findEntry s g with
  | some i =>
      rw [hfind] at hmem
      exact hone (i, s) hmem
  | none =>
      rw [hfind] at hmem
      cases halloc : allocEntry s g with
      | some slot =>
          rw [halloc] at hmem
          exact hone slot hmem
      | none =>
          rw [halloc] at hmem
          exact absurd hmem List.not_mem_nil

/-- **What is announced** is the challenge or a status. -/
theorem mem_deviceUpdates {H : CharHandles} {d : Device} {e : DeviceEvent} {h : UInt16}
    (hmem : h ∈ deviceUpdates H d e) : H.Notifies h := by
  cases e with
  | connect status g words =>
      dsimp only [deviceUpdates] at hmem
      split_ifs at hmem
      · exact Or.inl (eq_of_mem_secOnConnectUpdates hmem)
      · exact absurd hmem List.not_mem_nil
  | disconnect g => exact absurd hmem List.not_mem_nil
  | tick now => exact absurd hmem List.not_mem_nil
  | dequeue => exact absurd hmem List.not_mem_nil
  | access a =>
      rw [deviceUpdates] at hmem
      cases hop : a.op with
      | readChr | readDsc | writeDsc | other =>
          rw [hop] at hmem
          exact absurd hmem List.not_mem_nil
      | writeChr =>
          rw [hop] at hmem
          obtain ⟨call, -, hcall⟩ := List.mem_flatMap.mp hmem
          cases call with
          | applyWifiCredentials cred => exact absurd hcall List.not_mem_nil
          | set c v =>
              by_cases hv : v < 0
              · rw [bizCallUpdates, bizSetUpdates, if_pos hv] at hcall
                exact absurd hcall List.not_mem_nil
              · rw [bizCallUpdates, bizSetUpdates_of_not_neg c hv] at hcall
                exact Or.inr ⟨c, List.mem_singleton.mp hcall⟩

/-! ### A client that has answered -/

/-- The random words of the challenge. -/
def zeroWords : RandomWords := Vector.replicate 8 0

/-- A client comes up under the handle 1. -/
def oneConnect : List DeviceEvent := [.connect 0 1 zeroWords]

variable (G) in
/-- It answers its challenge. -/
def oneAnswer : Access where
  op := .writeChr
  connHandle := 1
  attrHandle := G.authCharHandle
  payload := rightAnswer hmac zeroWords

variable (G) in
/-- The sample client answers its challenge. -/
theorem isAuthWrite_oneAnswer :
    IsAuthWrite G.toCharHandles (oneAnswer G hmac) 1 (rightAnswer hmac zeroWords) :=
  ⟨rfl, rfl, rfl, rfl, rfl⟩

variable (H : CharHandles)

/-- The session of the client. -/
theorem sessionOf_oneConnect :
    sessionOf (deviceAfter H hmac oneConnect).sec 1 = some ⟨drawn zeroWords 16, 0, false⟩ := by
  have hdevice : (deviceAfter H hmac oneConnect).sec = secOnConnect bootSec 0 zeroWords 1 := rfl
  have hopen := ((tableOk_secInit defaultNonceLen).secOnConnect 0 zeroWords 1).2 1 (by decide)
  rw [hdevice, bootSec, hopen]
  exact if_pos ⟨rfl, Or.inr (by decide)⟩

/-- The answer is accepted. -/
theorem accepts_oneAnswer : (⟨drawn zeroWords 16, 0, false⟩ : Session).Accepts hmac
    (deviceAfter H hmac oneConnect).sec.privKey (deviceAfter H hmac oneConnect).now
      (some (rightAnswer hmac zeroWords)) := by
  have hnow : (deviceAfter H hmac oneConnect).now = 0 := rfl
  rw [hnow]
  exact accepts_rightAnswer hmac (config_deviceAfter H hmac oneConnect).1 rfl (UInt64.le_refl _)
    (by decide)

/-- An access takes no time. -/
theorem now_gattSvcAccess (d : Device) (a : Access) : (gattSvcAccess H hmac d a).1.now = d.now := by
  rcases gattSvcAccess_cases H hmac d a with hsame | ⟨-, -, got, hsec⟩ | ⟨-, -, -, calls, hbiz⟩
  · rw [hsame]
  · rw [hsec]
  · rw [hbiz]

/-- The client is authenticated. -/
theorem authenticated_oneAnswer (G : GattHandles) :
    secIsConnAuthenticated
      (deviceAfter G.toCharHandles hmac (oneConnect ++ [.access (oneAnswer G hmac)])).sec
      (deviceAfter G.toCharHandles hmac (oneConnect ++ [.access (oneAnswer G hmac)])).now 1 =
        true := by
  have hcall := secCallOf_authWrite (deviceAfter G.toCharHandles hmac oneConnect)
    (length_rightAnswer zeroWords) (isAuthWrite_oneAnswer G hmac)
  have hsec : (deviceStep G.toCharHandles hmac (deviceAfter G.toCharHandles hmac oneConnect)
      (.access (oneAnswer G hmac))).1.sec = _ := sec_deviceStep _ _
  rw [hcall] at hsec
  dsimp only [secStep] at hsec
  have hnow : (deviceStep G.toCharHandles hmac (deviceAfter G.toCharHandles hmac oneConnect)
      (.access (oneAnswer G hmac))).1.now = 0 :=
    now_gattSvcAccess hmac G.toCharHandles _ _
  rw [deviceAfter_concat, hnow, hsec, secIsConnAuthenticated_eq, sessionOf_secHandleAuthResponse,
    sessionOf_oneConnect, Option.map_some, if_pos ⟨rfl, accepts_oneAnswer hmac _⟩, Option.any_some]
  decide

/-! ### The table against the callback -/

variable (G)

/-- A write of zeros, as long as a control wants them. -/
def zeroWrite (c : Control) : Access where
  op := .writeChr
  connHandle := 1
  attrHandle := G.ctrlHandle c
  payload := List.replicate (ctrlSize c) 0

/-- A write of zeros has the right size. -/
theorem gattSvrWriteFlat_zeroWrite (c : Control) :
    gattSvrWriteFlat (zeroWrite G c) (ctrlSize c) (ctrlSize c) =
      .ok (List.replicate (ctrlSize c) 0) := by
  cases c <;> rfl

/-- It goes to no handle for authentication. -/
theorem zeroWrite_ne_auth (c : Control) : (zeroWrite G c).attrHandle ≠ G.authCharHandle :=
  CharHandles.ne_auth_of_acts (CharHandles.acts_ctrlHandle c)

/-- It goes to the variable of its control. -/
theorem ctrlOf_zeroWrite (c : Control) : G.ctrlOf (zeroWrite G c).attrHandle = some c :=
  CharHandles.ctrlOf_ctrlHandle c

/-- **Reads**: every characteristic that is declared to be readable can be read, except that
of the example. -/
theorem serves_read_iff (x : Characteristic) :
    Serves G hmac .readChr x ↔ .read ∈ flagsOf x ∧ x ≠ .gattSvrChr := by
  have hother : x = .gattSvrChr ∨ x = .packet → ¬ Serves G hmac .readChr x := by
    rintro hx ⟨es, a, hop, ha, hok⟩
    rw [gattSvcAccess, hop] at hok
    dsimp only at hok
    rw [readChr_of_other ha (by rcases hx with rfl | rfl <;> simp)
      (by rcases hx with rfl | rfl <;> simp) (by rcases hx with rfl | rfl <;> simp)] at hok
    exact absurd hok (by simp)
  cases x with
  | gattSvrChr => exact iff_of_false (hother (Or.inl rfl)) (by simp)
  | packet => exact iff_of_false (hother (Or.inr rfl)) (by decide)
  | ctrl c =>
      let a : Access := { op := .readChr, connHandle := 1, attrHandle := G.ctrlHandle c }
      refine iff_of_true ⟨[], a, rfl, rfl, ?_⟩ (by cases c <;> decide)
      rw [gattSvcAccess]
      dsimp only
      rw [(readChr_control c).1 rfl]
      rfl
  | stat c =>
      let a : Access := { op := .readChr, connHandle := 1, attrHandle := G.statHandle c }
      refine iff_of_true ⟨[], a, rfl, rfl, ?_⟩ (by cases c <;> decide)
      rw [gattSvcAccess]
      dsimp only
      rw [(readChr_control c).2 rfl]
      rfl
  | auth =>
      let a : Access := { op := .readChr, connHandle := 1, attrHandle := G.authCharHandle }
      refine iff_of_true ⟨oneConnect, a, rfl, rfl, ?_⟩ (by decide)
      have hlen : (drawn zeroWords 16).length = 16 := length_drawn zeroWords (by decide)
      have hread : (gattSvcAccess G.toCharHandles hmac (deviceAfter G.toCharHandles hmac oneConnect)
          a).2 = ⟨.success, drawn zeroWords 16⟩ :=
        readChr_auth (c := ⟨drawn zeroWords 16, 0, false⟩) rfl rfl rfl
          (sessionOf_oneConnect hmac G.toCharHandles) hlen
      exact congrArg AttResponse.status hread

/-- **Writes**: every characteristic that is declared to be writable can be written, except
that of the example. -/
theorem serves_write_iff (x : Characteristic) :
    Serves G hmac .writeChr x ↔ .write ∈ flagsOf x ∧ x ≠ .gattSvrChr := by
  have hother : (x = .gattSvrChr ∨ ∃ c, x = .stat c) → ¬ Serves G hmac .writeChr x := by
    rintro hx ⟨es, a, hop, ha, hok⟩
    rw [gattSvcAccess, hop] at hok
    dsimp only at hok
    rw [writeChr_of_other hmac ha (by rcases hx with rfl | ⟨c, rfl⟩ <;> simp)
      (by rcases hx with rfl | ⟨c, rfl⟩ <;> simp)
      (by rcases hx with rfl | ⟨c, rfl⟩ <;> simp)] at hok
    exact absurd hok (by simp)
  have hauth := authenticated_oneAnswer hmac G
  cases x with
  | gattSvrChr => exact iff_of_false (hother (Or.inl rfl)) (by simp)
  | stat c => exact iff_of_false (hother (Or.inr ⟨c, rfl⟩)) (by cases c <;> decide)
  | auth =>
      refine iff_of_true ⟨oneConnect, oneAnswer G hmac, rfl, rfl, ?_⟩ (by decide)
      exact status_authWrite (length_rightAnswer zeroWords) (isAuthWrite_oneAnswer G hmac)
        (sessionOf_oneConnect hmac G.toCharHandles) (accepts_oneAnswer hmac G.toCharHandles)
  | ctrl c =>
      refine iff_of_true ⟨oneConnect ++ [.access (oneAnswer G hmac)], zeroWrite G c, rfl, rfl, ?_⟩
        (by cases c <;> decide)
      change (writeChr G.toCharHandles hmac _ (zeroWrite G c)).2 = .success
      rw [writeChr, if_neg (zeroWrite_ne_auth G c), ctrlOf_zeroWrite]
      dsimp only
      rw [show (zeroWrite G c).connHandle = 1 from rfl, hauth, Bool.not_true,
        if_neg Bool.false_ne_true, gattSvrWriteFlat_zeroWrite]
  | packet =>
      let a : Access :=
        { op := .writeChr, connHandle := 1, attrHandle := G.packetHandle, payload := [0] }
      have hacts : G.Acts a.attrHandle := Or.inr rfl
      have hnone : G.ctrlOf a.attrHandle = none := ctrlOf_eq_none (x := .packet) (by simp)
      have hflat : gattSvrWriteFlat a 1 maxPkt = .ok [0] := rfl
      refine iff_of_true ⟨oneConnect ++ [.access (oneAnswer G hmac)], a, rfl, rfl, ?_⟩ (by decide)
      change (writeChr G.toCharHandles hmac _ a).2 = .success
      rw [writeChr, if_neg (CharHandles.ne_auth_of_acts hacts), hnone]
      dsimp only
      rw [if_pos rfl, show a.connHandle = 1 from rfl, hauth, Bool.not_true,
        if_neg Bool.false_ne_true, hflat]

/-- **Announcements**: every characteristic that is declared to notify is announced, except
that of the example. -/
theorem announces_iff (x : Characteristic) :
    Announces G hmac x ↔ .notify ∈ flagsOf x ∧ x ≠ .gattSvrChr := by
  have hother : x ≠ .auth → (∀ c, x ≠ .stat c) → ¬ Announces G hmac x := by
    rintro hauth hstat ⟨es, e, hmem⟩
    rcases mem_deviceUpdates hmem with h | ⟨c, h⟩
    · exact hauth (valHandle_injective h)
    · exact hstat c (valHandle_injective h)
  cases x with
  | gattSvrChr => exact iff_of_false (hother (by simp) (by simp)) (by simp)
  | ctrl c => exact iff_of_false (hother (by simp) (by simp)) (by cases c <;> decide)
  | packet => exact iff_of_false (hother (by simp) (by simp)) (by decide)
  | auth =>
      refine iff_of_true ⟨[], .connect 0 1 zeroWords, ?_⟩ (by decide)
      exact List.mem_singleton_self _
  | stat c =>
      refine iff_of_true ⟨oneConnect ++ [.access (oneAnswer G hmac)], .access (zeroWrite G c), ?_⟩
        (by cases c <;> decide)
      have hcalls : writeChrCalls G.toCharHandles (deviceAfter G.toCharHandles hmac
          (oneConnect ++ [.access (oneAnswer G hmac)])) (zeroWrite G c) = [.set c 0] := by
        rw [writeChrCalls, if_neg (zeroWrite_ne_auth G c), ctrlOf_zeroWrite]
        dsimp only
        rw [show (zeroWrite G c).connHandle = 1 from rfl, authenticated_oneAnswer, Bool.not_true,
          if_neg Bool.false_ne_true, gattSvrWriteFlat_zeroWrite]
        cases c <;> rfl
      change G.statHandle c ∈ (writeChrCalls G.toCharHandles _ (zeroWrite G c)).flatMap _
      rw [hcalls, List.flatMap_singleton, bizCallUpdates, bizSetUpdates_of_not_neg c (lt_irrefl 0)]
      exact List.mem_singleton_self _

/-- **What is declared is what is served.** For every characteristic of the table: it can be
read, written, and seen to change in some reachable state exactly if it is declared to be
readable, writable and to notify, and is not the one of the example, which is declared to be
all of this. -/
theorem table_served (x : Characteristic) :
    (Serves G hmac .readChr x ↔ .read ∈ flagsOf x ∧ x ≠ .gattSvrChr) ∧
      (Serves G hmac .writeChr x ↔ .write ∈ flagsOf x ∧ x ≠ .gattSvrChr) ∧
      (Announces G hmac x ↔ .notify ∈ flagsOf x ∧ x ≠ .gattSvrChr) :=
  ⟨serves_read_iff G hmac x, serves_write_iff G hmac x, announces_iff G hmac x⟩

end AirShifter
