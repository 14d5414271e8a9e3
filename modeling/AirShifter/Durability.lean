import AirShifter.DurableCell
import AirShifter.System

/-!
# What Provisioning Is For

Seen from outside, the queue, the Wi-Fi task, the storage and the boot code are one thing: a
durable cell that holds the credentials of one network, behind a queue of credentials that
clients have provisioned. Here the system is shown to be a refinement of that cell, as long
as a pair of strings is stored or lost as a whole.

## Main results

* `system_refines_cell`: along every such run, the system is the cell, over any number of
  boots, and the station is configured with the value of the cell.
-/

open CBytes Runs DurableCell

namespace AirShifter

/-- The two strings of a credential. -/
def WifiCredentials.strings (cred : WifiCredentials) : Bytes × Bytes :=
  (cred.ssidStr, cred.passStr)

/-- The system as a cell: credentials wait until the task has handled them, whether they are
still in the queue or not. -/
def System.cell (s : System) : Cell (Bytes × Bytes) where
  up := s.up
  waiting := (s.device.sent.drop s.handled).map WifiCredentials.strings
  kept := s.flash.pair

/-- The first `nvs_flash_init` makes `app_main` erase the storage, and the erase succeeds. -/
def BootCodes.erases (codes : BootCodes) : Bool :=
  decide ((codes.flashInit = espErrNvsNoFreePages ∨
    codes.flashInit = espErrNvsNewVersionFound) ∧ codes.flashErase = espOk)

/-- Whether a store that is cut before a call has left its pair for good. -/
def StoreCall.leaves (call : StoreCall) (lost : NvsKey → ℕ) : Bool :=
  match call with
  | .commit => decide (lost .ssid = 0 ∧ lost .pass = 0)
  | _ => false

variable (H : CharHandles) (hmac : Bytes → Bytes → Vector UInt8 hmacSha256Len)

/-- What an event of the system means to the cell. The credentials that the queue accepts are
posted; a credential that is handled is kept if it is valid and was stored; and if the power
goes off in the middle of a store, then it is kept if both strings were written, and
survive. -/
def cellEvents (s : System) : SystemEvent → List (Event (Bytes × Bytes))
  | .device e =>
    if s.up then
      (((deviceStep H hmac s.device e).1.sent.drop s.device.sent.length).map
        WifiCredentials.strings).map .post
    else []
  | .handle store _ =>
    match if s.up then s.next else none with
    | none => []
    | some cred =>
      [.settle (lengthsValid cred && decide ((storeCredentialsNvs flashNvs s.flash store
        cred.ssidStr cred.passStr).1 = espOk))]
  | .cut call lost =>
    match if s.up then s.next else none with
    | none => []
    | some cred =>
      [.settle (lengthsValid cred && call.leaves lost), .crash]
  | .powerOff _ => [.crash]
  | .boot codes => if s.up then [] else [.start (initStorage s.flash codes).2 codes.erases]

/-- A pair is stored or lost as a whole: the power does not go off between the two writes with
the first one surviving, nor behind them with only one of them surviving. -/
def Whole (s : System) : SystemEvent → Prop
  | .cut call lost => s.up = true → ∀ cred ∈ s.next, lengthsValid cred = true →
      match call with
      | .nvsOpen | .setSsid => True
      | .setPass => lost .ssid ≠ 0
      | .commit => lost .ssid = 0 ↔ lost .pass = 0
  | _ => True

variable {H hmac}

/-! ### Waiting credentials -/

/-- What the queue has accepted. -/
theorem sent_of_queue {d : Device} {q : CredQueue} (hq : d.biz.wifiCredQueue = some q) :
    d.sent = q.sent := by
  rw [Device.sent, hq]
  rfl

/-- A packet takes nothing back that the queue has accepted. -/
theorem sent_packet_front {d d' : Device} {buf : Bytes} {freed : Bool}
    (h : d'.biz = queueStep d.biz (.packet buf freed)) : d.sent <+: d'.sent := by
  cases hq : d.biz.wifiCredQueue with
  | none =>
      rw [Device.sent, hq]
      exact List.nil_prefix
  | some q =>
      obtain ⟨q', hq', hsent⟩ := queue_queueStep hq (.packet buf freed)
      rw [← h] at hq'
      rw [sent_of_queue hq, sent_of_queue hq']
      rcases hsent with ⟨-, hsame⟩ | ⟨_, freed', cred, -, -, -, rfl⟩
      · rw [hsame]
      · obtain ⟨haccept, hfull⟩ := q.send_cases cred freed'
        by_cases hroom : q.pending.length < wifiCredQueueLen ∨ freed' = true
        · rw [haccept hroom]
          exact List.prefix_append _ _
        · rw [hfull hroom]

variable (H hmac) in
/-- An event of the device takes nothing back that the queue has accepted. -/
theorem sent_deviceStep_front (d : Device) (e : DeviceEvent) :
    d.sent <+: (deviceStep H hmac d e).1.sent := by
  cases e with
  | connect status g words =>
      rw [deviceStep]
      split_ifs <;> exact List.prefix_rfl
  | disconnect g => exact List.prefix_rfl
  | tick now =>
      rw [deviceStep]
      split_ifs <;> exact List.prefix_rfl
  | dequeue =>
      rw [deviceStep, Device.sent, Device.sent, (sent_dequeue d.biz).2]
  | access a =>
      rw [deviceStep]
      dsimp only
      rcases queue_gattSvcAccess H hmac d a with hsame | ⟨-, -, -, got, -, hbiz⟩
      · rw [Device.sent, Device.sent, hsame]
      · exact sent_packet_front hbiz

section Step

variable {s : System} {cred : WifiCredentials}

/-- The credential that the task has taken is the first one that waits. -/
theorem waiting_of_next (h : s.next = some cred) :
    s.handled < s.device.sent.length ∧
      s.device.sent.drop s.handled = cred :: s.device.sent.drop (s.handled + 1) := by
  rw [System.next, Option.bind_eq_some_iff] at h
  obtain ⟨q, hq, hcred⟩ := h
  rw [CredQueue.received, List.getElem?_take, Option.ite_none_right_eq_some] at hcred
  obtain ⟨hlt, hget⟩ := List.getElem?_eq_some_iff.mp hcred.2
  rw [sent_of_queue hq, ← hget]
  exact ⟨hlt, List.drop_eq_getElem_cons hlt⟩

/-- The task has handled nothing that was not accepted. -/
theorem handled_le_systemStep (h : s.handled ≤ s.device.sent.length) (e : SystemEvent) :
    (systemStep H hmac s e).handled ≤ (systemStep H hmac s e).device.sent.length := by
  cases e with
  | device e =>
      rw [systemStep]
      split_ifs
      · exact h.trans (sent_deviceStep_front H hmac s.device e).length_le
      · exact h
  | handle store start =>
      rw [systemStep]
      cases hnext : if s.up then s.next else none with
      | none => exact h
      | some cred => exact (waiting_of_next (Option.ite_none_right_eq_some.mp hnext).2).1
  | cut call lost =>
      rw [systemStep]
      cases if s.up then s.next else none with
      | none => exact h
      | some cred => exact Nat.zero_le _
  | powerOff lost => exact Nat.zero_le _
  | boot codes =>
      rw [systemStep]
      split_ifs
      · exact h
      · rw [System.boot]
        split_ifs <;> exact Nat.zero_le _

/-- Nor has it in any state of a run. -/
theorem handled_le_systemAfter (es : List SystemEvent) :
    (systemAfter H hmac es).handled ≤ (systemAfter H hmac es).device.sent.length := by
  induction es using List.reverseRecOn with
  | nil => exact Nat.zero_le _
  | append_singleton es e ih =>
      rw [systemAfter_concat]
      exact handled_le_systemStep ih e

/-! ### The stored pair -/

/-- A loss of power takes nothing from a storage that is committed. -/
theorem pair_powerLoss {f : Flash} (h : ∀ k n, f k n = f k 0) (lost : NvsKey → ℕ) :
    (f.powerLoss lost).pair = f.pair := by
  rw [Flash.pair, Flash.pair, Flash.powerLoss_apply, Flash.powerLoss_apply, h .ssid, h .pass]

/-- The storage is initialised as it is, or erased. -/
theorem pair_initStorage (f : Flash) (codes : BootCodes) :
    (initStorage f codes).1.pair = if codes.erases then none else f.pair := by
  rw [initStorage, BootCodes.erases]
  by_cases hfull : codes.flashInit = espErrNvsNoFreePages ∨
      codes.flashInit = espErrNvsNewVersionFound
  · by_cases herase : codes.flashErase = espOk
    · rw [if_pos hfull, if_neg (not_not.mpr herase), if_pos (decide_eq_true ⟨hfull, herase⟩)]
      rfl
    · rw [if_pos hfull, if_pos herase, if_neg (by simp [herase])]
  · rw [if_neg hfull, if_neg (by simp [hfull])]

/-- A store that goes smoothly keeps the pair of its credential, or leaves the one before. -/
theorem pair_storeMessage {store : StoreCodes} {start : StartCodes} (hup : s.up = true)
    (hnext : s.next = some cred) (hsmooth : Smooth s (.handle store start)) :
    (storeMessage s.flash store start cred).pair =
      if lengthsValid cred = true ∧
        (storeCredentialsNvs flashNvs s.flash store cred.ssidStr cred.passStr).1 = espOk then
        some cred.strings
      else s.flash.pair := by
  by_cases hvalid : lengthsValid cred = true
  · rcases hsmooth hup cred hnext hvalid with hnot | ⟨hstored, hmode, -⟩
    · have hfails : (storeCredentialsNvs flashNvs s.flash store cred.ssidStr cred.passStr).1 ≠
          espOk := by
        rw [ne_eq, storeCredentialsNvs_fst_eq_ok]
        rintro ⟨hopen, hset, -⟩
        exact hnot.elim (fun h => h hopen) fun h => h hset
      rw [(store_not_set hnot s.flash start cred).1, if_neg fun h => hfails h.2]
    · have hflash := (store_succeeds hvalid hstored hmode).1
      rw [if_pos ⟨hvalid, hstored⟩]
      exact Flash.pair_eq_some_iff.mpr ⟨hflash .ssid 0, hflash .pass 0⟩
  · rw [if_neg fun h => hvalid h.1, storeMessage, if_neg fun h => hvalid h.1, wifiManagerStep_fst,
      if_neg hvalid]

/-- A store that is cut, and not torn, keeps the pair of its credential, or leaves the one
before. -/
theorem pair_cut (hcommitted : ∀ k n, s.flash k n = s.flash k 0) {call : StoreCall}
    {lost : NvsKey → ℕ} (hup : s.up = true) (hnext : s.next = some cred)
    (hwhole : Whole s (.cut call lost)) :
    ((wifiManagerStep flashNvs s.flash call.stopped {} cred).1.powerLoss lost).pair =
      if (lengthsValid cred && call.leaves lost) = true then some cred.strings
      else s.flash.pair := by
  have hlost : ∀ k, lost k ≠ 0 → ∀ x, s.flash.setStr k x k (lost k) = s.flash k 0 := by
    intro k hk x
    obtain ⟨n, hn⟩ := Nat.exists_eq_succ_of_ne_zero hk
    rw [hn, Flash.setStr_self_succ, hcommitted]
  rw [wifiManagerStep_fst, storeCredentialsNvs_snd]
  by_cases hvalid : lengthsValid cred = true
  · have hcond := hwhole hup cred hnext hvalid
    rw [if_pos hvalid, hvalid, Bool.true_and]
    cases call with
    | nvsOpen | setSsid => exact pair_powerLoss hcommitted lost
    | setPass =>
        change ((s.flash.setStr .ssid cred.ssidStr).powerLoss lost).pair = s.flash.pair
        rw [Flash.pair, Flash.pair, Flash.powerLoss_apply, Flash.powerLoss_apply, hlost .ssid hcond,
          Flash.setStr_of_ne (by simp), hcommitted .pass]
    | commit =>
        change (((s.flash.setStr .ssid cred.ssidStr).setStr .pass cred.passStr).powerLoss
            lost).pair =
          if decide (lost .ssid = 0 ∧ lost .pass = 0) = true then some cred.strings
          else s.flash.pair
        by_cases hssid : lost .ssid = 0
        · have hpass := hcond.mp hssid
          rw [if_pos (decide_eq_true ⟨hssid, hpass⟩), Flash.pair_eq_some_iff, Flash.powerLoss_apply,
            Flash.powerLoss_apply, hssid, hpass, Flash.setStr_of_ne (by simp),
            Flash.setStr_self_zero, Flash.setStr_self_zero]
          exact ⟨rfl, rfl⟩
        · have hpass : lost .pass ≠ 0 := fun hzero => hssid (hcond.mpr hzero)
          obtain ⟨n, hn⟩ := Nat.exists_eq_succ_of_ne_zero hpass
          rw [if_neg fun hboth => hssid (of_decide_eq_true hboth).1, Flash.pair, Flash.pair,
            Flash.powerLoss_apply, Flash.powerLoss_apply, Flash.setStr_of_ne (by simp),
            hlost .ssid hssid, hn, Flash.setStr_self_succ, Flash.setStr_of_ne (by simp),
            hcommitted .pass n]
  · rw [if_neg hvalid, Bool.eq_false_of_not_eq_true hvalid, Bool.false_and,
      if_neg Bool.false_ne_true, pair_powerLoss hcommitted]

/-- **One step** of the system is what it means to the cell. -/
theorem cell_systemStep (hcommitted : ∀ k n, s.flash k n = s.flash k 0)
    (hhandled : s.handled ≤ s.device.sent.length) {e : SystemEvent} (hsmooth : Smooth s e)
    (hwhole : Whole s e) :
    (systemStep H hmac s e).cell = (cellEvents H hmac s e).foldl step s.cell := by
  cases e with
  | device e =>
      rw [systemStep, cellEvents]
      split_ifs
      · obtain ⟨new, hnew⟩ := sent_deviceStep_front H hmac s.device e
        rw [foldl_posts, System.cell, System.cell, ← hnew, List.drop_left,
          List.drop_append_of_le_length hhandled, List.map_append]
      · rfl
  | handle store start =>
      rw [systemStep, cellEvents]
      cases hnext : if s.up then s.next else none with
      | none => rfl
      | some cred =>
          obtain ⟨hup, hcred⟩ := Option.ite_none_right_eq_some.mp hnext
          have hwaiting : s.cell.waiting =
              cred.strings :: (s.device.sent.drop (s.handled + 1)).map WifiCredentials.strings := by
            rw [System.cell, (waiting_of_next hcred).2, List.map_cons]
          rw [List.foldl_cons, List.foldl_nil, step_settle hwaiting, System.cell]
          dsimp only
          rw [pair_storeMessage hup hcred hsmooth]
          simp only [Bool.and_eq_true, decide_eq_true_eq]
          rfl
  | cut call lost =>
      rw [systemStep, cellEvents]
      cases hnext : if s.up then s.next else none with
      | none => rfl
      | some cred =>
          obtain ⟨hup, hcred⟩ := Option.ite_none_right_eq_some.mp hnext
          have hwaiting : s.cell.waiting =
              cred.strings :: (s.device.sent.drop (s.handled + 1)).map WifiCredentials.strings := by
            rw [System.cell, (waiting_of_next hcred).2, List.map_cons]
          rw [List.foldl_cons, List.foldl_cons, List.foldl_nil, step_settle hwaiting, step,
            System.cell]
          dsimp only [System.off]
          rw [pair_cut hcommitted hup hcred hwhole]
          rfl
  | powerOff lost =>
      rw [systemStep, cellEvents, List.foldl_cons, List.foldl_nil, step, System.cell, System.cell]
      dsimp only [System.off]
      rw [pair_powerLoss hcommitted]
      rfl
  | boot codes =>
      rw [systemStep, cellEvents]
      split_ifs
      · rfl
      · have hkept : (if codes.erases = true then none else s.cell.kept) =
            (initStorage s.flash codes).1.pair := (pair_initStorage s.flash codes).symm
        rw [List.foldl_cons, List.foldl_nil, step, hkept, System.boot]
        rcases initStorage s.flash codes with ⟨f, ok⟩
        cases ok <;> rfl

end Step

/-! ### Runs -/

variable (H hmac)

/-- **The system is a durable cell.** Along every run in which no store stops half way, no call
fails that configures the station, and a pair is stored or lost as a whole: what waits and
what is stored is what a durable cell holds that the same credentials are posted to, over any
number of boots, losses of power and erased storages; and the station of a device that is up
is configured with the value of the cell. -/
theorem system_refines_cell {es : List SystemEvent}
    (h : Along (systemStep H hmac) (.off .erased) (fun _ s e => Smooth s e ∧ Whole s e) es) :
    (systemAfter H hmac es).cell =
        (trace (systemStep H hmac) (cellEvents H hmac) (.off .erased) es).foldl step blank ∧
      ((systemAfter H hmac es).up = true → (systemAfter H hmac es).station =
        (systemAfter H hmac es).cell.kept.map fun x => stationConfig x.1 x.2) := by
  have hsmooth : ∀ l,
      Along (systemStep H hmac) (.off .erased) (fun _ s e => Smooth s e ∧ Whole s e) l →
      Along (systemStep H hmac) (.off .erased) (fun _ s e => Smooth s e) l :=
    fun l hl pre e post hpost => (hl pre e post hpost).1
  refine ⟨?_, (settled_systemAfter H hmac (hsmooth es h)).station⟩
  refine abs_foldl_of_steps h fun pre e hpre he => ?_
  exact cell_systemStep (settled_systemAfter H hmac (hsmooth pre hpre)).committed
    (handled_le_systemAfter pre) he.1 he.2

/-- The client sends the credentials of another network, and the power goes off in the middle of
the store, with both strings written; and once more, some time after the boot. -/
def cutRun : List SystemEvent :=
  homeRun ++ [.device (.access { homePacket with
      payload := ascii "\x7b\"ssid\":\"office\",\"pass\":\"door\"\x7d" }),
    .device .dequeue, .cut .commit fun _ => 0, .boot {}, .powerOff fun _ => 0, .boot {}]

theorem along_cutRun : Along (systemStep sampleHandles sampleHmac) (.off .erased)
    (fun _ s e => Smooth s e ∧ Whole s e) cutRun := by
  intro pre e post hes
  have he : e ∈ cutRun := by
    rw [hes]
    simp
  have hboot : ∀ s, Smooth s (.boot {}) ∧ Whole s (.boot {}) :=
    fun s => ⟨fun _ => ⟨rfl, rfl, rfl⟩, trivial⟩
  generalize pre.foldl (systemStep sampleHandles sampleHmac) (.off .erased) = s
  simp only [cutRun, homeRun, completedRun, List.map_cons, List.map_nil, List.cons_append,
    List.nil_append, List.mem_cons, List.not_mem_nil, or_false] at he
  rcases he with rfl | rfl | rfl | rfl | rfl | rfl | rfl | rfl | rfl | rfl | rfl | rfl
  · exact hboot s
  · exact ⟨trivial, trivial⟩
  · exact ⟨trivial, trivial⟩
  · exact ⟨trivial, trivial⟩
  · exact ⟨trivial, trivial⟩
  · exact ⟨fun _ cred _ _ => Or.inr
      ⟨(storeCredentialsNvs_fst_eq_ok _ _ _ _ _).mpr ⟨rfl, rfl, rfl, rfl⟩, rfl, rfl⟩, trivial⟩
  · exact ⟨trivial, trivial⟩
  · exact ⟨trivial, trivial⟩
  · exact ⟨trivial, fun _ _ _ _ => Iff.rfl⟩
  · exact hboot s
  · exact ⟨trivial, trivial⟩
  · exact hboot s

/-- The store that was cut has left the new network, and two boots later the station is on it. -/
theorem system_refines_cell_cut :
    (systemAfter sampleHandles sampleHmac cutRun).cell =
        (trace (systemStep sampleHandles sampleHmac) (cellEvents sampleHandles sampleHmac)
          (.off .erased) cutRun).foldl step blank ∧
      (systemAfter sampleHandles sampleHmac cutRun).station =
        some (stationConfig (ascii "office") (ascii "door")) := by
  obtain ⟨hcell, hstation⟩ := system_refines_cell sampleHandles sampleHmac along_cutRun
  refine ⟨hcell, (hstation (by decide +kernel)).trans ?_⟩
  have hkept : (systemAfter sampleHandles sampleHmac cutRun).cell.kept =
      some (ascii "office", ascii "door") := by
    decide +kernel
  rw [hkept, Option.map_some]

end AirShifter
