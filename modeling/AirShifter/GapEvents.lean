import AirShifter.Notifications

/-!
# GAP Events

`bleprph_gap_event` is the callback behind all connections. Of the eight types of events it
tells apart, two change the state that the other modules read, and three make it advertise
again. An assertion that fails restarts the device. Whether the host advertises is for the host
to say; the callbacks only ask it to, and do not look at its answer.

## Main results

* `host_refines_device`: a run of the host is a run of the device, as the other modules have
  it, or it ends in a failed assertion.
* `on_air_iff`: the device stays on the air exactly if the host accepts the attempts that are
  made while it does not advertise.
* `locked_out`: a connection that comes up while the session table is full stays locked out
  until it comes up again, whoever leaves in the meantime.
-/

open CBytes Runs SlotTable

namespace AirShifter

/-! ### The callbacks -/

/-- `BLE_HS_EBUSY`. -/
def bleHsEbusy : ℤ := 15

/-- `BLE_GAP_REPEAT_PAIRING_RETRY`. -/
def bleGapRepeatPairingRetry : ℤ := 1

/-- `struct ble_gap_event`: the types of events that the callback tells apart, with the
fields that it does not only log; `other` stands for every other type. -/
inductive GapEvent
  | connect (status : ℤ) (connHandle : UInt16)
  | disconnect (connHandle : UInt16)
  | connUpdate (connHandle : UInt16)
  | advComplete
  | encChange (connHandle : UInt16)
  | repeatPairing (connHandle : UInt16)
  | subscribe
  | mtu
  | other

/-- What the host returns while a callback runs, from `ble_gap_conn_find`,
`ble_gap_adv_set_fields` and `ble_gap_adv_start`, and the words that `esp_random` draws. -/
structure HostCodes where
  connFind : ℤ := 0
  advSetFields : ℤ := 0
  advStart : ℤ := 0
  words : RandomWords

/-- What the host does: it reports an event; it is reset, which `bleprph_on_reset` only logs,
or in sync again, with the results of `ble_hs_util_ensure_addr` and `ble_hs_id_infer_auto`; it
hands over an access; and beside it time passes, and the Wi-Fi task takes a credential. -/
inductive HostEvent
  | gap (e : GapEvent) (codes : HostCodes)
  | reset
  | sync (ensureAddr inferAuto : ℤ) (codes : HostCodes)
  | access (a : Access)
  | tick (now : UInt64)
  | dequeue

/-- The host, as far as it advertises. It is not part of the program: whatever it keeps, that
changes until it reports an event, and by the calls of `ble_gap_adv_set_fields` and
`ble_gap_adv_start` that return the given codes; and `ble_gap_adv_active` reads it. -/
structure AdvHost (σ : Type*) where
  boot : σ
  active : σ → Bool
  report : σ → HostEvent → σ
  setFields : σ → ℤ → σ
  start : σ → ℤ → σ

variable {σ : Type*} (A : AdvHost σ)

/-- The device, and the host behind it. -/
structure Peripheral (σ : Type*) where
  device : Device
  host : σ

/-- `bleprph_advertise`. What `ble_gap_adv_start` returns is only logged. -/
def bleprphAdvertise (p : Peripheral σ) (codes : HostCodes) : Peripheral σ :=
  let p := { p with host := A.setFields p.host codes.advSetFields }
  if codes.advSetFields ≠ 0 then p
  else { p with host := A.start p.host codes.advStart }

/-- `bleprph_gap_event`, with its return value; `none` is a failed assertion. -/
def bleprphGapEvent (p : Peripheral σ) (codes : HostCodes) :
    GapEvent → Option (Peripheral σ × ℤ)
  | .connect status connHandle =>
    if status = 0 then
      if codes.connFind ≠ 0 then none
      else
        let p := bleprphAdvertise A p codes
        some ({ p with device := { p.device with
          sec := secOnConnect p.device.sec p.device.now codes.words connHandle } }, 0)
    else some (bleprphAdvertise A p codes, 0)
  | .disconnect connHandle =>
    let p := { p with device := { p.device with sec := secClearConn p.device.sec connHandle } }
    let p := { p with device := { p.device with
      biz := { p.device.biz with authTable := bizClearAuth p.device.biz.authTable connHandle } } }
    some (bleprphAdvertise A p codes, 0)
  | .connUpdate _ => if codes.connFind ≠ 0 then none else some (p, 0)
  | .advComplete => some (bleprphAdvertise A p codes, 0)
  | .encChange _ => if codes.connFind ≠ 0 then none else some (p, 0)
  | .repeatPairing _ =>
    if codes.connFind ≠ 0 then none else some (p, bleGapRepeatPairingRetry)
  | .subscribe => some (p, 0)
  | .mtu => some (p, 0)
  | .other => some (p, 0)

/-- `bleprph_on_sync`. -/
def bleprphOnSync (p : Peripheral σ) (ensureAddr inferAuto : ℤ) (codes : HostCodes) :
    Option (Peripheral σ) :=
  if ensureAddr ≠ 0 then none
  else if inferAuto ≠ 0 then some p
  else some (bleprphAdvertise A p codes)

/-! ### Runs of the host -/

variable (H : CharHandles) (hmac : Bytes → Bytes → Vector UInt8 hmacSha256Len)

/-- The effect of an event; `none` is a failed assertion. -/
def hostStep (p : Peripheral σ) (e : HostEvent) : Option (Peripheral σ) :=
  let p := { p with host := A.report p.host e }
  match e with
  | .gap e codes => (bleprphGapEvent A p codes e).map Prod.fst
  | .reset => some p
  | .sync ensureAddr inferAuto codes => bleprphOnSync A p ensureAddr inferAuto codes
  | .access a => some { p with device := (gattSvcAccess H hmac p.device a).1 }
  | .tick now => some { p with device := (deviceStep H hmac p.device (.tick now)).1 }
  | .dequeue => some { p with device := (deviceStep H hmac p.device .dequeue).1 }

/-- The device and the host after a run, unless an assertion has failed. -/
def hostAfter (es : List HostEvent) : Option (Peripheral σ) :=
  es.foldl (fun p e => p.bind fun p => hostStep A H hmac p e) (some ⟨bootDevice, A.boot⟩)

theorem hostAfter_concat (es : List HostEvent) (e : HostEvent) :
    hostAfter A H hmac (es ++ [e]) =
      (hostAfter A H hmac es).bind fun p => hostStep A H hmac p e := by
  rw [hostAfter, List.foldl_append]
  rfl

/-! ### A run of the host is a run of the device -/

/-- What an event means to the device. -/
def HostEvent.device : HostEvent → Option DeviceEvent
  | .gap (.connect status h) codes => some (.connect status h codes.words)
  | .gap (.disconnect h) _ => some (.disconnect h)
  | .access a => some (.access a)
  | .tick now => some (.tick now)
  | .dequeue => some .dequeue
  | _ => none

/-- An assertion fails in the callback of the event. -/
def HostEvent.Asserts : HostEvent → Prop
  | .gap (.connect status _) codes => status = 0 ∧ codes.connFind ≠ 0
  | .gap (.connUpdate _) codes | .gap (.encChange _) codes | .gap (.repeatPairing _) codes =>
    codes.connFind ≠ 0
  | .sync ensureAddr _ _ => ensureAddr ≠ 0
  | _ => False

/-- The callback of the event makes an attempt to advertise, if no assertion fails. -/
def HostEvent.Attempts : HostEvent → Prop
  | .gap (.connect _ _) _ | .gap (.disconnect _) _ | .gap .advComplete _ => True
  | .sync _ inferAuto _ => inferAuto = 0
  | _ => False

/-- The host does what the attempt asks for. -/
def HostEvent.Accepted : HostEvent → Prop
  | .gap _ codes | .sync _ _ codes => codes.advSetFields = 0 ∧ codes.advStart = 0
  | _ => False

/-- What is known of the host. Advertising ends with a connection or the attempt to make one,
when its time is up, and when the host is reset, and not with any other event. A start that is
accepted makes it advertise, and a call that is refused changes nothing: it may well be refused
because the host advertises already. -/
structure AdvHost.Documented (A : AdvHost σ) : Prop where
  report : ∀ s e, (∀ status h codes, e ≠ .gap (.connect status h) codes) →
    (∀ codes, e ≠ .gap .advComplete codes) → e ≠ .reset →
    A.active s = true → A.active (A.report s e) = true
  setFields : ∀ s rc, A.active (A.setFields s rc) = A.active s
  started : ∀ s, A.active (A.start s 0) = true
  refused : ∀ s rc, rc ≠ 0 → A.active (A.start s rc) = A.active s

variable {A H hmac}

/-- Advertising is between the program and the host. -/
@[simp] theorem device_bleprphAdvertise (p : Peripheral σ) (codes : HostCodes) :
    (bleprphAdvertise A p codes).device = p.device := by
  rw [bleprphAdvertise]
  split_ifs <;> rfl

/-- After an attempt the host advertises if the attempt is accepted, or if it did before. -/
theorem active_bleprphAdvertise (hA : A.Documented) (p : Peripheral σ) (codes : HostCodes) :
    A.active (bleprphAdvertise A p codes).host = true ↔
      (codes.advSetFields = 0 ∧ codes.advStart = 0) ∨ A.active p.host = true := by
  rw [bleprphAdvertise]
  dsimp only
  split_ifs with hfields
  · simp [hfields, hA.setFields]
  · by_cases hstart : codes.advStart = 0
    · simp [not_not.mp hfields, hstart, hA.started]
    · simp [hstart, hA.refused, hA.setFields]

/-- The device after an event, if it means something to it. -/
def deviceOr (H : CharHandles) (hmac : Bytes → Bytes → Vector UInt8 hmacSha256Len) (d : Device) :
    Option DeviceEvent → Device
  | none => d
  | some e => (deviceStep H hmac d e).1

/-- What an event leaves: the device after what it means to it, and a host that advertises if
it still did when it reported the event, or accepts an attempt of the callback. -/
structure Leaves (A : AdvHost σ) (H : CharHandles)
    (hmac : Bytes → Bytes → Vector UInt8 hmacSha256Len) (p : Peripheral σ) (e : HostEvent)
    (p' : Peripheral σ) : Prop where
  device : p'.device = deviceOr H hmac p.device e.device
  active : A.Documented → (A.active p'.host = true ↔
    (e.Attempts ∧ e.Accepted) ∨ A.active (A.report p.host e) = true)

section Step

variable {p p' : Peripheral σ} {e : HostEvent}

/-- The callback makes an attempt to advertise. -/
theorem leaves_of_advertise {q : Peripheral σ} {codes : HostCodes}
    (hdevice : p'.device = deviceOr H hmac p.device e.device)
    (hhost : p'.host = (bleprphAdvertise A q codes).host) (hq : q.host = A.report p.host e)
    (he : e.Attempts ∧ e.Accepted ↔ codes.advSetFields = 0 ∧ codes.advStart = 0) :
    Leaves A H hmac p e p' :=
  ⟨hdevice, fun hA => by rw [hhost, active_bleprphAdvertise hA, hq, he]⟩

/-- The callback makes none. -/
theorem leaves_of_not_advertise (hdevice : p'.device = deviceOr H hmac p.device e.device)
    (hhost : p'.host = A.report p.host e) (he : ¬ e.Attempts) : Leaves A H hmac p e p' :=
  ⟨hdevice, fun _ => by rw [hhost, or_iff_right fun h => he h.1]⟩

/-- A failed assertion ends the run. -/
theorem hostStep_of_asserts (h : e.Asserts) : hostStep A H hmac p e = none := by
  match e, h with
  | .gap (.connect status g) codes, ⟨hstatus, hfind⟩ =>
      rw [hostStep, bleprphGapEvent, if_pos hstatus, if_pos hfind]
      rfl
  | .gap (.connUpdate g) codes, hfind | .gap (.encChange g) codes, hfind
  | .gap (.repeatPairing g) codes, hfind =>
      have hne : codes.connFind ≠ 0 := hfind
      rw [hostStep, bleprphGapEvent, if_pos hne]
      rfl
  | .sync ensureAddr inferAuto codes, hensure => exact if_pos hensure

/-- A connection that came up is advertised past, and gets a challenge. -/
theorem hostStep_connected {g : UInt16} {codes : HostCodes} (hfind : codes.connFind = 0) :
    ∃ p', hostStep A H hmac p (.gap (.connect 0 g) codes) = some p' ∧
      Leaves A H hmac p (.gap (.connect 0 g) codes) p' := by
  let r : Peripheral σ := { p with host := A.report p.host (.gap (.connect 0 g) codes) }
  let q := bleprphAdvertise A r codes
  have hq : q.device = p.device := device_bleprphAdvertise r codes
  refine ⟨{ q with device := { q.device with
    sec := secOnConnect q.device.sec q.device.now codes.words g } }, ?_,
    leaves_of_advertise (q := r) ?_ rfl rfl (and_iff_right trivial)⟩
  · rw [hostStep, bleprphGapEvent, if_pos rfl, if_neg (not_not.mpr hfind)]
    rfl
  · dsimp only
    rw [hq, HostEvent.device, deviceOr, deviceStep, if_pos rfl]

/-- **An event** without a failed assertion leaves what it should. -/
theorem hostStep_of_not_asserts (h : ¬ e.Asserts) :
    ∃ p', hostStep A H hmac p e = some p' ∧ Leaves A H hmac p e p' := by
  let r : Peripheral σ := { p with host := A.report p.host e }
  cases e with
  | gap e codes =>
      cases e with
      | connect status g =>
          by_cases hstatus : status = 0
          · subst hstatus
            exact hostStep_connected (not_not.mp fun hfind => h ⟨rfl, hfind⟩)
          · refine ⟨bleprphAdvertise A r codes, ?_,
              leaves_of_advertise (q := r) ?_ rfl rfl (and_iff_right trivial)⟩
            · rw [hostStep, bleprphGapEvent, if_neg hstatus]
              rfl
            · rw [device_bleprphAdvertise, HostEvent.device, deviceOr, deviceStep, if_neg hstatus]
      | disconnect g =>
          let q : Peripheral σ :=
            { r with device := (deviceStep H hmac p.device (.disconnect g)).1 }
          exact ⟨bleprphAdvertise A q codes, rfl, leaves_of_advertise (q := q)
            (device_bleprphAdvertise q codes) rfl rfl (and_iff_right trivial)⟩
      | advComplete =>
          exact ⟨bleprphAdvertise A r codes, rfl, leaves_of_advertise (q := r)
            (device_bleprphAdvertise r codes) rfl rfl (and_iff_right trivial)⟩
      | connUpdate g | encChange g | repeatPairing g =>
          have hfind : ¬ codes.connFind ≠ 0 := h
          refine ⟨r, ?_, leaves_of_not_advertise rfl rfl not_false⟩
          rw [hostStep, bleprphGapEvent, if_neg hfind]
          rfl
      | subscribe | mtu | other => exact ⟨r, rfl, leaves_of_not_advertise rfl rfl not_false⟩
  | reset => exact ⟨r, rfl, leaves_of_not_advertise rfl rfl not_false⟩
  | sync ensureAddr inferAuto codes =>
      have hensure : ¬ ensureAddr ≠ 0 := h
      by_cases hinfer : inferAuto = 0
      · refine ⟨bleprphAdvertise A r codes, ?_, leaves_of_advertise (q := r)
          (device_bleprphAdvertise r codes) rfl rfl (and_iff_right hinfer)⟩
        rw [hostStep, bleprphOnSync, if_neg hensure, if_neg (not_not.mpr hinfer)]
      · refine ⟨r, ?_, leaves_of_not_advertise rfl rfl hinfer⟩
        rw [hostStep, bleprphOnSync, if_neg hensure, if_pos hinfer]
  | access a => exact ⟨_, rfl, leaves_of_not_advertise rfl rfl not_false⟩
  | tick now => exact ⟨_, rfl, leaves_of_not_advertise rfl rfl not_false⟩
  | dequeue => exact ⟨_, rfl, leaves_of_not_advertise rfl rfl not_false⟩

/-- A step that gets through leaves what it should. -/
theorem leaves_of_hostStep (h : hostStep A H hmac p e = some p') :
    ¬ e.Asserts ∧ Leaves A H hmac p e p' := by
  have hnot : ¬ e.Asserts := fun hasserts => by
    rw [hostStep_of_asserts hasserts] at h
    exact absurd h (by simp)
  obtain ⟨q, hq, hleaves⟩ : ∃ q, hostStep A H hmac p e = some q ∧ Leaves A H hmac p e q :=
    hostStep_of_not_asserts hnot
  rw [Option.some.inj (h.symm.trans hq)]
  exact ⟨hnot, hleaves⟩

end Step

/-! ### Runs -/

variable (A H hmac)

/-- A run of the host, or of the device and of what the host does for it. -/
theorem hostAfter_cases (es : List HostEvent) :
    (∃ e ∈ es, e.Asserts) ∧ hostAfter A H hmac es = none ∨
      (∀ e ∈ es, ¬ e.Asserts) ∧ ∃ p, hostAfter A H hmac es = some p ∧
        p.device = deviceAfter H hmac (es.filterMap HostEvent.device) := by
  induction es using List.reverseRecOn with
  | nil => exact Or.inr ⟨by simp, _, rfl, rfl⟩
  | append_singleton es e ih =>
      rw [hostAfter_concat]
      rcases ih with ⟨⟨x, hx, hasserts⟩, hnone⟩ | ⟨hnot, p, hsome, hdevice⟩
      · exact Or.inl ⟨⟨x, List.mem_append_left _ hx, hasserts⟩, by rw [hnone]; rfl⟩
      · rw [hsome, Option.bind_some]
        by_cases hasserts : e.Asserts
        · exact Or.inl ⟨⟨e, by simp, hasserts⟩, hostStep_of_asserts hasserts⟩
        · obtain ⟨p', hstep, hleaves⟩ := hostStep_of_not_asserts (A := A) (H := H) (p := p) hasserts
          refine Or.inr ⟨fun x hx => ?_, p', hstep, ?_⟩
          · rcases List.mem_append.mp hx with hx | hx
            · exact hnot x hx
            · exact List.mem_singleton.mp hx ▸ hasserts
          · rw [hleaves.device, hdevice]
            cases he : e.device with
            | none =>
                rw [List.filterMap_append, List.filterMap_cons_none he, List.filterMap_nil,
                  List.append_nil]
                rfl
            | some d =>
                rw [List.filterMap_append, List.filterMap_cons_some he, List.filterMap_nil,
                  deviceAfter_concat]
                rfl

/-- **A run of the host is a run of the device.** The host runs through every sequence of
events, in whatever order they come and whatever its functions return, unless an assertion
fails; and then the security module and the business logic are where the events that mean
something to them have brought the device. -/
theorem host_refines_device (es : List HostEvent) :
    (hostAfter A H hmac es = none ↔ ∃ e ∈ es, e.Asserts) ∧
      ∀ p ∈ hostAfter A H hmac es,
        p.device = deviceAfter H hmac (es.filterMap HostEvent.device) := by
  rcases hostAfter_cases A H hmac es with ⟨hasserts, hnone⟩ | ⟨hnot, p, hsome, hdevice⟩
  · rw [hnone]
    exact ⟨iff_of_true rfl hasserts, by simp⟩
  · rw [hsome]
    refine ⟨iff_of_false (by simp) ?_, ?_⟩
    · rintro ⟨e, he, hasserts⟩
      exact hnot e he hasserts
    · rintro p' hp'
      obtain rfl := Option.some.inj hp'
      exact hdevice

/-! ### On the air -/

/-- The host comes in sync, and finds an address to advertise with. -/
def HostEvent.Syncs : HostEvent → Prop
  | .sync _ inferAuto _ => inferAuto = 0
  | _ => False

variable {A H hmac}

/-- Whatever ends advertising makes the callback advertise again, except a reset. -/
theorem active_report_or_attempts (hA : A.Documented) {s : σ} (hs : A.active s = true)
    {e : HostEvent} (hreset : e ≠ .reset) : A.active (A.report s e) = true ∨ e.Attempts := by
  by_cases hattempts : e.Attempts
  · exact Or.inr hattempts
  · refine Or.inl (hA.report s e ?_ ?_ hreset hs)
    · rintro status h codes rfl
      exact hattempts trivial
    · rintro codes rfl
      exact hattempts trivial

variable (H hmac) in
/-- **When the device stays on the air.** For every host with the documented behaviour, and
along every run: the host advertises at all times from a sync on until the next reset, however
many connections come and go, exactly if it accepts the attempts that the callbacks make while
it does not advertise. -/
theorem on_air_iff (hA : A.Documented) (es : List HostEvent) :
    (∀ pre, pre <+: es → Since HostEvent.Syncs (· = .reset) pre →
        ∀ p ∈ hostAfter A H hmac pre, A.active p.host = true) ↔
      ∀ pre e, pre ++ [e] <+: es → Since HostEvent.Syncs (· = .reset) (pre ++ [e]) →
        ∀ p ∈ hostAfter A H hmac pre, A.active (A.report p.host e) = false →
          e.Attempts → ¬ e.Asserts → e.Accepted := by
  constructor
  · intro honair pre e hpre hsince p hp hidle hattempts hnot
    obtain ⟨p', hstep, hleaves⟩ := hostStep_of_not_asserts (A := A) (H := H) (p := p) hnot
    have hp' : hostAfter A H hmac (pre ++ [e]) = some p' := by
      rw [hostAfter_concat, Option.mem_def.mp hp]
      exact hstep
    rcases (hleaves.active hA).mp (honair _ hpre hsince p' hp') with haccepted | hactive
    · exact haccepted.2
    · exact absurd (hactive.symm.trans hidle) (by simp)
  · intro haccepts pre hpre hsince p' hp'
    induction pre using List.reverseRecOn generalizing p' with
    | nil => exact absurd hsince not_since_nil
    | append_singleton pre e ih =>
        rw [hostAfter_concat] at hp'
        obtain ⟨p, hp, hstep⟩ := Option.bind_eq_some_iff.mp hp'
        obtain ⟨hnot, hleaves⟩ := leaves_of_hostStep hstep
        rw [hleaves.active hA]
        by_cases hactive : A.active (A.report p.host e) = true
        · exact Or.inr hactive
        · -- the host has just gone off the air, or is in sync again
          have hattempts : e.Attempts := by
            rcases since_concat_iff.mp hsince with hsyncs | ⟨hsince', hreset⟩
            · match e, hsyncs with
              | .sync _ _ _, hinfer => exact hinfer
            · have hon := ih ((List.prefix_append pre [e]).trans hpre) hsince' p hp
              exact (active_report_or_attempts hA hon hreset).resolve_left hactive
          exact Or.inl ⟨hattempts, haccepts pre e hpre hsince p hp
            (Bool.eq_false_of_not_eq_true hactive) hattempts hnot⟩

/-- A host that knows whether it advertises, and nothing else. -/
def flagHost : AdvHost Bool where
  boot := false
  active := id
  report s
    | .gap (.connect _ _) _ | .gap .advComplete _ | .reset => false
    | _ => s
  setFields s _ := s
  start s rc := s || decide (rc = 0)

/-- Such a host behaves as documented. -/
theorem documented_flagHost : flagHost.Documented where
  report s e hconnect hcomplete hreset hs := by
    match e with
    | .gap (.connect status h) codes => exact absurd rfl (hconnect status h codes)
    | .gap .advComplete codes => exact absurd rfl (hcomplete codes)
    | .reset => exact absurd rfl hreset
    | .gap (.disconnect _) _ | .gap (.connUpdate _) _ | .gap (.encChange _) _
    | .gap (.repeatPairing _) _ | .gap .subscribe _ | .gap .mtu _ | .gap .other _
    | .sync _ _ _ | .access _ | .tick _ | .dequeue => exact hs
  setFields _ _ := rfl
  started s := Bool.or_true s
  refused s rc hrc := by
    change (s || decide (rc = 0)) = s
    rw [decide_eq_false hrc, Bool.or_false]

/-- The host comes in sync, and a client connects and goes again: the attempt that is made then
is refused, since the host advertises already. -/
def comeAndGo : List HostEvent :=
  [.sync 0 0 { words := Vector.replicate 8 0 },
    .gap (.connect 0 7) { words := Vector.replicate 8 0 },
    .gap (.disconnect 7) { advStart := bleHsEbusy, words := Vector.replicate 8 0 }]

/-- The host is on the air again, although it refuses the second attempt. -/
theorem on_air_iff_comeAndGo :
    ∃ p, hostAfter flagHost sampleHandles sampleHmac comeAndGo = some p ∧ p.host = true := by
  have hsince : Since HostEvent.Syncs (· = .reset) comeAndGo :=
    ⟨[], _, _, rfl, rfl, by simp⟩
  refine ⟨_, rfl, (on_air_iff sampleHandles sampleHmac documented_flagHost comeAndGo).mpr ?_
    comeAndGo List.prefix_rfl hsince _ rfl⟩
  rintro pre e ⟨post, hpost⟩ - p hp hidle - -
  rw [comeAndGo, List.append_assoc, List.singleton_append] at hpost
  match pre with
  | [] =>
      obtain ⟨rfl, -⟩ := List.cons.inj hpost
      exact ⟨rfl, rfl⟩
  | [x] =>
      obtain ⟨rfl, -⟩ := List.cons.inj (List.cons.inj hpost).2
      exact ⟨rfl, rfl⟩
  | [x, y] =>
      -- the host still advertises when the client goes
      obtain ⟨rfl, htail⟩ := List.cons.inj hpost
      obtain ⟨rfl, hlast⟩ := List.cons.inj htail
      obtain ⟨rfl, -⟩ := List.cons.inj hlast
      obtain rfl := Option.some.inj hp
      exact absurd hidle (by decide +kernel)
  | x :: y :: z :: pre => exact absurd (congrArg List.length hpost) (by simp)

/-! ### More connections than slots -/

variable (H hmac)

variable {H hmac} in
/-- A step opens no session for a connection, unless it comes up. -/
theorem sessionOf_deviceStep_none {d : Device} (hs : TableOk d.sec) {g : UInt16} (hg : g ≠ 0)
    {e : DeviceEvent} (he : ∀ words, e ≠ .connect 0 g words) (hnone : sessionOf d.sec g = none) :
    sessionOf (deviceStep H hmac d e).1.sec g = none := by
  rw [sec_deviceStep]
  cases hcall : secCallOf H d e with
  | none => exact hnone
  | some call =>
      dsimp only
      rw [(hs.secStep hmac call).2 g hg]
      rcases secCallOf_cases hcall with ⟨g', words, rfl, rfl⟩ | ⟨g', rfl, rfl⟩ | ⟨a, got, rfl, rfl⟩
      · have hne : g' ≠ g := fun hgg => he words (by rw [hgg])
        dsimp only [sessionStep]
        rw [if_neg fun hc => hne hc.1, hnone]
      · dsimp only [sessionStep]
        rw [hnone, ite_self]
      · dsimp only [sessionStep]
        rw [hnone, Option.map_none]

/-- Its response to a challenge is refused. -/
theorem writeChr_of_no_session {d : Device} {a : Access} (hattr : a.attrHandle = H.authCharHandle)
    (hnone : sessionOf d.sec a.connHandle = none) :
    (writeChr H hmac d a).1 = d ∧ (writeChr H hmac d a).2 ≠ .success := by
  rw [writeChr, if_pos hattr]
  cases gattSvrWriteFlat a 32 32 with
  | error rc => exact ⟨rfl, by simp⟩
  | ok got =>
      have hrefused : secHandleAuthResponse hmac d.sec d.now a.connHandle (some got) =
          (d.sec, false) := by
        rw [secHandleAuthResponse_eq, sessionOf_eq_none_iff.mp hnone]
      dsimp only
      rw [hrefused, if_neg Bool.false_ne_true]
      split_ifs <;> exact ⟨rfl, by simp⟩

/-- A connection without a session has no part in the protocol. -/
theorem refused_of_no_session {d : Device} {a : Access}
    (hnone : sessionOf d.sec a.connHandle = none) :
    secIsConnAuthenticated d.sec d.now a.connHandle = false ∧
      (a.op = .readChr → a.attrHandle = H.authCharHandle →
        (gattSvcAccess H hmac d a).2.status = .unlikely) ∧
      (a.op = .writeChr →
        (gattSvcAccess H hmac d a).1 = d ∧ (gattSvcAccess H hmac d a).2.status ≠ .success) := by
  have hauth : secIsConnAuthenticated d.sec d.now a.connHandle = false := by
    rw [secIsConnAuthenticated_eq, hnone]
    rfl
  refine ⟨hauth, fun hop hattr => ?_, fun hop => ?_⟩
  · rw [gattSvcAccess, hop]
    dsimp only
    rw [readChr, if_pos hattr, secGetAuthValue_eq, hnone]
    rfl
  · rw [gattSvcAccess, hop]
    dsimp only
    rcases writeChr_cases H hmac d a with
      ⟨rc, hrc, hw⟩ | ⟨hattr, got, hw⟩ | ⟨c, v, -, htrue, -⟩ | ⟨-, htrue, -⟩
    · rw [hw]
      exact ⟨rfl, hrc⟩
    · exact writeChr_of_no_session H hmac hattr hnone
    · exact absurd (htrue.symm.trans hauth) (by simp)
    · exact absurd (htrue.symm.trans hauth) (by simp)

/-- **Locked out.** If a connection comes up while `find_entry` and `alloc_entry` find no slot
for it, then from there on, until it comes up again, and whichever connections leave in the
meantime: it is not authenticated, it cannot read a challenge, and each of its writes is
refused and does nothing. -/
theorem locked_out (pre post : List DeviceEvent) {g : UInt16} (hg : g ≠ 0) (words : RandomWords)
    (hfull : findEntry (deviceAfter H hmac pre).sec g = none ∧
      allocEntry (deviceAfter H hmac pre).sec g = none)
    (hpost : ∀ words', .connect 0 g words' ∉ post) {a : Access} (ha : a.connHandle = g) :
    let d := deviceAfter H hmac (pre ++ .connect 0 g words :: post)
    secIsConnAuthenticated d.sec d.now g = false ∧
      (a.op = .readChr → a.attrHandle = H.authCharHandle →
        (gattSvcAccess H hmac d a).2.status = .unlikely) ∧
      (a.op = .writeChr →
        (gattSvcAccess H hmac d a).1 = d ∧ (gattSvcAccess H hmac d a).2.status ≠ .success) := by
  have hnone : sessionOf (deviceAfter H hmac (pre ++ .connect 0 g words :: post)).sec g = none := by
    induction post using List.reverseRecOn with
    | nil =>
        rw [deviceAfter_concat, deviceStep, if_pos rfl]
        dsimp only
        rw [secOnConnect, hfull.1]
        dsimp only
        rw [hfull.2]
        exact sessionOf_eq_none_iff.mpr hfull.1
    | append_singleton post e ih =>
        rw [← List.cons_append, ← List.append_assoc, deviceAfter_concat]
        refine sessionOf_deviceStep_none (tableOk_deviceAfter H hmac _) hg (fun words' he => ?_)
          (ih fun words' hmem => hpost words' (List.mem_append_left _ hmem))
        exact hpost words' (by simp [he])
  subst ha
  exact refused_of_no_session H hmac hnone

/-- Three clients come up. -/
def threeClients : List DeviceEvent :=
  [.connect 0 1 (Vector.replicate 8 0), .connect 0 2 (Vector.replicate 8 0),
    .connect 0 3 (Vector.replicate 8 0)]

/-- A fourth client does not get in, although the other three are gone. -/
theorem locked_out_fourth :
    secIsConnAuthenticated (deviceAfter sampleHandles sampleHmac (threeClients ++
      [.connect 0 4 (Vector.replicate 8 0), .disconnect 1, .disconnect 2, .disconnect 3])).sec 0 4 =
        false :=
  (locked_out sampleHandles sampleHmac threeClients [.disconnect 1, .disconnect 2, .disconnect 3]
    (g := 4) (by decide) (Vector.replicate 8 0) (by decide +kernel) (by simp)
    (a := sampleAnswer 4) rfl).1

end AirShifter
