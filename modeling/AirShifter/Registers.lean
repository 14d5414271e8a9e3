import AirShifter.Challenge

/-!
# The Control Characteristics as Registers

To its clients a control characteristic is a register: a write that is answered with
status 0 is the value from then on, and a read of it, or of the status characteristic that
mirrors it, returns the bytes of the latest such write. The access callback converts the
bytes to an `int` before it calls the setter, and the setter ignores negative numbers. So
the speed and the angle are registers of 31 bits behind an interface of 32.

## Main results

* `bytes_deviceStep`: what a step of a run without packets does to the characteristics.
* `bytes_bizSet`: what a setter leaves in the variables of its control.
* `registers_read_back_iff`: the characteristics behave as registers exactly along the runs
  that write no speed and no angle from `2 ^ 31` on.
-/

open CBytes Runs

namespace AirShifter

variable (H : CharHandles) (hmac : Bytes → Bytes → Vector UInt8 hmacSha256Len)

/-! ### Registers -/

/-- The bytes in a packet buffer; its length is a 16-bit number. -/
def Access.packet (a : Access) : Bytes :=
  a.payload.take (a.payload.length % 2 ^ 16)

/-- The bytes of a write of the control `c` that was answered with status 0. -/
def acknowledged (c : Control) : DeviceEvent × Option AttResponse → Option Bytes
  | (.access a, some r) =>
    if a.op = .writeChr ∧ a.attrHandle = H.ctrlHandle c ∧ r.status = .success then some a.packet
    else none
  | _ => none

/-- The register of the control `c` after a run: the bytes of the latest write that was
answered with status 0, zero before the first one. -/
def register (es : List DeviceEvent) (c : Control) : Bytes :=
  (latest (acknowledged H c) (answers (deviceStep H hmac) bootDevice es)).getD
    (List.replicate (ctrlSize c) 0)

/-- After the run every read of a control characteristic, or of its status characteristic,
returns the register. -/
def ReadsBack (es : List DeviceEvent) : Prop :=
  ∀ c a, a.op = .readChr → a.attrHandle = H.ctrlHandle c ∨ a.attrHandle = H.statHandle c →
    (gattSvcAccess H hmac (deviceAfter H hmac es) a).2 = appendResponse a (register H hmac es c)

/-- The event is a write of the packet characteristic. -/
def IsPacketWrite (e : DeviceEvent) : Prop :=
  ∃ a, e = .access a ∧ a.op = .writeChr ∧ a.attrHandle = H.packetHandle

/-- The event is a write of the bytes `v` to the control characteristic of `c`, by an
authenticated connection and of the right length. -/
def WritesControl (d : Device) (e : DeviceEvent) (c : Control) (v : Bytes) : Prop :=
  ∃ a, e = .access a ∧ a.op = .writeChr ∧ a.attrHandle = H.ctrlHandle c ∧
    secIsConnAuthenticated d.sec d.now a.connHandle = true ∧
    gattSvrWriteFlat a (ctrlSize c) (ctrlSize c) = .ok v

/-- The bytes are a value that the setter of `c` accepts. -/
def Fits : Control → Bytes → Prop
  | .rpm, v | .angle, v => (leWord v).toNat < 2 ^ 31
  | .light, _ | .power, _ => True

variable {H hmac}

/-! ### Reading a characteristic -/

section Handles

variable (c : Control)

/-- Among distinct handles of the controls, the one of `c` is found for `c`. -/
theorem find_all_of_nodup {handle : Control → UInt16} (h : (Control.all.map handle).Nodup) :
    Control.all.find? (fun d => handle c = handle d) = some c := by
  have hfound : (Control.all.find? fun d => handle c = handle d).isSome = true :=
    List.find?_isSome.mpr ⟨c, Control.mem_all c, by simp⟩
  obtain ⟨d, hd⟩ := Option.isSome_iff_exists.mp hfound
  have hsame : handle c = handle d := by simpa using List.find?_some hd
  rw [hd, List.inj_on_of_nodup_map h (Control.mem_all d) (Control.mem_all c) hsame.symm]

/-- The handles of the controls are distinct. -/
theorem CharHandles.nodup_controls (H : CharHandles) :
    (Control.all.map H.ctrlHandle ++ Control.all.map H.statHandle).Nodup :=
  (List.nodup_cons.mp (List.nodup_cons.mp H.nodup).2).2

/-- A control is found by the handle of its variable. -/
theorem CharHandles.ctrlOf_ctrlHandle : H.ctrlOf (H.ctrlHandle c) = some c :=
  find_all_of_nodup c H.nodup_controls.of_append_left

/-- A control is found by the handle of its status. -/
theorem CharHandles.statOf_statHandle : H.statOf (H.statHandle c) = some c :=
  find_all_of_nodup c H.nodup_controls.of_append_right

/-- The handle of a status is that of no variable. -/
theorem CharHandles.ctrlOf_statHandle : H.ctrlOf (H.statHandle c) = none := by
  refine List.find?_eq_none.mpr fun d hd hsame => ?_
  have hctrl : H.statHandle c ∈ Control.all.map H.ctrlHandle :=
    List.mem_map.mpr ⟨d, hd, (of_decide_eq_true hsame).symm⟩
  exact List.disjoint_of_nodup_append H.nodup_controls hctrl
    (List.mem_map_of_mem (Control.mem_all c))

/-- It is not the handle for authentication, either. -/
theorem CharHandles.statHandle_ne_auth : H.statHandle c ≠ H.authCharHandle := by
  have hnot := (List.nodup_cons.mp H.nodup).1
  rintro h
  exact hnot (by simp [← h, Control.mem_all])

/-- The handle of a variable is not that for packets. -/
theorem CharHandles.ctrlHandle_ne_packet : H.ctrlHandle c ≠ H.packetHandle := by
  have hnot := (List.nodup_cons.mp (List.nodup_cons.mp H.nodup).2).1
  rintro h
  exact hnot (by simp [← h, Control.mem_all])

/-- A write to the handle of a variable can have an effect. -/
theorem CharHandles.acts_ctrlHandle : H.Acts (H.ctrlHandle c) :=
  Or.inl ⟨c, rfl⟩

end Handles

/-- The characteristics read the variables of their control. -/
theorem readChr_control {d : Device} {a : Access} (c : Control) :
    (a.attrHandle = H.ctrlHandle c →
      readChr H d a = appendResponse a (d.biz.controls.ctrlBytes c)) ∧
    (a.attrHandle = H.statHandle c →
      readChr H d a = appendResponse a (d.biz.controls.statBytes c)) := by
  constructor
  · intro hattr
    rw [readChr, hattr, if_neg (CharHandles.ne_auth_of_acts (CharHandles.acts_ctrlHandle c)),
      CharHandles.ctrlOf_ctrlHandle]
  · intro hattr
    rw [readChr, hattr, if_neg (CharHandles.statHandle_ne_auth c), CharHandles.ctrlOf_statHandle,
      CharHandles.statOf_statHandle]

/-- The reads return the register exactly when both variables hold it. -/
theorem readsBack_iff (es : List DeviceEvent) : ReadsBack H hmac es ↔ ∀ c,
    (deviceAfter H hmac es).biz.controls.ctrlBytes c = register H hmac es c ∧
      (deviceAfter H hmac es).biz.controls.statBytes c = register H hmac es c := by
  constructor
  · intro h c
    have hctrl := h c { op := .readChr, connHandle := 0, attrHandle := H.ctrlHandle c } rfl
      (Or.inl rfl)
    have hstat := h c { op := .readChr, connHandle := 0, attrHandle := H.statHandle c } rfl
      (Or.inr rfl)
    rw [gattSvcAccess] at hctrl hstat
    dsimp only at hctrl hstat
    rw [(readChr_control c).1 rfl] at hctrl
    rw [(readChr_control c).2 rfl] at hstat
    exact ⟨(AttResponse.mk.inj hctrl).2, (AttResponse.mk.inj hstat).2⟩
  · rintro h c a hop (hattr | hattr)
    · rw [gattSvcAccess, hop]
      dsimp only
      rw [(readChr_control c).1 hattr, (h c).1]
    · rw [gattSvcAccess, hop]
      dsimp only
      rw [(readChr_control c).2 hattr, (h c).2]

/-! ### Writing a characteristic -/

/-- A buffer that is copied out has the right length. -/
theorem gattSvrWriteFlat_eq_ok {a : Access} {n : ℕ} {v : Bytes}
    (h : gattSvrWriteFlat a n n = .ok v) : v = a.packet ∧ v.length = n := by
  rw [gattSvrWriteFlat] at h
  split_ifs at h with hlen
  obtain rfl := Except.ok.inj h
  refine ⟨rfl, ?_⟩
  rw [List.length_take]
  omega

/-- A word is read back from its signed value. -/
theorem ofInt_toInt (w : UInt32) : UInt32.ofInt w.toBitVec.toInt = w := by
  have hlt := w.toNat_lt
  rw [← UInt32.toNat_inj, UInt32.ofInt, UInt32.toNat_ofNat', BitVec.toInt_eq_toNat_cond,
    UInt32.toNat_toBitVec]
  split_ifs <;> omega

/-- A byte is read back from its value. -/
theorem ofInt_toNat (b : UInt8) : UInt8.ofInt (b.toNat : ℤ) = b := by
  have hlt := b.toNat_lt
  rw [← UInt8.toNat_inj, UInt8.ofInt, UInt8.toNat_ofNat']
  omega

/-- A word is negative from 2^31 on. -/
theorem toInt_neg_iff (w : UInt32) : w.toBitVec.toInt < 0 ↔ ¬ w.toNat < 2 ^ 31 := by
  have hlt := w.toNat_lt
  rw [BitVec.toInt_eq_toNat_cond, UInt32.toNat_toBitVec]
  split_ifs <;> omega

/-- **The setter of a control** leaves the written bytes in both of its variables if they
fit; otherwise it does nothing. -/
theorem bytes_bizSet (s : Controls) {c : Control} {v : Bytes} (hlen : v.length = ctrlSize c) :
    (Fits c v → (bizSet s c (ctrlArg c v)).ctrlBytes c = v ∧
      (bizSet s c (ctrlArg c v)).statBytes c = v) ∧
    (¬ Fits c v → bizSet s c (ctrlArg c v) = s) := by
  have hbyte : v.length = 1 → [v.headD 0] = v := by
    intro h1
    obtain ⟨b, rfl⟩ := List.length_eq_one_iff.mp h1
    rfl
  cases c with
  | rpm =>
      refine ⟨fun hfits => ?_, fun hnot => if_pos ((toInt_neg_iff _).mpr hnot)⟩
      have hpos : ¬ ctrlArg .rpm v < 0 := (toInt_neg_iff _).not.mpr (not_not.mpr hfits)
      rw [bizSet, bizSetRpm, if_neg hpos, ctrlArg, ofInt_toInt]
      exact ⟨leBytes_leWord hlen, leBytes_leWord hlen⟩
  | angle =>
      refine ⟨fun hfits => ?_, fun hnot => if_pos ((toInt_neg_iff _).mpr hnot)⟩
      have hpos : ¬ ctrlArg .angle v < 0 := (toInt_neg_iff _).not.mpr (not_not.mpr hfits)
      rw [bizSet, bizSetAngle, if_neg hpos, ctrlArg, ofInt_toInt]
      exact ⟨leBytes_leWord hlen, leBytes_leWord hlen⟩
  | light =>
      refine ⟨fun _ => ?_, fun hnot => absurd trivial hnot⟩
      rw [bizSet, bizSetLight, ctrlArg, if_neg (by omega), ofInt_toNat]
      exact ⟨hbyte hlen, hbyte hlen⟩
  | power =>
      refine ⟨fun _ => ?_, fun hnot => absurd trivial hnot⟩
      rw [bizSet, bizSetPower, ctrlArg, if_neg (by omega), ofInt_toNat]
      exact ⟨hbyte hlen, hbyte hlen⟩

/-- A setter leaves the bytes of the other controls alone. -/
theorem bytes_bizSet_of_ne (s : Controls) {c d : Control} (h : d ≠ c) (v : ℤ) :
    (bizSet s c v).ctrlBytes d = s.ctrlBytes d ∧ (bizSet s c v).statBytes d = s.statBytes d := by
  cases c <;> cases d <;> first
    | exact absurd rfl h
    | (dsimp only [bizSet, bizSetRpm, bizSetAngle, bizSetLight, bizSetPower]
       split_ifs <;> exact ⟨rfl, rfl⟩)

/-! ### A step -/

section Step

variable {d : Device} {e : DeviceEvent} {c c' : Control} {v v' : Bytes}

/-- A write that is accepted has the size of the variable. -/
theorem WritesControl.length_eq (h : WritesControl H d e c v) : v.length = ctrlSize c := by
  obtain ⟨a, -, -, -, -, hflat⟩ := h
  exact (gattSvrWriteFlat_eq_ok hflat).2

/-- A step writes at most one control. -/
theorem WritesControl.unique (h : WritesControl H d e c v) (h' : WritesControl H d e c' v') :
    c' = c ∧ v' = v := by
  obtain ⟨a, rfl, -, hattr, -, hflat⟩ := h
  obtain ⟨b, hab, -, hattr', -, hflat'⟩ := h'
  obtain rfl : a = b := DeviceEvent.access.inj hab
  obtain rfl : c' = c := by
    have hctrl := CharHandles.ctrlOf_ctrlHandle (H := H) c
    rw [← hattr, hattr', CharHandles.ctrlOf_ctrlHandle] at hctrl
    exact Option.some.inj hctrl
  rw [hflat] at hflat'
  exact ⟨rfl, (Except.ok.inj hflat').symm⟩

variable (hmac) in
/-- **What a write does**: it calls the setter, and is answered with status 0. -/
theorem WritesControl.deviceStep_eq (h : WritesControl H d e c v) :
    deviceStep H hmac d e =
      ({ d with biz := bizCall false d.biz (.set c (ctrlArg c v)) }, some ⟨.success, []⟩) := by
  obtain ⟨a, rfl, hop, hattr, hauth, hflat⟩ := h
  have hne : a.attrHandle ≠ H.authCharHandle :=
    CharHandles.ne_auth_of_acts (Or.inl ⟨c, hattr⟩)
  have hctrl : H.ctrlOf a.attrHandle = some c := by rw [hattr, CharHandles.ctrlOf_ctrlHandle]
  rw [deviceStep, gattSvcAccess, hop]
  dsimp only
  rw [writeChr, if_neg hne, hctrl]
  dsimp only
  rw [hauth, Bool.not_true, if_neg Bool.false_ne_true, hflat]
  rfl

/-- **Nothing else changes the controls**, as long as no packet is written. -/
theorem controls_of_not_writes (hdirect : ¬ IsPacketWrite H e)
    (h : ∀ c v, ¬ WritesControl H d e c v) :
    (deviceStep H hmac d e).1.biz.controls = d.biz.controls := by
  by_contra hne
  obtain ⟨conn, ⟨a, rfl, hop, -, rfl⟩, -⟩ := write_of_hasEffect (Or.inl hne)
  refine hne ?_
  rw [deviceStep, gattSvcAccess, hop]
  dsimp only
  rcases writeChr_cases H hmac d a with
    ⟨rc, -, hw⟩ | ⟨-, got, hw⟩ | ⟨c, v, hctrl, hauth, hflat, -⟩ | ⟨hpacket, -⟩
  · rw [hw]
  · rw [hw]
  · exact absurd ⟨a, rfl, hop, CharHandles.ctrlHandle_of_ctrlOf hctrl, hauth, hflat⟩ (h c v)
  · exact absurd ⟨a, rfl, hop, hpacket⟩ hdirect

variable (hmac) in
/-- **A write is acknowledged** for its control, with the bytes it carries, and nothing
else is. -/
theorem acknowledged_iff :
    acknowledged H c (e, (deviceStep H hmac d e).2) = some v ↔ WritesControl H d e c v := by
  constructor
  · intro h
    cases e with
    | connect | disconnect | tick | dequeue => exact absurd h (by simp [acknowledged])
    | access a =>
        rw [deviceStep] at h
        dsimp only [acknowledged] at h
        split_ifs at h with hack
        obtain ⟨hop, hattr, hstatus⟩ := hack
        rw [gattSvcAccess, hop] at hstatus
        dsimp only at hstatus
        rcases writeChr_cases H hmac d a with
          ⟨rc, hrc, hw⟩ | ⟨hauth, -⟩ | ⟨c', v', hctrl, hauth, hflat, -⟩ | ⟨hpacket, -⟩
        · rw [hw] at hstatus
          exact absurd hstatus hrc
        · exact absurd hauth (CharHandles.ne_auth_of_acts (Or.inl ⟨c, hattr⟩))
        · rw [hattr, CharHandles.ctrlOf_ctrlHandle] at hctrl
          obtain rfl : c = c' := Option.some.inj hctrl
          obtain ⟨rfl, -⟩ := gattSvrWriteFlat_eq_ok hflat
          exact ⟨a, rfl, hop, hattr, hauth, hflat.trans (congrArg _ (Option.some.inj h))⟩
        · rw [hattr] at hpacket
          exact absurd hpacket (CharHandles.ctrlHandle_ne_packet c)
  · intro h
    rw [h.deviceStep_eq hmac]
    obtain ⟨a, rfl, hop, hattr, -, hflat⟩ := h
    obtain ⟨rfl, -⟩ := gattSvrWriteFlat_eq_ok hflat
    exact if_pos ⟨hop, hattr, rfl⟩

/-- **The variables of a control after a step**: those of a write that fits, or what they
were. -/
theorem bytes_deviceStep (hdirect : ¬ IsPacketWrite H e) (c : Control) :
    (∃ v, WritesControl H d e c v ∧ Fits c v ∧
      (deviceStep H hmac d e).1.biz.controls.ctrlBytes c = v ∧
      (deviceStep H hmac d e).1.biz.controls.statBytes c = v) ∨
    ((∀ v, WritesControl H d e c v → ¬ Fits c v) ∧
      (deviceStep H hmac d e).1.biz.controls.ctrlBytes c = d.biz.controls.ctrlBytes c ∧
      (deviceStep H hmac d e).1.biz.controls.statBytes c = d.biz.controls.statBytes c) := by
  by_cases hwrites : ∃ c' v, WritesControl H d e c' v
  · obtain ⟨c', v, hw⟩ := hwrites
    rw [hw.deviceStep_eq hmac]
    dsimp only [bizCall]
    by_cases hc : c = c'
    · subst hc
      obtain ⟨hset, hskip⟩ := bytes_bizSet d.biz.controls hw.length_eq
      by_cases hfits : Fits c v
      · exact Or.inl ⟨v, hw, hfits, hset hfits⟩
      · refine Or.inr ⟨fun v' hw' => ?_, by rw [hskip hfits], by rw [hskip hfits]⟩
        rwa [(hw.unique hw').2]
    · refine Or.inr ⟨fun v' hw' => absurd (hw.unique hw').1 hc, ?_⟩
      exact bytes_bizSet_of_ne d.biz.controls hc _
  · rw [controls_of_not_writes hdirect fun c' v hw => hwrites ⟨c', v, hw⟩]
    exact Or.inr ⟨fun v hw => absurd ⟨c, v, hw⟩ hwrites, rfl, rfl⟩

end Step

/-! ### Runs -/

/-- The last write counts, if it is acknowledged. -/
theorem register_concat (es : List DeviceEvent) (e : DeviceEvent) (c : Control) :
    register H hmac (es ++ [e]) c =
      (acknowledged H c (e, (deviceStep H hmac (deviceAfter H hmac es) e).2)).getD
        (register H hmac es c) := by
  rw [register, answers_concat, latest_concat, register, ← deviceAfter]
  cases acknowledged H c _ <;> rfl

/-- The values of the controls fit, along every run without packets. -/
theorem fits_deviceAfter {es : List DeviceEvent} (hdirect : ∀ e ∈ es, ¬ IsPacketWrite H e)
    (c : Control) : Fits c ((deviceAfter H hmac es).biz.controls.ctrlBytes c) := by
  induction es using List.reverseRecOn with
  | nil =>
      have hzero : (leWord (leBytes 0)).toNat < 2 ^ 31 := by decide
      cases c with
      | rpm | angle => exact hzero
      | light | power => trivial
  | append_singleton es e ih =>
      rw [deviceAfter_concat]
      rcases bytes_deviceStep (hdirect e (by simp)) c with ⟨v, -, hfits, hctrl, -⟩ | ⟨-, hctrl, -⟩
      · rwa [hctrl]
      · rw [hctrl]
        exact ih fun x hx => hdirect x (List.mem_append_left _ hx)

/-- A run whose writes all fit reads back. -/
theorem readsBack_of_fits {es : List DeviceEvent}
    (h : Along (fun d e => (deviceStep H hmac d e).1) bootDevice
      (fun _ d e => ¬ IsPacketWrite H e ∧ ∀ c v, WritesControl H d e c v → Fits c v) es) :
    ReadsBack H hmac es := by
  rw [readsBack_iff]
  refine foldl_history_along (I := fun es (d : Device) => ∀ c,
    d.biz.controls.ctrlBytes c = register H hmac es c ∧
      d.biz.controls.statBytes c = register H hmac es c) ?_ ?_ h
  · intro c
    cases c <;> exact ⟨rfl, rfl⟩
  · rintro pre e ⟨hdirect, hfits⟩ ih c
    rw [register_concat]
    rcases bytes_deviceStep hdirect c with ⟨v, hw, -, hctrl, hstat⟩ | ⟨hno, hctrl, hstat⟩
    · rw [(acknowledged_iff hmac).mpr hw, Option.getD_some]
      exact ⟨hctrl, hstat⟩
    · have hnone : acknowledged H c (e, (deviceStep H hmac (deviceAfter H hmac pre) e).2) =
          none := by
        rw [Option.eq_none_iff_forall_ne_some]
        exact fun v hack =>
          hno v ((acknowledged_iff hmac).mp hack) (hfits c v ((acknowledged_iff hmac).mp hack))
      rw [hnone, Option.getD_none]
      exact ⟨hctrl.trans (ih c).1, hstat.trans (ih c).2⟩

variable (H hmac) in
/-- **The control characteristics are registers exactly as far as the setters go.** Along
a run without packets every read returns the register, in every state, if and only if no
authenticated write carries a speed or an angle from `2 ^ 31` on. -/
theorem registers_read_back_iff (es : List DeviceEvent)
    (hdirect : ∀ e ∈ es, ¬ IsPacketWrite H e) :
    (∀ pre, pre <+: es → ReadsBack H hmac pre) ↔
      Along (fun d e => (deviceStep H hmac d e).1) bootDevice
        (fun _ d e => ∀ c v, WritesControl H d e c v → Fits c v) es := by
  constructor
  · rintro h pre e post rfl c v hw
    -- the read right after the write returns its bytes, and all stored bytes fit
    have hread := ((readsBack_iff _).mp (h (pre ++ [e]) ⟨post, by simp⟩) c).1
    rw [← deviceAfter] at hw
    rw [register_concat, (acknowledged_iff hmac).mpr hw, Option.getD_some] at hread
    rw [← hread]
    refine fits_deviceAfter (fun x hx => hdirect x ?_) c
    rw [List.append_cons]
    exact List.mem_append_left _ hx
  · intro h pre hpre
    obtain ⟨post, rfl⟩ := hpre
    refine readsBack_of_fits fun p e q hpq => ⟨hdirect e ?_, h.of_append p e q hpq⟩
    rw [hpq]
    simp

/-- A write of the speed by handle 7. -/
def speedWrite (v : Bytes) : Access where
  op := .writeChr
  connHandle := 7
  attrHandle := 20
  payload := v

/-- Handle 7 authenticates and writes the speed. -/
def speedRun (v : Bytes) : List DeviceEvent :=
  completedRun 7 ++ [.access (speedWrite v)]

/-- No packet is written in the sample run. -/
theorem direct_speedRun (v : Bytes) : ∀ e ∈ speedRun v, ¬ IsPacketWrite sampleHandles e := by
  intro e he hpacket
  obtain ⟨a, rfl, -, hattr⟩ := hpacket
  simp only [speedRun, completedRun, List.mem_append, List.mem_cons, List.not_mem_nil, or_false,
    reduceCtorEq, false_or, DeviceEvent.access.injEq] at he
  rcases he with rfl | rfl
  · exact absurd (show (12 : UInt16) = 15 from hattr) (by decide)
  · exact absurd (show (20 : UInt16) = 15 from hattr) (by decide)

/-- The speed 261 is read back. -/
theorem registers_read_back_speed :
    ReadsBack sampleHandles sampleHmac (speedRun [5, 1, 0, 0]) := by
  refine (registers_read_back_iff sampleHandles sampleHmac (speedRun [5, 1, 0, 0])
    (direct_speedRun _)).mpr ?_ _ (List.prefix_refl _)
  rintro pre e post hes c v ⟨a, rfl, -, hattr, -, hflat⟩
  have ha : DeviceEvent.access a ∈ speedRun [5, 1, 0, 0] := by rw [hes]; simp
  simp only [speedRun, completedRun, List.mem_append, List.mem_cons, List.not_mem_nil, or_false,
    reduceCtorEq, false_or, DeviceEvent.access.injEq] at ha
  rcases ha with rfl | rfl
  · cases c <;> exact absurd hattr (by decide)
  · obtain ⟨rfl, -⟩ := gattSvrWriteFlat_eq_ok hflat
    cases c with
    | rpm => exact (by decide : (leWord [5, 1, 0, 0]).toNat < 2 ^ 31)
    | angle | light | power => exact absurd hattr (by decide)

/-- A read of the speed by handle 7. -/
def speedRead : Access where
  op := .readChr
  connHandle := 7
  attrHandle := 20

/-- **A large speed is acknowledged and lost**: the write of `2 ^ 32 - 1` is answered with
status 0, and the next read still returns zero. -/
theorem large_speed_lost :
    (∀ e ∈ speedRun [255, 255, 255, 255], ¬ IsPacketWrite sampleHandles e) ∧
      register sampleHandles sampleHmac (speedRun [255, 255, 255, 255]) .rpm =
        [255, 255, 255, 255] ∧
      (gattSvcAccess sampleHandles sampleHmac
        (deviceAfter sampleHandles sampleHmac (speedRun [255, 255, 255, 255])) speedRead).2 =
        ⟨.success, [0, 0, 0, 0]⟩ ∧
      ¬ ReadsBack sampleHandles sampleHmac (speedRun [255, 255, 255, 255]) := by
  have hread : (gattSvcAccess sampleHandles sampleHmac
      (deviceAfter sampleHandles sampleHmac (speedRun [255, 255, 255, 255])) speedRead).2 =
      ⟨.success, [0, 0, 0, 0]⟩ := by decide +kernel
  have hreg : register sampleHandles sampleHmac (speedRun [255, 255, 255, 255]) .rpm =
      [255, 255, 255, 255] := by decide +kernel
  refine ⟨direct_speedRun _, hreg, hread, fun h => ?_⟩
  have hback := h .rpm speedRead rfl (Or.inl rfl)
  rw [hread, hreg] at hback
  exact absurd hback (by decide)

end AirShifter
