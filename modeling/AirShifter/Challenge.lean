import AirShifter.AuthSoundness
import AirShifter.GattServer

/-!
# The Challenge Completes

Whether a connection that is up can read the nonce drawn at its connect, answer it, and
stay authenticated. The device drives the security module through the GAP handlers and
the auth characteristic; at most three connections are up at a time, so there is a slot
for each of them.

This holds for every connection whose handle is not 0. The slot of handle 0 counts as
free: the next connection takes it, and the lookup of handle 0 moves to any earlier slot
that becomes free. `ZeroKept` says that neither happens.

## Main results

* `sec_deviceAfter`: the session table of the device is that of a run of the security
  module.
* `sessionOf_connected`: what the table holds for a connection that is up.
* `challenge_completes`: a connection can complete its challenge; unconditionally for a
  non-zero handle, and for handle 0 in every run whose steps are `ZeroKept`.
* `challenge_lost_zero`: a run in which handle 0 is up but has no nonce to read.
-/

open CBytes SlotTable Runs

namespace AirShifter

variable (H : CharHandles) (hmac : Bytes → Bytes → Vector UInt8 hmacSha256Len)

/-! ### The device drives the security module -/

/-- The call of the security module that an event leads to, if it changes its state. -/
def secCallOf (d : Device) : DeviceEvent → Option TimedCall
  | .connect status h words => if status = 0 then some ⟨d.now, .onConnect h words⟩ else none
  | .disconnect h => some ⟨d.now, .clearConn h⟩
  | .access a =>
    if a.op = .writeChr ∧ a.attrHandle = H.authCharHandle then
      match gattSvrWriteFlat a 32 32 with
      | .error _ => none
      | .ok got =>
        if got.length = 32 then some ⟨d.now, .handleAuthResponse a.connHandle (some got)⟩
        else none
    else none
  | .tick _ | .dequeue => none

/-- A run of the device, and the calls of the security module in it. -/
def secRun (es : List DeviceEvent) : Device × List TimedCall :=
  es.foldl (fun p e => ((deviceStep H hmac p.1 e).1, p.2 ++ (secCallOf H p.1 e).toList))
    (bootDevice, [])

/-- The calls of the security module in a run of the device. -/
def secCallsOf (es : List DeviceEvent) : List TimedCall :=
  (secRun H hmac es).2

variable {H hmac}

/-- An access that is no write of the auth characteristic leaves the table alone. -/
theorem sec_gattSvcAccess_of_ne {d : Device} {a : Access}
    (h : ¬ (a.op = .writeChr ∧ a.attrHandle = H.authCharHandle)) :
    (gattSvcAccess H hmac d a).1.sec = d.sec := by
  rcases gattSvcAccess_cases H hmac d a with
    hsame | ⟨hop, hattr, -⟩ | ⟨-, -, -, calls, hbiz⟩
  · rw [hsame]
  · exact absurd ⟨hop, hattr⟩ h
  · rw [hbiz]

/-- **One event** is one call of the security module, or none. -/
theorem sec_deviceStep (d : Device) (e : DeviceEvent) :
    (deviceStep H hmac d e).1.sec =
      match secCallOf H d e with
      | none => d.sec
      | some call => (secStep hmac d.sec call).1 := by
  cases e with
  | connect status h words =>
      dsimp only [deviceStep, secCallOf]
      split_ifs <;> rfl
  | disconnect h => rfl
  | tick now =>
      dsimp only [deviceStep, secCallOf]
      split_ifs <;> rfl
  | dequeue => rfl
  | access a =>
      dsimp only [deviceStep, secCallOf]
      split_ifs with hauth
      · obtain ⟨hop, hattr⟩ := hauth
        rw [gattSvcAccess, hop]
        dsimp only
        rw [writeChr, if_pos hattr]
        cases gattSvrWriteFlat a 32 32 with
        | error rc => rfl
        | ok got =>
            dsimp only
            by_cases hlen : got.length = 32
            · rw [if_neg (not_not.mpr hlen), if_pos hlen]
              rfl
            · rw [if_pos hlen, if_neg hlen]
      · exact sec_gattSvcAccess_of_ne hauth

/-- **The session table of the device is that of a run of the security module.** -/
theorem sec_deviceAfter (es : List DeviceEvent) :
    (deviceAfter H hmac es).sec = secAfter hmac (secCallsOf H hmac es) := by
  have hpair : (secRun H hmac es).1 = deviceAfter H hmac es ∧
      (secRun H hmac es).1.sec = secAfter hmac (secRun H hmac es).2 := by
    refine foldl_history (I := fun es (p : Device × List TimedCall) =>
      p.1 = deviceAfter H hmac es ∧ p.1.sec = secAfter hmac p.2) ⟨rfl, rfl⟩ ?_ es
    rintro pre e ⟨hd, hsec⟩
    refine ⟨by rw [deviceAfter_concat, ← hd], ?_⟩
    dsimp only
    rw [sec_deviceStep]
    cases secCallOf H _ e with
    | none => rw [Option.toList_none, List.append_nil, ← hsec]
    | some call => rw [Option.toList_some, secAfter_concat, ← hsec]
  obtain ⟨hd, hsec⟩ := hpair
  rw [← hd, hsec, secCallsOf]

variable (H hmac) in
/-- The session table of a device is in order after every run. -/
theorem tableOk_deviceAfter (es : List DeviceEvent) : TableOk (deviceAfter H hmac es).sec := by
  rw [sec_deviceAfter]
  exact tableOk_secAfter hmac _

/-- The events that reach the security module, and the calls they lead to. -/
theorem secCallOf_cases {d : Device} {e : DeviceEvent} {call : TimedCall}
    (h : secCallOf H d e = some call) :
    (∃ g words, e = .connect 0 g words ∧ call = ⟨d.now, .onConnect g words⟩) ∨
      (∃ g, e = .disconnect g ∧ call = ⟨d.now, .clearConn g⟩) ∨
      ∃ a got, e = .access a ∧
        call = ⟨d.now, .handleAuthResponse a.connHandle (some got)⟩ := by
  cases e with
  | connect status g words =>
      dsimp only [secCallOf] at h
      split_ifs at h with hstatus
      exact Or.inl ⟨g, words, by rw [hstatus], (Option.some.inj h).symm⟩
  | disconnect g => exact Or.inr (Or.inl ⟨g, rfl, (Option.some.inj h).symm⟩)
  | tick now => exact absurd h (by simp [secCallOf])
  | dequeue => exact absurd h (by simp [secCallOf])
  | access a =>
      dsimp only [secCallOf] at h
      split_ifs at h
      cases hflat : gattSvrWriteFlat a 32 32 with
      | error rc =>
          rw [hflat] at h
          exact absurd h (by simp)
      | ok got =>
          rw [hflat] at h
          dsimp only at h
          split_ifs at h
          exact Or.inr (Or.inr ⟨a, got, rfl, (Option.some.inj h).symm⟩)

variable (H hmac) in
/-- The device keeps the key and the nonce length that `sec_init` sets. -/
theorem config_deviceAfter (es : List DeviceEvent) :
    (deviceAfter H hmac es).sec.privKey = defaultKey ∧
      (deviceAfter H hmac es).sec.nonceLen = defaultNonceLen := by
  refine foldl_history (I := fun _ (d : Device) =>
    d.sec.privKey = defaultKey ∧ d.sec.nonceLen = defaultNonceLen) ⟨rfl, rfl⟩ ?_ es
  rintro pre e ⟨hkey, hlen⟩
  rw [sec_deviceStep]
  cases hcall : secCallOf H _ e with
  | none => exact ⟨hkey, hlen⟩
  | some call =>
      rw [← hkey, ← hlen]
      obtain ⟨g, words, -, rfl⟩ | ⟨g, -, rfl⟩ | ⟨a, got, -, rfl⟩ := secCallOf_cases hcall
      · exact config_secOnConnect _ _ words g
      · exact config_secClearConn _ g
      · exact config_secHandleAuthResponse hmac _ _ _ _

/-- The clock does not go back. -/
theorem now_le_deviceStep (d : Device) (e : DeviceEvent) :
    d.now ≤ (deviceStep H hmac d e).1.now := by
  cases e with
  | connect status g words =>
      dsimp only [deviceStep]
      split_ifs <;> exact UInt64.le_refl _
  | disconnect g => exact UInt64.le_refl _
  | tick now =>
      dsimp only [deviceStep]
      split_ifs with hle
      · exact hle
      · exact UInt64.le_refl _
  | dequeue => exact UInt64.le_refl _
  | access a =>
      dsimp only [deviceStep]
      rcases gattSvcAccess_cases H hmac d a with
        hsame | ⟨-, -, got, hsec⟩ | ⟨-, -, -, calls, hbiz⟩
      · rw [hsame]
        exact UInt64.le_refl _
      · rw [hsec]
        exact UInt64.le_refl _
      · rw [hbiz]
        exact UInt64.le_refl _

variable (H hmac) in
/-- The clock does not go back along a run. -/
theorem now_le_deviceAfter (pre post : List DeviceEvent) :
    (deviceAfter H hmac pre).now ≤ (deviceAfter H hmac (pre ++ post)).now := by
  induction post using List.reverseRecOn with
  | nil =>
      rw [List.append_nil]
      exact UInt64.le_refl _
  | append_singleton post e ih =>
      rw [← List.append_assoc, deviceAfter_concat]
      exact UInt64.le_trans ih (now_le_deviceStep _ _)

/-! ### Connections that are up -/

/-- The handles of the connections that are up after a run. -/
def up (es : List DeviceEvent) : List UInt16 :=
  es.foldl (fun u e => match e with
    | .connect status h _ => if status = 0 then h :: u else u
    | .disconnect h => u.erase h
    | _ => u) []

/-- Which connections are up after one event more. -/
theorem up_concat (es : List DeviceEvent) (e : DeviceEvent) :
    up (es ++ [e]) = match e with
      | .connect status h _ => if status = 0 then h :: up es else up es
      | .disconnect h => (up es).erase h
      | _ => up es := by
  rw [up, List.foldl_append]
  rfl

/-- **What the controller guarantees**: a new connection has a handle that is not in use,
at most three are up at a time, and only a connection that is up goes down. -/
def LinksOk (pre : List DeviceEvent) (_ : Device) : DeviceEvent → Prop
  | .connect status h _ => status = 0 → h ∉ up pre ∧ (up pre).length < maxSecConns
  | .disconnect h => h ∈ up pre
  | _ => True

variable (H hmac) in
/-- Only connections that are up have a session. -/
theorem mem_up_of_sessionOf (es : List DeviceEvent) {g : UInt16} (hg : g ≠ 0)
    (h : (sessionOf (deviceAfter H hmac es).sec g).isSome = true) : g ∈ up es := by
  induction es using List.reverseRecOn with
  | nil =>
      have hnone : sessionOf bootSec g = none := sessionOf_secInit defaultNonceLen hg
      rw [deviceAfter, List.foldl_nil, bootDevice, hnone] at h
      exact absurd h (by simp)
  | append_singleton pre e ih =>
      rw [deviceAfter_concat, sec_deviceStep] at h
      have hok := tableOk_deviceAfter H hmac pre
      cases hcall : secCallOf H (deviceAfter H hmac pre) e with
      | none =>
          rw [hcall] at h
          have hmem := ih h
          rw [up_concat]
          cases e with
          | connect status g' words =>
              dsimp only
              split_ifs
              · exact List.mem_cons_of_mem _ hmem
              · exact hmem
          | disconnect g' => exact absurd hcall (by simp [secCallOf])
          | tick | dequeue | access => exact hmem
      | some call =>
          rw [hcall] at h
          dsimp only at h
          rw [(hok.secStep hmac call).2 g hg] at h
          rw [up_concat]
          rcases secCallOf_cases hcall with ⟨g', words, rfl, rfl⟩ | ⟨g', rfl, rfl⟩ |
            ⟨a, got, rfl, rfl⟩
          · dsimp only [sessionStep] at h ⊢
            rw [if_pos rfl]
            split_ifs at h with hgg
            · rw [hgg.1]
              exact List.mem_cons_self
            · exact List.mem_cons_of_mem _ (ih h)
          · dsimp only [sessionStep] at h ⊢
            split_ifs at h with hgg
            · exact absurd h (by simp)
            · exact (List.mem_erase_of_ne (Ne.symm hgg)).mpr (ih h)
          · dsimp only [sessionStep] at h ⊢
            rw [Option.isSome_map] at h
            exact ih h

variable (H hmac) in
/-- **Room.** There is a free slot while fewer than three connections are up. -/
theorem exists_free_slot {es : List DeviceEvent} (hroom : (up es).length < maxSecConns) :
    ∃ z, findEntry (deviceAfter H hmac es).sec 0 = some z := by
  have hsub : occupied Conn.connHandle (· = 0) (deviceAfter H hmac es).sec.conns ⊆
      (up es).toFinset := by
    intro g hg
    obtain ⟨hg0, hsome⟩ := mem_occupied.mp hg
    refine List.mem_toFinset.mpr (mem_up_of_sessionOf H hmac es hg0 ?_)
    rw [sessionOf, Option.isSome_map]
    exact hsome
  have hcard := (Finset.card_le_card hsub).trans (List.toFinset_card_le _)
  have hfree := (card_occupied_lt_iff (tableOk_deviceAfter H hmac es)).mp
    (lt_of_le_of_lt hcard hroom)
  rw [freeSlot_eq_findEntry] at hfree
  exact Option.isSome_iff_exists.mp hfree

/-! ### The session of a connection that is up -/

/-- **The steps that keep the slot of handle 0**: while handle 0 is up no connection comes
up, and none goes down whose slot stands before the one of handle 0. -/
def ZeroKept (pre : List DeviceEvent) (d : Device) (e : DeviceEvent) : Prop :=
  0 ∈ up pre → match e with
    | .connect status _ _ => status ≠ 0
    | .disconnect g =>
      g ≠ 0 → ∀ i, findEntry d.sec g = some i → ∃ z, findEntry d.sec 0 = some z ∧ z < i
    | _ => True

variable (H hmac) in
/-- What a step that neither opens nor ends the session `c` of `h` makes of it. -/
def sessionAnswered (d : Device) (e : DeviceEvent) (h : UInt16) (c : Session) : Session :=
  match secCallOf H d e with
  | some ⟨now, .handleAuthResponse g response⟩ =>
    if g = h ∧ c.Accepts hmac d.sec.privKey now response then { c with authenticated := true }
    else c
  | _ => c

/-- A connect opens a session, if there is a free slot and the handle has none. -/
theorem sessionOf_opened {s : SecState} (hs : TableOk s) {h : UInt16} (now : UInt64)
    (words : RandomWords) {z : Fin maxSecConns} (hz : findEntry s 0 = some z) :
    sessionOf (secOnConnect s now words h) h = some ⟨drawn words s.nonceLen, now, false⟩ := by
  by_cases hh : h = 0
  · subst hh
    have hfind := findEntry_set_self (d := s.conns[z].opened now words s.nonceLen 0) hz rfl
    rw [secOnConnect_eq, connectSlot, hz, Option.or_self]
    dsimp only
    rw [sessionOf_of_findEntry hfind]
    dsimp only
    rw [get_set, if_pos rfl, Conn.session_opened]
  · rw [(hs.secOnConnect now words h).2 h hh, if_pos ⟨rfl, Or.inr (by rw [hz]; rfl)⟩]

/-- **One step** that neither opens nor ends the session of `h` keeps it, up to an answer to
its challenge. -/
theorem sessionOf_deviceStep {pre : List DeviceEvent} {e : DeviceEvent} {h : UInt16}
    (hup : h ∈ up pre) (hlinks : LinksOk pre (deviceAfter H hmac pre) e)
    (hdis : e ≠ .disconnect h) (hzero : h = 0 → ZeroKept pre (deviceAfter H hmac pre) e) :
    sessionOf (deviceAfter H hmac (pre ++ [e])).sec h =
      (sessionOf (deviceAfter H hmac pre).sec h).map
        (sessionAnswered H hmac (deviceAfter H hmac pre) e h) := by
  have hok := tableOk_deviceAfter H hmac pre
  rw [deviceAfter_concat, sec_deviceStep]
  generalize deviceAfter H hmac pre = d at hlinks hzero hok ⊢
  have hkeep : ∀ s' : SecState, sessionOf s' h = sessionOf d.sec h →
      (∀ c, sessionAnswered H hmac d e h c = c) →
      sessionOf s' h = (sessionOf d.sec h).map (sessionAnswered H hmac d e h) := by
    intro s' hs' hid
    rw [hs', funext hid, Option.map_id']
  cases hcall : secCallOf H d e with
  | none => exact hkeep _ rfl fun c => by rw [sessionAnswered, hcall]
  | some call =>
      rcases secCallOf_cases hcall with ⟨g, words, rfl, rfl⟩ | ⟨g, rfl, rfl⟩ | ⟨a, got, rfl, rfl⟩
      · have hgh : g ≠ h := fun hgh => (hlinks rfl).1 (hgh ▸ hup)
        refine hkeep _ ?_ fun c => by rw [sessionAnswered, hcall]
        by_cases hh : h = 0
        · subst hh
          exact absurd rfl (hzero rfl hup)
        · dsimp only [secStep]
          rw [(hok.secOnConnect d.now words g).2 h hh, if_neg fun hc => hgh hc.1]
      · have hgh : g ≠ h := fun hgh => hdis (by rw [hgh])
        refine hkeep _ ?_ fun c => by rw [sessionAnswered, hcall]
        dsimp only [secStep]
        by_cases hh : h = 0
        · subst hh
          rw [secClearConn]
          cases hf : findEntry d.sec g with
          | none => rfl
          | some i =>
              obtain ⟨z, hz, hzi⟩ := hzero rfl hup hgh i hf
              have hfind := findEntry_set_of_lt {} hz hzi
              dsimp only [freeEntryIndex]
              rw [sessionOf_of_findEntry hfind, sessionOf_of_findEntry hz]
              dsimp only
              rw [get_set, if_neg (ne_of_gt hzi)]
        · rw [(hok.secClearConn g).2 h hh, if_neg hgh]
      · dsimp only [secStep]
        rw [sessionOf_secHandleAuthResponse]
        congr 1
        funext c
        rw [sessionAnswered, hcall]

/-- The access writes `m` to the auth characteristic on the connection `h`. -/
def IsAuthWrite (H : CharHandles) (a : Access) (h : UInt16) (m : Bytes) : Prop :=
  a.op = .writeChr ∧ a.connHandle = h ∧ a.attrHandle = H.authCharHandle ∧ a.payload = m ∧
    a.flatRc = 0

/-- The right answer to the challenge drawn from `words`. -/
def rightAnswer (hmac : Bytes → Bytes → Vector UInt8 hmacSha256Len) (words : RandomWords) :
    Bytes :=
  (hmac defaultKey (drawn words 16)).toList

/-- The right answer has 32 bytes. -/
theorem length_rightAnswer (words : RandomWords) : (rightAnswer hmac words).length = 32 :=
  Vector.length_toList

/-- A response of 32 bytes is passed on. -/
theorem gattSvrWriteFlat_auth {a : Access} {h : UInt16} {m : Bytes} (hlen : m.length = 32)
    (ha : IsAuthWrite H a h m) : gattSvrWriteFlat a 32 32 = .ok m := by
  obtain ⟨-, -, -, hpayload, hflat⟩ := ha
  have htake : m.take 32 = m := List.take_of_length_le hlen.le
  rw [gattSvrWriteFlat, hpayload, hlen]
  simp [hflat, htake]

variable (hmac) in
/-- Within five minutes of the connect the right answer is accepted. -/
theorem accepts_rightAnswer {s : SecState} (hkey : s.privKey = defaultKey) {c : Session}
    {words : RandomWords} (hnonce : c.nonce = drawn words 16) {now : UInt64}
    (hle : c.createdTsMs ≤ now)
    (htime : now.toNat ≤ c.createdTsMs.toNat + nonceLifetimeMs.toNat) :
    c.Accepts hmac s.privKey now (some (rightAnswer hmac words)) := by
  refine ⟨?_, by rw [hkey, hnonce, rightAnswer]⟩
  rw [UInt64.le_iff_toNat_le, UInt64.toNat_sub_of_le _ _ hle]
  omega

/-- A write for authentication is a response to the challenge. -/
theorem secCallOf_authWrite (d : Device) {a : Access} {h : UInt16} {m : Bytes}
    (hlen : m.length = 32) (ha : IsAuthWrite H a h m) :
    secCallOf H d (.access a) = some ⟨d.now, .handleAuthResponse h (some m)⟩ := by
  have hflat := gattSvrWriteFlat_auth hlen ha
  obtain ⟨hop, hconn, hattr, -, -⟩ := ha
  dsimp only [secCallOf]
  rw [if_pos ⟨hop, hattr⟩, hflat]
  dsimp only
  rw [if_pos hlen, hconn]

variable (H hmac) in
/-- An answer touches nothing but the flag, and does not reset it. -/
theorem sessionAnswered_spec (d : Device) (e : DeviceEvent) (h : UInt16) (c : Session) :
    (sessionAnswered H hmac d e h c).nonce = c.nonce ∧
      (sessionAnswered H hmac d e h c).createdTsMs = c.createdTsMs ∧
      (c.authenticated = true → (sessionAnswered H hmac d e h c).authenticated = true) := by
  rw [sessionAnswered]
  split
  · split_ifs
    · exact ⟨rfl, rfl, fun _ => rfl⟩
    · exact ⟨rfl, rfl, id⟩
  · exact ⟨rfl, rfl, id⟩

/-- A connection stays up until it goes. -/
theorem mem_up_concat {pre : List DeviceEvent} {h : UInt16} (hup : h ∈ up pre) {e : DeviceEvent}
    (he : e ≠ .disconnect h) : h ∈ up (pre ++ [e]) := by
  rw [up_concat]
  cases e with
  | connect status g words =>
      dsimp only
      split_ifs
      · exact List.mem_cons_of_mem _ hup
      · exact hup
  | disconnect g =>
      have hne : h ≠ g := fun hhg => he (by rw [hhg])
      exact (List.mem_erase_of_ne hne).mpr hup
  | tick | dequeue | access => exact hup

/-- **The session of a connection that is up** has the nonce drawn at its connect and the
time of its connect, and is authenticated if the right answer came in time. -/
theorem sessionOf_connected {pre post : List DeviceEvent} {h : UInt16} {words : RandomWords}
    (hlinks : Along (fun d e => (deviceStep H hmac d e).1) bootDevice LinksOk
      (pre ++ .connect 0 h words :: post))
    (hdis : .disconnect h ∉ post)
    (hzero : h = 0 → Along (fun d e => (deviceStep H hmac d e).1) bootDevice ZeroKept
      (pre ++ .connect 0 h words :: post)) :
    h ∈ up (pre ++ .connect 0 h words :: post) ∧
      ∃ c, sessionOf (deviceAfter H hmac (pre ++ .connect 0 h words :: post)).sec h = some c ∧
        c.nonce = drawn words 16 ∧ c.createdTsMs = (deviceAfter H hmac pre).now ∧
        ∀ mid a more, post = mid ++ .access a :: more →
          IsAuthWrite H a h (rightAnswer hmac words) →
          (deviceAfter H hmac (pre ++ .connect 0 h words :: mid)).now.toNat ≤
            (deviceAfter H hmac pre).now.toNat + nonceLifetimeMs.toNat →
          c.authenticated = true := by
  induction post using List.reverseRecOn with
  | nil =>
      obtain ⟨hnew, hroom⟩ := hlinks.last rfl
      obtain ⟨z, hz⟩ := exists_free_slot H hmac hroom
      have hopened := sessionOf_opened (h := h) (tableOk_deviceAfter H hmac pre)
        (deviceAfter H hmac pre).now words hz
      rw [(config_deviceAfter H hmac pre).2] at hopened
      refine ⟨?_, ⟨drawn words 16, (deviceAfter H hmac pre).now, false⟩, ?_, rfl, rfl,
        fun mid a more hmid => ?_⟩
      · rw [up_concat]
        exact List.mem_cons_self
      · rw [deviceAfter_concat, sec_deviceStep]
        exact hopened
      · exact absurd hmid (by simp)
  | append_singleton post e ih =>
      have hassoc : pre ++ .connect 0 h words :: (post ++ [e]) =
          (pre ++ .connect 0 h words :: post) ++ [e] := by simp
      rw [hassoc] at hlinks hzero ⊢
      have hdis' : .disconnect h ∉ post := fun hmem => hdis (List.mem_append_left _ hmem)
      have he : e ≠ .disconnect h := by
        rintro rfl
        exact hdis (List.mem_append_right _ List.mem_cons_self)
      obtain ⟨hup, c, hget, hnonce, hcreated, hauth⟩ :=
        ih hlinks.of_append hdis' fun hh => (hzero hh).of_append
      have hstep := sessionOf_deviceStep hup hlinks.last he fun hh => (hzero hh).last
      rw [hget, Option.map_some] at hstep
      obtain ⟨hnonce', hcreated', hauth'⟩ := sessionAnswered_spec H hmac
        (deviceAfter H hmac (pre ++ .connect 0 h words :: post)) e h c
      refine ⟨mem_up_concat hup he, _, hstep, hnonce'.trans hnonce, hcreated'.trans hcreated,
        fun mid a more hmid ha htime => ?_⟩
      rcases concat_eq_append_cons_iff.mp hmid with ⟨rfl, rfl, -⟩ | ⟨more', -, hmid'⟩
      · -- the last event is the answer
        have hle : c.createdTsMs ≤
            (deviceAfter H hmac (pre ++ .connect 0 h words :: post)).now :=
          hcreated ▸ now_le_deviceAfter H hmac pre _
        have hkey := (config_deviceAfter H hmac (pre ++ .connect 0 h words :: post)).1
        have hacc := accepts_rightAnswer hmac hkey hnonce hle (hcreated ▸ htime)
        rw [sessionAnswered, secCallOf_authWrite _ (length_rightAnswer words) ha]
        dsimp only
        rw [if_pos ⟨rfl, hacc⟩]
      · exact hauth' (hauth mid a more' hmid' ha htime)

/-! ### The challenge completes -/

variable (H hmac) in
/-- **The connection `h` can complete its challenge** after the run `es`, if it is up: a
read of the auth characteristic returns the nonce drawn at its connect; within five
minutes of the connect the right answer is accepted; and if the right answer came, the
connection is authenticated for these five minutes. -/
def ChallengeCompletes (es : List DeviceEvent) (h : UInt16) : Prop :=
  ∀ pre words post, es = pre ++ .connect 0 h words :: post → .disconnect h ∉ post →
    let d := deviceAfter H hmac es
    let inTime := d.now.toNat ≤ (deviceAfter H hmac pre).now.toNat + nonceLifetimeMs.toNat
    (∀ a : Access, a.op = .readChr → a.connHandle = h → a.attrHandle = H.authCharHandle →
      a.appendRc = 0 → (gattSvcAccess H hmac d a).2 = ⟨.success, drawn words 16⟩) ∧
    (∀ a, IsAuthWrite H a h (rightAnswer hmac words) → inTime →
      (gattSvcAccess H hmac d a).2.status = .success) ∧
    ∀ mid a more, post = mid ++ .access a :: more →
      IsAuthWrite H a h (rightAnswer hmac words) → inTime →
      secIsConnAuthenticated d.sec d.now h = true

/-- A read of the auth characteristic returns the nonce of the session. -/
theorem readChr_auth {d : Device} {a : Access} {c : Session}
    (hop : a.op = .readChr) (hattr : a.attrHandle = H.authCharHandle) (happend : a.appendRc = 0)
    (hget : sessionOf d.sec a.connHandle = some c) (hlen : c.nonce.length = 16) :
    (gattSvcAccess H hmac d a).2 = ⟨.success, c.nonce⟩ := by
  have hne : c.nonce ≠ [] := by
    rw [← List.length_pos_iff]
    omega
  have hvalue : secGetAuthValue d.sec a.connHandle = (16, c.nonce) := by
    rw [secGetAuthValue_eq, hget]
    dsimp only
    rw [if_neg hne, hlen]
    rfl
  rw [gattSvcAccess, hop]
  dsimp only
  rw [readChr, if_pos hattr, hvalue]
  dsimp only
  rw [if_neg (not_not.mpr rfl), appendResponse, if_pos happend]

/-- A write of an accepted answer succeeds. -/
theorem status_authWrite {d : Device} {a : Access} {h : UInt16} {m : Bytes} {c : Session}
    (hlen : m.length = 32) (ha : IsAuthWrite H a h m) (hget : sessionOf d.sec h = some c)
    (hacc : c.Accepts hmac d.sec.privKey d.now (some m)) :
    (gattSvcAccess H hmac d a).2.status = .success := by
  have hflat := gattSvrWriteFlat_auth hlen ha
  obtain ⟨hop, hconn, hattr, -, -⟩ := ha
  have hok : (secHandleAuthResponse hmac d.sec d.now h (some m)).2 = true := by
    rw [secHandleAuthResponse_snd, hget, Option.any_some]
    exact decide_eq_true hacc
  rw [gattSvcAccess, hop]
  dsimp only
  rw [writeChr, if_pos hattr, hflat]
  dsimp only
  rw [if_neg (not_not.mpr hlen), hconn]
  dsimp only
  rw [hok, if_pos rfl]

variable (H hmac) in
/-- **The challenge completes.** In every run in which at most three connections with
distinct handles are up, every connection that is up can complete its challenge:
unconditionally for a non-zero handle, and for handle 0 if every step of the run kept its
slot. -/
theorem challenge_completes (es : List DeviceEvent)
    (hlinks : Along (fun d e => (deviceStep H hmac d e).1) bootDevice LinksOk es) (h : UInt16)
    (hzero : h = 0 → Along (fun d e => (deviceStep H hmac d e).1) bootDevice ZeroKept es) :
    ChallengeCompletes H hmac es h := by
  rintro pre words post rfl hdis
  obtain ⟨-, c, hget, hnonce, hcreated, hauth⟩ := sessionOf_connected hlinks hdis hzero
  have hkey := (config_deviceAfter H hmac (pre ++ .connect 0 h words :: post)).1
  have hle : c.createdTsMs ≤ (deviceAfter H hmac (pre ++ .connect 0 h words :: post)).now :=
    hcreated ▸ now_le_deviceAfter H hmac pre _
  refine ⟨fun a hop hconn hattr happend => ?_, fun a ha htime => ?_,
    fun mid a more hmid ha htime => ?_⟩
  · subst hconn
    have hlen : c.nonce.length = 16 := by rw [hnonce, length_drawn words (by omega)]
    rw [readChr_auth hop hattr happend hget hlen, hnonce]
  · exact status_authWrite (length_rightAnswer words) ha hget
      (accepts_rightAnswer hmac hkey hnonce hle (hcreated ▸ htime))
  · have hbefore : (deviceAfter H hmac (pre ++ .connect 0 h words :: mid)).now.toNat ≤
        (deviceAfter H hmac pre).now.toNat + nonceLifetimeMs.toNat := by
      have hmono := now_le_deviceAfter H hmac (pre ++ .connect 0 h words :: mid)
        (.access a :: more)
      rw [List.append_assoc, List.cons_append, ← hmid] at hmono
      exact (UInt64.le_iff_toNat_le.mp hmono).trans htime
    have hflag := hauth mid a more hmid ha hbefore
    have hage := (accepts_rightAnswer hmac hkey hnonce hle (hcreated ▸ htime)).1
    rw [secIsConnAuthenticated_eq, hget, Option.any_some, hflag, decide_eq_true hage]
    rfl

/-- Value handles as NimBLE may assign them. -/
def sampleHandles : CharHandles where
  authCharHandle := 12
  packetHandle := 15
  ctrlHandle
    | .rpm => 20
    | .angle => 22
    | .light => 24
    | .power => 26
  statHandle
    | .rpm => 30
    | .angle => 33
    | .light => 36
    | .power => 39
  nodup := by decide
  ne_zero := by decide

/-- The right answer of handle `h`. -/
def sampleAnswer (h : UInt16) : Access where
  op := .writeChr
  connHandle := h
  attrHandle := 12
  payload := rightAnswer sampleHmac (Vector.replicate 8 0)

/-- Handle `h` comes up and answers its challenge. -/
def completedRun (h : UInt16) : List DeviceEvent :=
  [.connect 0 h (Vector.replicate 8 0), .access (sampleAnswer h)]

theorem along_completedRun (h : UInt16) :
    Along (fun d e => (deviceStep sampleHandles sampleHmac d e).1) bootDevice LinksOk
      (completedRun h) ∧
    Along (fun d e => (deviceStep sampleHandles sampleHmac d e).1) bootDevice ZeroKept
      (completedRun h) := by
  have hfirst : Along (fun d e => (deviceStep sampleHandles sampleHmac d e).1) bootDevice LinksOk
      [.connect 0 h (Vector.replicate 8 0)] :=
    along_nil.concat fun _ => ⟨List.not_mem_nil, by decide⟩
  have hkept : Along (fun d e => (deviceStep sampleHandles sampleHmac d e).1) bootDevice ZeroKept
      [.connect 0 h (Vector.replicate 8 0)] :=
    along_nil.concat fun hup => absurd hup List.not_mem_nil
  exact ⟨hfirst.concat trivial, hkept.concat fun _ => trivial⟩

/-- Two clients that answer, one of them with the handle 0. -/
theorem challenge_completes_run :
    ChallengeCompletes sampleHandles sampleHmac (completedRun 7) 7 ∧
      ChallengeCompletes sampleHandles sampleHmac (completedRun 0) 0 :=
  ⟨challenge_completes sampleHandles sampleHmac (completedRun 7) (along_completedRun 7).1 7
      fun _ => (along_completedRun 7).2,
    challenge_completes sampleHandles sampleHmac (completedRun 0) (along_completedRun 0).1 0
      fun _ => (along_completedRun 0).2⟩

/-- A read of the nonce on handle 0. -/
def zeroRead : Access where
  op := .readChr
  connHandle := 0
  attrHandle := 12

/-- Handle 0 comes up, then handle 1. -/
def takenSlotRun : List DeviceEvent :=
  [.connect 0 0 (Vector.replicate 8 0), .connect 0 1 (Vector.replicate 8 0)]

/-- **Handle 0 loses its slot** to the next connection: it is up, but a read of its nonce
fails. -/
theorem challenge_lost_zero :
    Along (fun d e => (deviceStep sampleHandles sampleHmac d e).1) bootDevice LinksOk
        takenSlotRun ∧
      (gattSvcAccess sampleHandles sampleHmac
        (deviceAfter sampleHandles sampleHmac takenSlotRun) zeroRead).2.status = .unlikely ∧
      ¬ ChallengeCompletes sampleHandles sampleHmac takenSlotRun 0 := by
  have hread : (gattSvcAccess sampleHandles sampleHmac
      (deviceAfter sampleHandles sampleHmac takenSlotRun) zeroRead).2.status = .unlikely := by
    decide +kernel
  have hfirst : Along (fun d e => (deviceStep sampleHandles sampleHmac d e).1) bootDevice LinksOk
      [.connect 0 0 (Vector.replicate 8 0)] :=
    along_nil.concat fun _ => ⟨List.not_mem_nil, by decide⟩
  refine ⟨hfirst.concat fun _ => by decide, hread, fun h => ?_⟩
  have hnonce := (h [] (Vector.replicate 8 0) [.connect 0 1 (Vector.replicate 8 0)] rfl
    (by simp)).1 zeroRead rfl rfl rfl rfl
  rw [hnonce] at hread
  exact absurd hread (by simp)

end AirShifter
