import AirShifter.CMemory
import AirShifter.Challenge

/-!
# The Length of the Nonce

The nonce length is a setting of `security.c`, from 1 to 32 bytes, and the length in force at
a connect stays with the session. The read of the auth characteristic in `gatt_svr.c` knows
one length only: it hands a buffer of 16 bytes to `sec_get_auth_value`, which copies as many
bytes as the session has. The copy is modelled with its writes checked.

## Main results

* `Checked.readAuth_eq`: where the copy fits, the read answers as the access callback does.
* `nonceUsable_iff`: a session can use its nonce exactly if it has 16 bytes.
* `every_nonce_usable_iff`: along a run every nonce is usable exactly if every connect that
  takes a slot finds the length 16 in force.
* `nonceUsable_deviceAfter`: the device as it is, which never sets the length, is on the safe
  side.
-/

open CBytes SlotTable Runs

namespace AirShifter

variable (H : CharHandles) (hmac : Bytes → Bytes → Vector UInt8 hmacSha256Len)

/-! ### The read with a checked copy -/

namespace Checked

/-- `sec_get_auth_value`: the return value and the caller's buffer. -/
def secGetAuthValue {n : ℕ} (s : SecState) (connHandle : UInt16) (outNonce : Vector UInt8 n) :
    Option (ℤ × Vector UInt8 n) :=
  match findEntry s connHandle with
  | none => some (-1, outNonce)
  | some idx =>
    if (s.slot idx).nonceLen.val = 0 then some (-1, outNonce)
    else
      (storeRange outNonce 0 (s.slot idx).issued).map fun out =>
        (((s.slot idx).nonceLen.val : ℤ), out)

/-- The read of the auth characteristic in `gatt_svc_access`. The array `nonce` is not
initialised: it is an argument. -/
def readAuth (s : SecState) (a : Access) (nonce : Vector UInt8 16) : Option AttResponse :=
  (secGetAuthValue s a.connHandle nonce).map fun r =>
    if r.1 ≠ 16 then ⟨.unlikely, []⟩ else appendResponse a r.2.toList

/-- The copy in terms of the session a lookup finds. -/
theorem secGetAuthValue_eq {n : ℕ} (s : SecState) (h : UInt16) (out : Vector UInt8 n) :
    secGetAuthValue s h out =
      match sessionOf s h with
      | none => some (-1, out)
      | some c =>
        if c.nonce = [] then some (-1, out)
        else (storeRange out 0 c.nonce).map fun out => ((c.nonce.length : ℤ), out) := by
  rw [secGetAuthValue]
  cases hf : findEntry s h with
  | none => rw [sessionOf_eq_none_iff.mpr hf]
  | some i =>
      have hget : sessionOf s h = some (s.slot i).session := sessionOf_of_findEntry hf
      rw [hget]
      simp only [Conn.session, Conn.issued_eq_nil_iff, Conn.length_issued]

variable {H} in
/-- **Where the copy fits**, the read answers as the access callback does. -/
theorem readAuth_eq {d : Device} {a : Access} {nonce : Vector UInt8 16} {r : AttResponse}
    (hr : readAuth d.sec a nonce = some r) (hop : a.op = .readChr)
    (hattr : a.attrHandle = H.authCharHandle) : (gattSvcAccess H hmac d a).2 = r := by
  rw [gattSvcAccess, hop]
  dsimp only
  rw [readChr, if_pos hattr, AirShifter.secGetAuthValue_eq]
  rw [readAuth, secGetAuthValue_eq] at hr
  cases hget : sessionOf d.sec a.connHandle with
  | none =>
      rw [hget] at hr
      exact Option.some.inj hr
  | some c =>
      rw [hget] at hr
      dsimp only at hr ⊢
      by_cases hnil : c.nonce = []
      · rw [if_pos hnil] at hr ⊢
        exact Option.some.inj hr
      · rw [if_neg hnil] at hr ⊢
        obtain ⟨p, hp, rfl⟩ := Option.map_eq_some_iff.mp hr
        obtain ⟨out, hout, rfl⟩ := Option.map_eq_some_iff.mp hp
        dsimp only
        by_cases hlen : (c.nonce.length : ℤ) = 16
        · have hsize : c.nonce.length = 16 := by exact_mod_cast hlen
          rw [storeRange_eq (by omega)] at hout
          obtain rfl := Option.some.inj hout
          rw [toList_memcpy_of_length nonce hsize]
        · rw [if_pos hlen, if_pos hlen]

end Checked

/-! ### Usable nonces -/

/-- **The connection `h` can use the nonce of its session `c`**: a read of the auth
characteristic copies no more than its buffer holds and returns the nonce, and until the
nonce expires the HMAC of what was read is accepted. -/
structure NonceUsable (s : SecState) (h : UInt16) (c : Session) : Prop where
  fits : ∀ (a : Access) nonce, a.connHandle = h → (Checked.readAuth s a nonce).isSome = true
  read : ∀ (a : Access) nonce, a.connHandle = h → a.appendRc = 0 →
    Checked.readAuth s a nonce = some ⟨.success, c.nonce⟩
  accepted : ∀ now, now - c.createdTsMs ≤ nonceLifetimeMs →
    (secHandleAuthResponse hmac s now h (some (hmac s.privKey c.nonce).toList)).2 = true

variable {s : SecState} {h : UInt16} {c : Session}

/-- The read of a session with a nonce of 16 bytes. -/
theorem Checked.readAuth_of_length (hget : sessionOf s h = some c) (hlen : c.nonce.length = 16)
    {a : Access} (ha : a.connHandle = h) (nonce : Vector UInt8 16) :
    Checked.readAuth s a nonce = some (appendResponse a c.nonce) := by
  have hne : c.nonce ≠ [] := by
    rw [← List.length_pos_iff]
    omega
  rw [Checked.readAuth, Checked.secGetAuthValue_eq, ha, hget]
  dsimp only
  rw [if_neg hne, storeRange_eq (by omega), Option.map_some, Option.map_some]
  dsimp only
  have hrc : ((16 : ℕ) : ℤ) = 16 := rfl
  rw [hlen, if_neg (not_not.mpr hrc), toList_memcpy_of_length nonce hlen]

/-- A read of the auth characteristic on the connection `h`. -/
def nonceRead (h : UInt16) : Access where
  op := .readChr
  connHandle := h
  attrHandle := 12

/-- **A session can use its nonce exactly if it has 16 bytes.** -/
theorem nonceUsable_iff (hget : sessionOf s h = some c) :
    NonceUsable hmac s h c ↔ c.nonce.length = 16 := by
  constructor
  · intro husable
    have hread := husable.read (nonceRead h) (Vector.replicate 16 0) rfl rfl
    rw [Checked.readAuth, Checked.secGetAuthValue_eq, nonceRead, hget] at hread
    obtain ⟨p, hp, hresponse⟩ := Option.map_eq_some_iff.mp hread
    dsimp only at hp
    by_cases hnil : c.nonce = []
    · rw [if_pos hnil] at hp
      obtain rfl := Option.some.inj hp
      exact absurd hresponse (by simp)
    · rw [if_neg hnil] at hp
      obtain ⟨out, -, rfl⟩ := Option.map_eq_some_iff.mp hp
      by_contra hlen
      have hrc : (c.nonce.length : ℤ) ≠ 16 := by exact_mod_cast hlen
      rw [if_pos hrc] at hresponse
      exact absurd hresponse (by simp)
  · intro hlen
    refine ⟨fun a nonce ha => ?_, fun a nonce ha happend => ?_, fun now hage => ?_⟩
    · rw [Checked.readAuth_of_length hget hlen ha]
      rfl
    · rw [Checked.readAuth_of_length hget hlen ha, appendResponse, if_pos happend]
    · rw [secHandleAuthResponse_snd, hget, Option.any_some]
      exact decide_eq_true ⟨hage, rfl⟩

/-! ### Runs -/

/-- A connect of a non-zero handle that takes a slot finds the length 16 in force. -/
def DrawsSixteen (s : SecState) (e : TimedCall) : Prop :=
  ∀ g words, e.call = .onConnect g words → g ≠ 0 → (connectSlot s g).isSome = true →
    s.nonceLen.val = 16

/-- A connection gets a slot exactly if it has one or one is free. -/
theorem isSome_connectSlot (s : SecState) (g : UInt16) :
    (connectSlot s g).isSome = true ↔
      (sessionOf s g).isSome = true ∨ (findEntry s 0).isSome = true := by
  rw [connectSlot, Option.isSome_or, Bool.or_eq_true, isSome_sessionOf]

/-- **One call** that draws no nonce of another length keeps all nonces at 16 bytes. -/
theorem length_nonce_sessionStep {e : TimedCall} (hdraws : DrawsSixteen s e) (hh : h ≠ 0)
    (hlen : ∀ c, sessionOf s h = some c → c.nonce.length = 16)
    (hget : sessionStep hmac s h e = some c) : c.nonce.length = 16 := by
  obtain ⟨now, call⟩ := e
  cases call with
  | init => exact absurd hget (by simp [sessionStep])
  | onConnect g words =>
      dsimp only [sessionStep] at hget
      split_ifs at hget with hopens
      · obtain ⟨rfl, hslot⟩ := hopens
        obtain rfl := Option.some.inj hget
        dsimp only
        rw [hdraws g words rfl hh ((isSome_connectSlot s g).mpr hslot),
          length_drawn words (by omega)]
      · exact hlen c hget
  | handleAuthResponse g response =>
      dsimp only [sessionStep] at hget
      obtain ⟨c', hc', rfl⟩ := Option.map_eq_some_iff.mp hget
      split_ifs
      · exact hlen c' hc'
      · exact hlen c' hc'
  | clearConn g =>
      dsimp only [sessionStep] at hget
      split_ifs at hget
      exact hlen c hget
  | isConnAuthenticated | setPrivateKey | setNonceLen | sendNonceNotify | getAuthValue =>
      exact hlen c hget

/-- Along such a run all nonces have 16 bytes. -/
theorem length_nonce_of_along {es : List TimedCall}
    (hrun : Along (fun s e => (secStep hmac s e).1) bootSec (fun _ => DrawsSixteen) es)
    (hh : h ≠ 0) : ∀ c, sessionOf (secAfter hmac es) h = some c → c.nonce.length = 16 := by
  refine foldl_history_along (I := fun _ s => ∀ c, sessionOf s h = some c → c.nonce.length = 16)
    (fun c hget => ?_) (fun pre e hdraws ih c hget => ?_) hrun
  · rw [bootSec, sessionOf_secInit _ hh] at hget
    exact absurd hget (by simp)
  · rw [← secAfter] at hdraws ih hget
    rw [((tableOk_secAfter hmac pre).secStep hmac e).2 h hh] at hget
    exact length_nonce_sessionStep hmac hdraws hh ih hget

/-- **Every nonce is usable exactly along the runs that draw 16 bytes.** After every part of
a run, and for every connection that holds a slot, the nonce is read within the buffer,
returned, and accepted when answered, if and only if every connect of the run that takes a
slot finds the length 16 in force. -/
theorem every_nonce_usable_iff (es : List TimedCall) :
    (∀ pre, pre <+: es → ∀ h, h ≠ 0 → ∀ c, sessionOf (secAfter hmac pre) h = some c →
      NonceUsable hmac (secAfter hmac pre) h c) ↔
    Along (fun s e => (secStep hmac s e).1) bootSec (fun _ => DrawsSixteen) es := by
  constructor
  · rintro husable pre e post rfl g words hcall hg hslot
    rw [← secAfter] at hslot ⊢
    have hopened : sessionOf (secAfter hmac (pre ++ [e])) g =
        some ⟨drawn words (secAfter hmac pre).nonceLen, e.now, false⟩ := by
      rw [secAfter_concat, ((tableOk_secAfter hmac pre).secStep hmac e).2 g hg, sessionStep,
        hcall]
      exact if_pos ⟨rfl, (isSome_connectSlot _ g).mp hslot⟩
    have hlen := (nonceUsable_iff hmac hopened).mp
      (husable (pre ++ [e]) ⟨post, by simp⟩ g hg _ hopened)
    rwa [length_drawn words (secAfter hmac pre).nonceLen.2.2] at hlen
  · rintro hrun pre ⟨post, rfl⟩ h hh c hget
    exact (nonceUsable_iff hmac hget).mpr (length_nonce_of_along hmac hrun.of_append hh c hget)

/-- A nonce of `k` bytes is asked for, and handle 1 connects. -/
def reconfiguredRun (k : ℕ) : List TimedCall :=
  [⟨0, .setNonceLen k⟩, ⟨0, .onConnect 1 (Vector.replicate 8 0)⟩]

/-- **A long nonce leaves the buffer**: with 32 bytes in force at the connect the read writes
behind its array; with 8 bytes it fails. -/
theorem long_nonce_overflows :
    Checked.readAuth (secAfter sampleHmac (reconfiguredRun 32)) (nonceRead 1)
        (Vector.replicate 16 0) = none ∧
      Checked.readAuth (secAfter sampleHmac (reconfiguredRun 8)) (nonceRead 1)
        (Vector.replicate 16 0) = some ⟨.unlikely, []⟩ ∧
      ¬ ∀ pre, pre <+: reconfiguredRun 32 → ∀ h, h ≠ 0 → ∀ c,
        sessionOf (secAfter sampleHmac pre) h = some c →
          NonceUsable sampleHmac (secAfter sampleHmac pre) h c := by
  have hread : Checked.readAuth (secAfter sampleHmac (reconfiguredRun 32)) (nonceRead 1)
      (Vector.replicate 16 0) = none := by
    decide +kernel
  refine ⟨hread, by decide +kernel, fun husable => ?_⟩
  have hget : sessionOf (secAfter sampleHmac (reconfiguredRun 32)) 1 =
      some ⟨List.replicate 32 0, 0, false⟩ := by
    decide +kernel
  have hfits := (husable _ (List.prefix_refl _) 1 (by decide) _ hget).fits (nonceRead 1)
    (Vector.replicate 16 0) rfl
  rw [hread] at hfits
  exact absurd hfits (by simp)

/-! ### The device -/

/-- **The device as it is** never sets the length, so every nonce of a non-zero handle is
usable in all its runs. -/
theorem nonceUsable_deviceAfter (es : List DeviceEvent) (hh : h ≠ 0)
    (hget : sessionOf (deviceAfter H hmac es).sec h = some c) :
    NonceUsable hmac (deviceAfter H hmac es).sec h c := by
  refine (nonceUsable_iff hmac hget).mpr ?_
  induction es using List.reverseRecOn generalizing c with
  | nil =>
      rw [deviceAfter, List.foldl_nil, bootDevice, bootSec, sessionOf_secInit _ hh] at hget
      exact absurd hget (by simp)
  | append_singleton pre e ih =>
      rw [deviceAfter_concat, sec_deviceStep] at hget
      cases hcall : secCallOf H (deviceAfter H hmac pre) e with
      | none =>
          rw [hcall] at hget
          exact ih hget
      | some call =>
          rw [hcall] at hget
          dsimp only at hget
          rw [((tableOk_deviceAfter H hmac pre).secStep hmac call).2 h hh] at hget
          refine length_nonce_sessionStep hmac (fun g words _ _ _ => ?_) hh (fun c => ih) hget
          rw [(config_deviceAfter H hmac pre).2, defaultNonceLen]

end AirShifter
