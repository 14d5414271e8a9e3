import AirShifter.Security

/-!
# Runs of the Security Module

Any sequence of calls into `security.c` from `sec_init` on, each with the clock reading
it sees. `secStep` performs one call and gives its answer, `secAfter` is the state a
sequence leads to.

## Main results

* `TableOk.secStep`: one call keeps the table sound and changes the session of a
  non-zero handle as `sessionStep` says, whatever is called on handle 0.
* `tableOk_secAfter`: every reachable table is sound.
* `createdBy_secAfter`: every time stamp in the table is zero or the time of a connect
  of the handle that the slot carries now.
-/

open CBytes SlotTable Runs

namespace AirShifter

/-- A call into the module. -/
inductive SecCall
  | init
  | onConnect (connHandle : UInt16) (words : RandomWords)
  | handleAuthResponse (connHandle : UInt16) (response : Option Bytes)
  | isConnAuthenticated (connHandle : UInt16)
  | clearConn (connHandle : UInt16)
  | setPrivateKey (key : Option Bytes)
  | setNonceLen (nonceLen : ℕ)
  | sendNonceNotify (connHandle : UInt16)
  | getAuthValue (connHandle : UInt16)
  deriving DecidableEq

/-- The handle a call is about, if any. -/
def SecCall.handle? : SecCall → Option UInt16
  | .init | .setPrivateKey _ | .setNonceLen _ => none
  | .onConnect h _ | .handleAuthResponse h _ | .isConnAuthenticated h | .clearConn h
  | .sendNonceNotify h | .getAuthValue h => some h

/-- A call with the clock reading `now_ms()` it sees. -/
structure TimedCall where
  now : UInt64
  call : SecCall
  deriving DecidableEq

/-- What a call returns. -/
inductive SecAnswer
  | done
  | flag (b : Bool)
  | value (rc : ℤ) (nonce : Bytes)
  deriving DecidableEq

variable (hmac : Bytes → Bytes → Vector UInt8 hmacSha256Len)

/-- One call: the state it leaves and the answer it gives. -/
def secStep (s : SecState) (e : TimedCall) : SecState × SecAnswer :=
  match e.call with
  | .init => (secInit s.nonceLen, .done)
  | .onConnect h words => (secOnConnect s e.now words h, .done)
  | .handleAuthResponse h response =>
    let r := secHandleAuthResponse hmac s e.now h response
    (r.1, .flag r.2)
  | .isConnAuthenticated h => (s, .flag (secIsConnAuthenticated s e.now h))
  | .clearConn h => (secClearConn s h, .done)
  | .setPrivateKey key => (secSetPrivateKey s key, .done)
  | .setNonceLen k => (secSetNonceLen s k, .done)
  | .sendNonceNotify _ => (s, .done)
  | .getAuthValue h => (s, .value (secGetAuthValue s h).1 (secGetAuthValue s h).2)

/-- The state after `sec_init` at start-up. -/
def bootSec : SecState := secInit defaultNonceLen

/-- The state after a sequence of calls. -/
def secAfter (es : List TimedCall) : SecState :=
  es.foldl (fun s e => (secStep hmac s e).1) bootSec

@[simp] theorem secAfter_nil : secAfter hmac [] = bootSec := rfl

@[simp] theorem secAfter_concat (es : List TimedCall) (e : TimedCall) :
    secAfter hmac (es ++ [e]) = (secStep hmac (secAfter hmac es) e).1 := by
  rw [secAfter, List.foldl_append]
  rfl

/-! ### The session of a non-zero handle along a run -/

/-- What one call does to the session of the handle `h`, given the key and nonce length
in force and whether the table has a free slot. -/
def sessionStep (s : SecState) (h : UInt16) (e : TimedCall) : Option Session :=
  match e.call with
  | .init => none
  | .onConnect g words =>
    if g = h ∧ ((sessionOf s h).isSome ∨ (findEntry s 0).isSome) then
      some ⟨drawn words s.nonceLen, e.now, false⟩
    else sessionOf s h
  | .handleAuthResponse g response =>
    (sessionOf s h).map fun c =>
      if g = h ∧ c.Accepts hmac s.privKey e.now response then { c with authenticated := true }
      else c
  | .clearConn g => if g = h then none else sessionOf s h
  | _ => sessionOf s h

/-- A new key changes no session. -/
theorem conns_secSetPrivateKey (s : SecState) (key : Option Bytes) :
    (secSetPrivateKey s key).conns = s.conns := by
  cases key with
  | none => rfl
  | some key =>
      dsimp only [secSetPrivateKey]
      split_ifs <;> rfl

/-- A new nonce length changes none, either. -/
theorem conns_secSetNonceLen (s : SecState) (k : ℕ) :
    (secSetNonceLen s k).conns = s.conns := by
  rw [secSetNonceLen]
  split_ifs <;> rfl

/-- **One call.** A call keeps the table sound and changes the session of a non-zero
handle as `sessionStep` says. -/
theorem TableOk.secStep {s : SecState} (hs : TableOk s) (e : TimedCall) :
    TableOk (secStep hmac s e).1 ∧
      ∀ h, h ≠ 0 → sessionOf (AirShifter.secStep hmac s e).1 h = sessionStep hmac s h e := by
  obtain ⟨now, call⟩ := e
  cases call with
  | init => exact ⟨tableOk_secInit _, fun h hh => sessionOf_secInit _ hh⟩
  | onConnect g words => exact hs.secOnConnect now words g
  | handleAuthResponse g response =>
      exact ⟨hs.secHandleAuthResponse hmac now g response,
        fun h _ => sessionOf_secHandleAuthResponse hmac s now g response h⟩
  | clearConn g => exact hs.secClearConn g
  | setPrivateKey key =>
      have hconns := conns_secSetPrivateKey s key
      simp only [AirShifter.secStep, sessionStep, TableOk, sessionOf, hconns]
      exact ⟨hs, fun _ _ => trivial⟩
  | setNonceLen k =>
      have hconns := conns_secSetNonceLen s k
      simp only [AirShifter.secStep, sessionStep, TableOk, sessionOf, hconns]
      exact ⟨hs, fun _ _ => trivial⟩
  | isConnAuthenticated g => exact ⟨hs, fun _ _ => rfl⟩
  | sendNonceNotify g => exact ⟨hs, fun _ _ => rfl⟩
  | getAuthValue g => exact ⟨hs, fun _ _ => rfl⟩

/-- Every reachable table is sound. -/
theorem tableOk_secAfter (es : List TimedCall) : TableOk (secAfter hmac es) :=
  foldl_history (I := fun _ s => TableOk s) (tableOk_secInit _)
    (fun _ e ih => (ih.secStep hmac e).1) es

/-! ### Time stamps -/

/-- The time stamp of the entry `c` is zero, or the time of a connect, among the calls
`es`, of the handle that the entry carries. -/
def CreatedBy (es : List TimedCall) (c : Conn) : Prop :=
  c.createdTsMs = 0 ∨ ∃ words, ⟨c.createdTsMs, .onConnect c.connHandle words⟩ ∈ es

/-- A session stays created by its connection. -/
theorem CreatedBy.concat {es : List TimedCall} {c : Conn} (h : CreatedBy es c)
    (e : TimedCall) : CreatedBy (es ++ [e]) c :=
  h.imp id fun ⟨words, hw⟩ => ⟨words, List.mem_append_left _ hw⟩

/-- Writing one entry whose time stamp is accounted for. -/
theorem createdBy_set {es : List TimedCall} {s : SecState}
    (h : ∀ i, CreatedBy es (s.slot i)) {i : Fin maxSecConns} {c : Conn}
    (hc : CreatedBy es c) (j : Fin maxSecConns) : CreatedBy es ((s.setSlot i c).slot j) := by
  rw [slot_setSlot]
  split_ifs
  · exact hc
  · exact h j

/-- **Time stamps stay with their handle**, whatever slots are freed, reused or shared
through handle 0. -/
theorem createdBy_secAfter (es : List TimedCall) :
    ∀ i, CreatedBy es ((secAfter hmac es).slot i) := by
  refine foldl_history (I := fun es (s : SecState) => ∀ i, CreatedBy es (s.slot i)) ?_ ?_ es
  · intro i
    exact Or.inl (by simp [bootSec, secInit])
  · intro pre e ih
    generalize pre.foldl (fun s e => (secStep hmac s e).1) bootSec = s at ih
    replace ih : ∀ i, CreatedBy (pre ++ [e]) (s.slot i) :=
      fun i => (ih i).concat e
    obtain ⟨now, call⟩ := e
    cases call with
    | init => exact fun i => Or.inl (by simp [secStep, secInit])
    | onConnect g words =>
        dsimp only [secStep]
        rw [secOnConnect_eq]
        cases connectSlot s g with
        | none => exact ih
        | some k =>
            refine createdBy_set ih (Or.inr ⟨words, ?_⟩)
            exact List.mem_append_right _ (List.mem_singleton.mpr rfl)
    | handleAuthResponse g response =>
        dsimp only [secStep]
        rw [secHandleAuthResponse_eq]
        cases findEntry s g with
        | none => exact ih
        | some k =>
            dsimp only
            split_ifs
            · exact createdBy_set ih (ih k)
            · exact ih
    | clearConn g =>
        dsimp only [secStep]
        rw [secClearConn]
        cases findEntry s g with
        | none => exact ih
        | some k => exact createdBy_set ih (Or.inl rfl)
    | setPrivateKey key =>
        intro i
        dsimp only [secStep, SecState.slot]
        rw [conns_secSetPrivateKey]
        exact ih i
    | setNonceLen k =>
        intro i
        dsimp only [secStep, SecState.slot]
        rw [conns_secSetNonceLen]
        exact ih i
    | isConnAuthenticated g => exact ih
    | sendNonceNotify g => exact ih
    | getAuthValue g => exact ih

/-! ### A sample run -/

/-- HMAC-SHA256 under the default key at two inputs: the empty string and sixteen zero
bytes. -/
def sampleHmac (key data : Bytes) : Vector UInt8 hmacSha256Len :=
  if key = defaultKey ∧ data = [] then
    #v[72, 136, 196, 67, 180, 152, 110, 224, 210, 123, 146, 116, 119, 89, 95, 100,
      6, 226, 185, 189, 65, 249, 160, 135, 118, 147, 255, 191, 136, 246, 50, 28]
  else if key = defaultKey ∧ data = List.replicate 16 0 then
    #v[215, 242, 25, 253, 104, 164, 173, 36, 19, 228, 200, 228, 9, 123, 250, 1,
      115, 207, 53, 145, 96, 29, 150, 235, 48, 224, 193, 84, 201, 51, 171, 188]
  else Vector.replicate hmacSha256Len 0

/-- `h` connects, draws a zero nonce, and answers it. -/
def answeredRun (h : UInt16) : List TimedCall :=
  [⟨0, .onConnect h (Vector.replicate 8 0)⟩,
    ⟨7, .handleAuthResponse h (some (sampleHmac defaultKey (List.replicate 16 0)).toList)⟩]

end AirShifter
