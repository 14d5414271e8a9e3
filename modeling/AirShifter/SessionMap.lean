import AirShifter.SecurityRun

/-!
# The Session Table as a Bounded Map

What the session table of `security.c` is for: a map from at most three connection
handles to sessions. `SessionMap` is that map, with the bound as a field, and `mapStep`
gives the meaning of each call on it. Times are natural numbers here, so that the age of
a session is an honest comparison and not an unsigned subtraction.

## Main results

* `Simulates.step`, `Simulates.skip`: a call on a non-zero handle is answered alike by
  table and map and keeps them related; a call on handle 0 keeps them related with the
  map standing still.
* `secAnswers_refine`: along every run with a non-decreasing clock, the answers to all
  calls but those on handle 0 are the answers of the map that never sees the latter.
-/

open CBytes SlotTable Runs

namespace AirShifter

/-! ### The abstract machine -/

/-- A session as the map keeps it. -/
structure MapSession where
  nonce : Bytes
  created : ℕ
  authenticated : Bool

/-- A session is live until the nonce lifetime has passed since its creation. -/
def MapSession.Live (c : MapSession) (now : ℕ) : Prop :=
  now ≤ c.created + nonceLifetimeMs.toNat

instance (c : MapSession) (now : ℕ) : Decidable (c.Live now) :=
  inferInstanceAs (Decidable (_ ≤ _))

/-- A map from at most `MAX_SEC_CONNS` handles to sessions, with the key and the nonce
length in force. -/
structure SessionMap where
  sessions : Finmap fun _ : UInt16 => MapSession
  card_le : sessions.keys.card ≤ maxSecConns
  key : Bytes
  nonceLen : NonceLen

/-- The empty map. -/
def SessionMap.empty (nonceLen : NonceLen) : SessionMap :=
  { sessions := ∅, card_le := by decide, key := defaultKey, nonceLen := nonceLen }

/-- A session that is put in has its handle among the keys. -/
theorem keys_insert (m : Finmap fun _ : UInt16 => MapSession) (h : UInt16) (c : MapSession) :
    (m.insert h c).keys = insert h m.keys := by
  ext k
  simp [Finmap.mem_keys, Finmap.mem_insert]

/-- One that is taken out has not. -/
theorem keys_erase (m : Finmap fun _ : UInt16 => MapSession) (h : UInt16) :
    (m.erase h).keys = m.keys.erase h := by
  ext k
  simp [Finmap.mem_keys]

/-- Set the session of `h`, if it has one or the map has room. -/
def SessionMap.put (a : SessionMap) (h : UInt16) (c : MapSession) : SessionMap :=
  if hroom : h ∈ a.sessions ∨ a.sessions.keys.card < maxSecConns then
    { a with
      sessions := a.sessions.insert h c
      card_le := by
        rw [keys_insert]
        rcases hroom with hmem | hlt
        · rw [Finset.insert_eq_of_mem (Finmap.mem_keys.mpr hmem)]
          exact a.card_le
        · exact (Finset.card_insert_le h _).trans hlt }
  else a

/-- With room or a session of its own, a handle gets the session. -/
theorem SessionMap.sessions_put {h : UInt16} (a : SessionMap) (c : MapSession)
    (hroom : h ∈ a.sessions ∨ a.sessions.keys.card < maxSecConns) :
    (a.put h c).sessions = a.sessions.insert h c := by
  rw [SessionMap.put, dif_pos hroom]

/-- A handle the map has no room for is not taken in. -/
theorem SessionMap.put_of_full {h : UInt16} {a : SessionMap} (c : MapSession)
    (hfull : ¬ (h ∈ a.sessions ∨ a.sessions.keys.card < maxSecConns)) : a.put h c = a :=
  dif_neg hfull

/-- A session does not change the key. -/
@[simp] theorem SessionMap.key_put (a : SessionMap) (h : UInt16) (c : MapSession) :
    (a.put h c).key = a.key := by
  rw [SessionMap.put]
  split_ifs <;> rfl

/-- Nor does it change the nonce length. -/
@[simp] theorem SessionMap.nonceLen_put (a : SessionMap) (h : UInt16) (c : MapSession) :
    (a.put h c).nonceLen = a.nonceLen := by
  rw [SessionMap.put]
  split_ifs <;> rfl

/-- Delete the session of `h`. -/
def SessionMap.delete (a : SessionMap) (h : UInt16) : SessionMap :=
  { a with
    sessions := a.sessions.erase h
    card_le := by
      rw [keys_erase]
      exact (Finset.card_erase_le).trans a.card_le }

variable (hmac : Bytes → Bytes → Vector UInt8 hmacSha256Len)

/-- A response authenticates a session: it comes in time, has 32 bytes, and they equal
the HMAC of the nonce. -/
def MapSession.Accepts (key : Bytes) (now : ℕ) (c : MapSession) (response : Option Bytes) :
    Prop :=
  c.Live now ∧
    match response with
    | none => False
    | some m => m.length = hmacSha256Len ∧ m = (hmac key c.nonce).toList

instance (key : Bytes) (now : ℕ) (c : MapSession) (response : Option Bytes) :
    Decidable (c.Accepts hmac key now response) :=
  match response with
  | none => isFalse fun h => h.2
  | some _ => inferInstanceAs (Decidable (_ ∧ _ ∧ _))

/-- The meaning of a call on the map. -/
def mapStep (a : SessionMap) (e : TimedCall) : SessionMap × SecAnswer :=
  match e.call with
  | .init => (SessionMap.empty a.nonceLen, .done)
  | .onConnect h words => (a.put h ⟨drawn words a.nonceLen, e.now.toNat, false⟩, .done)
  | .handleAuthResponse h response =>
    match a.sessions.lookup h with
    | none => (a, .flag false)
    | some c =>
      if c.Accepts hmac a.key e.now.toNat response then
        (a.put h { c with authenticated := true }, .flag true)
      else (a, .flag false)
  | .isConnAuthenticated h =>
    (a, .flag ((a.sessions.lookup h).any fun c =>
      c.authenticated && decide (c.Live e.now.toNat)))
  | .clearConn h => (a.delete h, .done)
  | .setPrivateKey key =>
    (match key with
      | some (b :: bs) => { a with key := b :: bs }
      | _ => a, .done)
  | .setNonceLen k =>
    (if h : 1 ≤ k ∧ k ≤ 32 then { a with nonceLen := ⟨k, h⟩ } else a, .done)
  | .sendNonceNotify _ => (a, .done)
  | .getAuthValue h =>
    (a, match a.sessions.lookup h with
      | none => .value (-1) []
      | some c => .value c.nonce.length c.nonce)

/-! ### The simulation relation -/

/-- A session of the table, as the map keeps it. -/
def Session.toMap (c : Session) : MapSession :=
  ⟨c.nonce, c.createdTsMs.toNat, c.authenticated⟩

/-- The unsigned age test agrees with the comparison of times as long as the clock has
not gone back behind the time stamp. -/
theorem age_le_iff {created now : UInt64} (h : created ≤ now) (d : UInt64) :
    now - created ≤ d ↔ now.toNat ≤ created.toNat + d.toNat := by
  have hle := UInt64.le_iff_toNat_le.mp h
  rw [UInt64.le_iff_toNat_le, UInt64.toNat_sub_of_le _ _ h]
  omega

/-- Table `s` represents map `a`, the clock having reached `m`. -/
structure Simulates (m : UInt64) (s : SecState) (a : SessionMap) : Prop where
  tableOk : TableOk s
  lookup : ∀ h, h ≠ 0 → a.sessions.lookup h = (sessionOf s h).map Session.toMap
  zero : a.sessions.lookup 0 = none
  key : a.key = s.privKey
  nonceLen : a.nonceLen = s.nonceLen
  session : ∀ h c, h ≠ 0 → sessionOf s h = some c → c.createdTsMs ≤ m ∧ c.nonce ≠ []

variable {hmac} {m : UInt64} {s : SecState} {a : SessionMap}

/-- The map has the sessions of the table. -/
theorem Simulates.mem_iff (h : Simulates m s a) {g : UInt16} (hg : g ≠ 0) :
    g ∈ a.sessions ↔ (sessionOf s g).isSome = true := by
  rw [← Finmap.lookup_isSome, h.lookup g hg, Option.isSome_map]

/-- The map has room exactly when the table has a free slot. -/
theorem Simulates.room_iff (h : Simulates m s a) :
    a.sessions.keys.card < maxSecConns ↔ (findEntry s 0).isSome = true := by
  have hkeys : a.sessions.keys = occupied Conn.connHandle (· = 0) s.conns := by
    ext g
    rw [Finmap.mem_keys, mem_occupied]
    by_cases hg : g = 0
    · subst hg
      rw [← Finmap.lookup_isSome, h.zero]
      simp
    · rw [h.mem_iff hg, sessionOf, Option.isSome_map]
      simp [hg]
  rw [hkeys, card_occupied_lt_iff h.tableOk, freeSlot_eq_findEntry]

/-- The relation only looks at the table through lookups of non-zero handles. -/
theorem Simulates.of_sessionOf_eq (h : Simulates m s a) {m' : UInt64} (hm : m ≤ m')
    {s' : SecState} (hok : TableOk s') (hget : ∀ g, g ≠ 0 → sessionOf s' g = sessionOf s g)
    (hkey : s'.privKey = s.privKey) (hlen : s'.nonceLen = s.nonceLen) :
    Simulates m' s' a where
  tableOk := hok
  lookup g hg := by rw [hget g hg]; exact h.lookup g hg
  zero := h.zero
  key := by rw [hkey]; exact h.key
  nonceLen := by rw [hlen]; exact h.nonceLen
  session g c hg hc := by
    obtain ⟨hle, hne⟩ := h.session g c hg (by rw [← hget g hg]; exact hc)
    exact ⟨UInt64.le_trans hle hm, hne⟩

/-- A simulation holds for a later clock, too. -/
theorem Simulates.mono (h : Simulates m s a) {m' : UInt64} (hm : m ≤ m') :
    Simulates m' s a :=
  h.of_sessionOf_eq hm h.tableOk (fun _ _ => rfl) rfl rfl

/-- Both sides replace the session of one non-zero handle. -/
theorem Simulates.put (h : Simulates m s a) {g : UInt16} (hg : g ≠ 0)
    (hroom : (sessionOf s g).isSome ∨ (findEntry s 0).isSome) {c : Session}
    (hc : c.createdTsMs ≤ m ∧ c.nonce ≠ []) {s' : SecState} (hok : TableOk s')
    (hget : ∀ k, k ≠ 0 → sessionOf s' k = if g = k then some c else sessionOf s k)
    (hkey : s'.privKey = s.privKey) (hlen : s'.nonceLen = s.nonceLen) :
    Simulates m s' (a.put g c.toMap) := by
  have hput := a.sessions_put c.toMap (show g ∈ a.sessions ∨ _ by rwa [h.mem_iff hg, h.room_iff])
  refine ⟨hok, fun k hk => ?_, ?_, ?_, ?_, fun k c' hk hc' => ?_⟩
  · rw [hput, hget k hk]
    split_ifs with hgk
    · rw [← hgk, Finmap.lookup_insert, Option.map_some]
    · rw [Finmap.lookup_insert_of_ne _ (Ne.symm hgk), h.lookup k hk]
  · rw [hput, Finmap.lookup_insert_of_ne _ hg.symm, h.zero]
  · rw [SessionMap.key_put, hkey, h.key]
  · rw [SessionMap.nonceLen_put, hlen, h.nonceLen]
  · rw [hget k hk] at hc'
    split_ifs at hc' with hgk
    · exact Option.some.inj hc' ▸ hc
    · exact h.session k c' hk hc'

variable (hmac) in
/-- The two acceptance tests agree on a session whose time stamp the clock has passed. -/
theorem accepts_toMap_iff {c : Session} (key : Bytes) {now : UInt64}
    (hle : c.createdTsMs ≤ now) (response : Option Bytes) :
    c.toMap.Accepts hmac key now.toNat response ↔ c.Accepts hmac key now response := by
  refine and_congr (age_le_iff hle _).symm ?_
  cases response with
  | none => simp
  | some m =>
      simp only [Option.some.injEq, Session.toMap]
      constructor
      · exact And.right
      · rintro rfl
        exact ⟨by simp, rfl⟩

/-! ### One call -/

/-- At the start there are no sessions in either. -/
theorem simulates_init (m : UInt64) (k : NonceLen) :
    Simulates m (secInit k) (SessionMap.empty k) where
  tableOk := tableOk_secInit k
  lookup g hg := by
    rw [sessionOf_secInit k hg]
    exact Finmap.lookup_empty g
  zero := Finmap.lookup_empty 0
  key := rfl
  nonceLen := rfl
  session g c hg hc := by
    rw [sessionOf_secInit k hg] at hc
    exact absurd hc (by simp)

/-- **A call on handle 0** leaves the map the table represents as it is. -/
theorem Simulates.skip (h : Simulates m s a) {e : TimedCall} (hm : m ≤ e.now)
    (he : e.call.handle? = some 0) : Simulates e.now (secStep hmac s e).1 a := by
  obtain ⟨hok, hget⟩ := h.tableOk.secStep hmac e
  obtain ⟨now, call⟩ := e
  cases call with
  | init | setPrivateKey | setNonceLen => exact absurd he (by simp [SecCall.handle?])
  | onConnect g words =>
      obtain rfl : g = 0 := by simpa [SecCall.handle?] using he
      obtain ⟨hkey, hlen⟩ := config_secOnConnect s now words 0
      refine h.of_sessionOf_eq hm hok (fun k hk => ?_) hkey hlen
      rw [hget k hk, sessionStep]
      exact if_neg fun hc => hk hc.1.symm
  | handleAuthResponse g response =>
      obtain rfl : g = 0 := by simpa [SecCall.handle?] using he
      obtain ⟨hkey, hlen⟩ := config_secHandleAuthResponse hmac s now 0 response
      refine h.of_sessionOf_eq hm hok (fun k hk => ?_) hkey hlen
      rw [hget k hk, sessionStep]
      cases sessionOf s k with
      | none => rfl
      | some c => exact congrArg some (if_neg fun hc => hk hc.1.symm)
  | clearConn g =>
      obtain rfl : g = 0 := by simpa [SecCall.handle?] using he
      obtain ⟨hkey, hlen⟩ := config_secClearConn s 0
      refine h.of_sessionOf_eq hm hok (fun k hk => ?_) hkey hlen
      rw [hget k hk, sessionStep]
      exact if_neg hk.symm
  | isConnAuthenticated g | sendNonceNotify g | getAuthValue g => exact h.mono hm

/-- A session the table finds is the one the map finds. -/
theorem Simulates.lookup_eq (h : Simulates m s a) {g : UInt16} (hg : g ≠ 0) :
    (sessionOf s g = none ∧ a.sessions.lookup g = none) ∨
      ∃ c, sessionOf s g = some c ∧ a.sessions.lookup g = some c.toMap ∧
        c.createdTsMs ≤ m ∧ c.nonce ≠ [] := by
  rw [h.lookup g hg]
  cases hc : sessionOf s g with
  | none => exact Or.inl ⟨rfl, rfl⟩
  | some c => exact Or.inr ⟨c, rfl, rfl, h.session g c hg hc⟩

/-- **A connect** of a non-zero handle. -/
theorem Simulates.onConnect (h : Simulates m s a) {now : UInt64} (hm : m ≤ now)
    (words : RandomWords) {g : UInt16} (hg : g ≠ 0) :
    Simulates now (secOnConnect s now words g)
      (a.put g ⟨drawn words a.nonceLen, now.toNat, false⟩) := by
  obtain ⟨hok, hget⟩ := h.tableOk.secOnConnect now words g
  obtain ⟨hkey, hlen⟩ := config_secOnConnect s now words g
  by_cases hroom : (sessionOf s g).isSome = true ∨ (findEntry s 0).isSome = true
  · have hput := (h.mono hm).put hg hroom (c := ⟨drawn words s.nonceLen, now, false⟩)
      ⟨UInt64.le_refl _, drawn_ne_nil words _⟩ hok (fun k hk => ?_) hkey hlen
    · rwa [h.nonceLen]
    · rw [hget k hk]
      by_cases hgk : g = k
      · subst hgk
        rw [if_pos ⟨rfl, hroom⟩, if_pos rfl]
      · rw [if_neg fun hc => hgk hc.1, if_neg hgk]
  · rw [SessionMap.put_of_full _ (by rwa [h.mem_iff hg, h.room_iff])]
    refine h.of_sessionOf_eq hm hok (fun k hk => ?_) hkey hlen
    rw [hget k hk]
    refine if_neg ?_
    rintro ⟨rfl, hc⟩
    exact hroom hc

/-- **An auth response** on a non-zero handle. -/
theorem Simulates.handleAuthResponse (h : Simulates m s a) {now : UInt64} (hm : m ≤ now)
    (response : Option Bytes) {g : UInt16} (hg : g ≠ 0) :
    (secStep hmac s ⟨now, .handleAuthResponse g response⟩).2 =
        (mapStep hmac a ⟨now, .handleAuthResponse g response⟩).2 ∧
      Simulates now (secStep hmac s ⟨now, .handleAuthResponse g response⟩).1
        (mapStep hmac a ⟨now, .handleAuthResponse g response⟩).1 := by
  have hok := h.tableOk.secHandleAuthResponse hmac now g response
  have hget := sessionOf_secHandleAuthResponse hmac s now g response
  obtain ⟨hkey, hlen⟩ := config_secHandleAuthResponse hmac s now g response
  have hsnd := secHandleAuthResponse_snd hmac s now g response
  obtain ⟨hc, hl⟩ | ⟨c, hc, hl, hle, hne⟩ := h.lookup_eq hg
  · simp only [mapStep, hl, secStep, hsnd, hc, Option.any_none]
    refine ⟨trivial, h.of_sessionOf_eq hm hok (fun k _ => ?_) hkey hlen⟩
    rw [hget k]
    cases hk' : sessionOf s k with
    | none => rfl
    | some c =>
        refine congrArg some (if_neg ?_)
        rintro ⟨rfl, -⟩
        rw [hc] at hk'
        exact absurd hk' (by simp)
  · have hacc := accepts_toMap_iff hmac s.privKey (UInt64.le_trans hle hm) response
    simp only [mapStep, hl, secStep, hsnd, hc, Option.any_some, h.key]
    by_cases hok' : c.Accepts hmac s.privKey now response
    · rw [if_pos (hacc.mpr hok'), decide_eq_true hok']
      refine ⟨rfl, (h.mono hm).put hg (Or.inl (by rw [hc]; rfl))
        (c := { c with authenticated := true }) ⟨UInt64.le_trans hle hm, hne⟩ hok
        (fun k _ => ?_) hkey hlen⟩
      rw [hget k]
      by_cases hgk : g = k
      · subst hgk
        rw [hc, Option.map_some, if_pos ⟨rfl, hok'⟩, if_pos rfl]
      · rw [if_neg hgk]
        cases sessionOf s k with
        | none => rfl
        | some c => exact congrArg some (if_neg fun hc => hgk hc.1)
    · rw [if_neg (hacc.not.mpr hok'), decide_eq_false hok']
      refine ⟨rfl, h.of_sessionOf_eq hm hok (fun k _ => ?_) hkey hlen⟩
      rw [hget k]
      cases hk' : sessionOf s k with
      | none => rfl
      | some c' =>
          refine congrArg some (if_neg ?_)
          rintro ⟨rfl, hc'⟩
          rw [hc] at hk'
          exact hok' (Option.some.inj hk' ▸ hc')

/-- **A clear** of a non-zero handle. -/
theorem Simulates.clearConn (h : Simulates m s a) {g : UInt16} (hg : g ≠ 0) :
    Simulates m (secClearConn s g) (a.delete g) := by
  obtain ⟨hok, hget⟩ := h.tableOk.secClearConn g
  obtain ⟨hkey, hlen⟩ := config_secClearConn s g
  refine ⟨hok, fun k hk => ?_, ?_, hkey ▸ h.key, hlen ▸ h.nonceLen, fun k c hk hc => ?_⟩
  · rw [hget k hk, SessionMap.delete]
    split_ifs with hgk
    · rw [← hgk, Finmap.lookup_erase, Option.map_none]
    · rw [Finmap.lookup_erase_ne (Ne.symm hgk), h.lookup k hk]
  · rw [SessionMap.delete, Finmap.lookup_erase_ne hg.symm, h.zero]
  · rw [hget k hk] at hc
    split_ifs at hc
    exact h.session k c hk hc

/-- **A call on any other handle, or on none,** is answered alike and keeps table and map
related. -/
theorem Simulates.step (h : Simulates m s a) {e : TimedCall} (hm : m ≤ e.now)
    (he : e.call.handle? ≠ some 0) :
    (secStep hmac s e).2 = (mapStep hmac a e).2 ∧
      Simulates e.now (secStep hmac s e).1 (mapStep hmac a e).1 := by
  obtain ⟨now, call⟩ := e
  cases call with
  | init =>
      have hmap : (mapStep hmac a ⟨now, .init⟩).1 = SessionMap.empty s.nonceLen :=
        congrArg SessionMap.empty h.nonceLen
      rw [hmap]
      exact ⟨rfl, simulates_init now s.nonceLen⟩
  | onConnect g words =>
      have hg : g ≠ 0 := by simpa [SecCall.handle?] using he
      exact ⟨rfl, h.onConnect hm words hg⟩
  | handleAuthResponse g response =>
      have hg : g ≠ 0 := by simpa [SecCall.handle?] using he
      exact h.handleAuthResponse hm response hg
  | isConnAuthenticated g =>
      have hg : g ≠ 0 := by simpa [SecCall.handle?] using he
      refine ⟨?_, h.mono hm⟩
      simp only [secStep, mapStep, secIsConnAuthenticated_eq]
      obtain ⟨hc, hl⟩ | ⟨c, hc, hl, hle, -⟩ := h.lookup_eq hg
      · rw [hc, hl, Option.any_none, Option.any_none]
      · rw [hc, hl, Option.any_some, Option.any_some]
        have hlive := age_le_iff (UInt64.le_trans hle hm) nonceLifetimeMs
        simp only [hlive]
        rfl
  | clearConn g =>
      have hg : g ≠ 0 := by simpa [SecCall.handle?] using he
      exact ⟨rfl, (h.mono hm).clearConn hg⟩
  | setPrivateKey key =>
      refine ⟨rfl, ?_⟩
      have h' := h.mono hm
      rcases key with - | - | ⟨b, bs⟩
      · exact h'
      · exact h'
      · exact ⟨h'.tableOk, h'.lookup, h'.zero, rfl, h'.nonceLen, h'.session⟩
  | setNonceLen k =>
      refine ⟨rfl, ?_⟩
      have h' := h.mono hm
      dsimp only [secStep, mapStep]
      rw [secSetNonceLen]
      by_cases hk : 1 ≤ k ∧ k ≤ 32
      · rw [dif_neg (by omega), dif_pos hk]
        exact ⟨h'.tableOk, h'.lookup, h'.zero, h'.key, rfl, h'.session⟩
      · rw [dif_pos (by omega), dif_neg hk]
        exact h'
  | sendNonceNotify g => exact ⟨rfl, h.mono hm⟩
  | getAuthValue g =>
      have hg : g ≠ 0 := by simpa [SecCall.handle?] using he
      refine ⟨?_, h.mono hm⟩
      simp only [secStep, mapStep, secGetAuthValue_eq]
      obtain ⟨hc, hl⟩ | ⟨c, hc, hl, -, hne⟩ := h.lookup_eq hg
      · rw [hc, hl]
      · rw [hc, hl]
        simp only [if_neg hne]
        rfl

/-! ### Whole runs -/

/-- The calls the map gets to see. -/
def TimedCall.visible (e : TimedCall) : Bool :=
  decide (e.call.handle? ≠ some 0)

variable (hmac) in
/-- **The session table refines the bounded map.** Along every run with a non-decreasing
clock, the answers to the calls that are not about handle 0 are the answers of the map
to these calls alone. -/
theorem secAnswers_refine (es : List TimedCall) (hclock : Monotone TimedCall.now 0 es) :
    (answers (secStep hmac) bootSec es).filter (fun p => p.1.visible) =
      answers (mapStep hmac) (SessionMap.empty defaultNonceLen) (es.filter TimedCall.visible) :=
  Monotone.answers_filter
    (fun h hm hv => h.step hm (by simpa [TimedCall.visible] using hv))
    (fun h hm hv => h.skip hm (by simpa [TimedCall.visible] using hv))
    (simulates_init 0 defaultNonceLen) hclock

/-- Handle 0 connects, answers and leaves around the run of handle 5. -/
theorem secAnswers_refine_mixed :
    ((answers (secStep sampleHmac) bootSec
        (⟨0, .onConnect 0 (Vector.replicate 8 1)⟩ :: answeredRun 5 ++
          [⟨8, .clearConn 0⟩, ⟨9, .isConnAuthenticated 5⟩])).filter fun p => p.1.visible) =
      answers (mapStep sampleHmac) (SessionMap.empty defaultNonceLen)
        (answeredRun 5 ++ [⟨9, .isConnAuthenticated 5⟩]) :=
  secAnswers_refine sampleHmac _ (by decide)

end AirShifter
