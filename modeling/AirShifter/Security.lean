import AirShifter.CBytes
import AirShifter.Runs
import AirShifter.SlotTable

/-!
# The Security Module

The challenge-response module `security.c`: a fixed table of per-connection sessions, a
private key, and a configurable nonce length. A session is opened by `secOnConnect`,
which draws a nonce for the connection; it is authenticated by a response that equals
the HMAC of the nonce under the private key, within the nonce lifetime.

The module reads three things from outside: the clock, the random words of
`esp_random()`, and HMAC-SHA256. The first two are arguments of the operations that read
them. The third is an arbitrary function `hmac` of key and data to 32 bytes.

`auth_value` and `auth_val_len`, the copy of the last nonce kept for the notification,
are written by the module and read by nobody, and are left out.

## Main results

* `toList_take_fillNonce`: the word-wise copy loop leaves exactly the drawn bytes in the
  nonce buffer.
* `secHandleAuthResponse_eq`, `secHandleAuthResponse_snd`: a response is accepted exactly
  if it meets `Session.Accepts` for the session of its handle.
* `TableOk.secOnConnect`, `sessionOf_secHandleAuthResponse`, `TableOk.secClearConn`: what
  each operation does to the session of a non-zero handle.
-/

open CBytes SlotTable

namespace AirShifter

/-! ### State -/

/-- `MAX_SEC_CONNS`. -/
abbrev maxSecConns : ℕ := 3

/-- `HMAC_SHA256_LEN`. -/
abbrev hmacSha256Len : ℕ := 32

/-- `NONCE_LIFETIME_MS`, five minutes. -/
def nonceLifetimeMs : UInt64 := 60 * 1000 * 5

/-- One entry of `s_conns`. The default value is the entry `memset` to zero. -/
structure Conn where
  connHandle : UInt16 := 0
  nonce : Vector UInt8 32 := Vector.replicate 32 0
  nonceLen : {k : ℕ // k ≤ 32} := ⟨0, by decide⟩
  createdTsMs : UInt64 := 0
  authenticated : Bool := false
  deriving DecidableEq

/-- The nonce bytes of an entry: what is read out and what the response is computed
over. -/
def Conn.issued (c : Conn) : Bytes :=
  c.nonce.toList.take c.nonceLen

/-- A value of `s_nonce_len`: the setter admits only lengths that fit the nonce
buffer. -/
abbrev NonceLen := {k : ℕ // 1 ≤ k ∧ k ≤ 32}

/-- The state of the module: `s_conns`, `s_priv_key` with its length, `s_nonce_len`. -/
structure SecState where
  conns : Vector Conn maxSecConns
  privKey : Bytes
  nonceLen : NonceLen
  deriving DecidableEq

/-- The entry in the slot `i`. -/
abbrev SecState.slot (s : SecState) (i : Fin maxSecConns) : Conn := s.conns[i]

/-- The state with the entry `c` in the slot `i`. -/
abbrev SecState.setSlot (s : SecState) (i : Fin maxSecConns) (c : Conn) : SecState :=
  { s with conns := s.conns.set i c }

/-- A slot that is set, and the others. -/
theorem slot_setSlot (s : SecState) (i j : Fin maxSecConns) (c : Conn) :
    (s.setSlot i c).slot j = if i = j then c else s.slot j :=
  get_set _ _ _ _

/-- The words the calls of `esp_random()` return while one nonce is drawn. A nonce has
at most 32 bytes, so at most eight words are drawn. -/
abbrev RandomWords := Vector UInt32 8

/-- `default_key`. -/
def defaultKey : Bytes := ascii "fan12345"

/-- `s_nonce_len` before any call. -/
def defaultNonceLen : NonceLen := ⟨16, by decide⟩

/-- `sec_init`. The nonce length is not reset. -/
def secInit (nonceLen : NonceLen) : SecState :=
  { conns := Vector.replicate maxSecConns {}
    privKey := defaultKey
    nonceLen := nonceLen }

/-! ### The table helpers -/

/-- `find_entry`. -/
def findEntry (s : SecState) (connHandle : UInt16) : Option (Fin maxSecConns) :=
  slotOf Conn.connHandle s.conns connHandle

/-- `alloc_entry`: the handle 0 marks a free entry. -/
def allocEntry (s : SecState) (connHandle : UInt16) : Option (Fin maxSecConns × SecState) :=
  (freeSlot Conn.connHandle (· = 0) s.conns).map fun i =>
    (i, { s with
      conns := s.conns.set i { s.conns[i] with
        connHandle := connHandle
        authenticated := false
        nonceLen := ⟨0, by decide⟩
        createdTsMs := 0 } })

/-- `free_entry_index`. -/
def freeEntryIndex (s : SecState) (idx : Fin maxSecConns) : SecState :=
  { s with conns := s.conns.set idx {} }

/-- The copy loop of `generate_nonce_for_index`: word by word, the last one cut to what
remains. -/
def fillNonce (words : RandomWords) (nonceLen : ℕ) (nonce : Vector UInt8 32) :
    Vector UInt8 32 :=
  (List.range ((nonceLen + 3) / 4)).foldl
    (fun nonce k =>
      memcpy nonce (4 * k) ((leBytes (words.toList.getD k 0)).take (nonceLen - 4 * k)))
    nonce

/-- `generate_nonce_for_index`; `none` is `ESP_ERR_INVALID_ARG`. -/
def generateNonceForIndex (s : SecState) (now : UInt64) (words : RandomWords)
    (idx : Fin maxSecConns) : Option SecState :=
  if s.nonceLen.val > 32 then none
  else
    some { s with
      conns := s.conns.set idx { s.conns[idx] with
        nonce := fillNonce words s.nonceLen s.conns[idx].nonce
        nonceLen := ⟨s.nonceLen, s.nonceLen.2.2⟩
        createdTsMs := now
        authenticated := false } }

/-! ### The public functions -/

/-- `sec_set_nonce_len`. -/
def secSetNonceLen (s : SecState) (nonceLen : ℕ) : SecState :=
  if h : nonceLen = 0 ∨ nonceLen > 32 then s
  else { s with nonceLen := ⟨nonceLen, by omega⟩ }

/-- `sec_set_private_key`; `none` is a null pointer. -/
def secSetPrivateKey (s : SecState) (key : Option Bytes) : SecState :=
  match key with
  | none => s
  | some key => if key.length = 0 then s else { s with privKey := key }

/-- `sec_on_connect`: find or allocate an entry, then draw a nonce into it. -/
def secOnConnect (s : SecState) (now : UInt64) (words : RandomWords) (connHandle : UInt16) :
    SecState :=
  let found := match findEntry s connHandle with
    | some idx => some (idx, s)
    | none => allocEntry s connHandle
  match found with
  | none => s
  | some (idx, s') => (generateNonceForIndex s' now words idx).getD s'

/-- The constant-time comparison loop: the bits in which the two strings differ. -/
def diffBytes (expected hmac : Bytes) : UInt8 :=
  (expected.zip hmac).foldl (fun diff p => diff ||| (p.1 ^^^ p.2)) 0

/-- `sec_handle_auth_response`; a response `none` is a null pointer. -/
def secHandleAuthResponse (hmac : Bytes → Bytes → Vector UInt8 hmacSha256Len) (s : SecState)
    (now : UInt64) (connHandle : UInt16) (response : Option Bytes) : SecState × Bool :=
  match findEntry s connHandle with
  | none => (s, false)
  | some idx =>
    let c := s.conns[idx]
    if now - c.createdTsMs > nonceLifetimeMs then (s, false)
    else
      match response with
      | none => (s, false)
      | some m =>
        if m.length ≠ hmacSha256Len then (s, false)
        else if diffBytes (hmac s.privKey c.issued).toList m = 0 then
          ({ s with conns := s.conns.set idx { c with authenticated := true } }, true)
        else (s, false)

/-- `sec_is_conn_authenticated`. -/
def secIsConnAuthenticated (s : SecState) (now : UInt64) (connHandle : UInt16) : Bool :=
  match findEntry s connHandle with
  | none => false
  | some idx =>
    s.conns[idx].authenticated && decide (now - s.conns[idx].createdTsMs ≤ nonceLifetimeMs)

/-- `sec_clear_conn`. -/
def secClearConn (s : SecState) (connHandle : UInt16) : SecState :=
  match findEntry s connHandle with
  | none => s
  | some idx => freeEntryIndex s idx

/-- `sec_get_auth_value`: the return value and the bytes copied to the caller's
buffer. -/
def secGetAuthValue (s : SecState) (connHandle : UInt16) : ℤ × Bytes :=
  match findEntry s connHandle with
  | none => (-1, [])
  | some idx =>
    if s.conns[idx].nonceLen.val = 0 then (-1, [])
    else ((s.conns[idx].nonceLen.val : ℤ), s.conns[idx].issued)

/-! ### The drawn nonce -/

/-- The nonce a connect draws: the random words laid out in memory, cut to the nonce
length. -/
def drawn (words : RandomWords) (nonceLen : ℕ) : Bytes :=
  (words.toList.flatMap leBytes).take nonceLen

/-- Eight words have 32 bytes. -/
theorem length_flatMap_leBytes (words : RandomWords) :
    (words.toList.flatMap leBytes).length = 32 := by
  simp [List.length_flatMap]

/-- A nonce has the length it is drawn with. -/
theorem length_drawn (words : RandomWords) {k : ℕ} (hk : k ≤ 32) :
    (drawn words k).length = k := by
  rw [drawn, List.length_take, length_flatMap_leBytes]
  omega

/-- No nonce is drawn empty. -/
theorem drawn_ne_nil (words : RandomWords) (k : NonceLen) : drawn words k ≠ [] := by
  rw [← List.length_pos_iff, length_drawn words k.2.2]
  exact k.2.1

/-- The copy loop after `m` words: the bytes below `4 * m` and below the nonce length
are drawn, the others are as before. -/
theorem getElem_fillNonce_aux (words : RandomWords) (k m : ℕ) (nonce : Vector UInt8 32)
    {i : ℕ} (hi : i < 32) :
    ((List.range m).foldl
      (fun nonce j =>
        memcpy nonce (4 * j) ((leBytes (words.toList.getD j 0)).take (k - 4 * j)))
      nonce)[i] =
      if i < 4 * m ∧ i < k then (words.toList.flatMap leBytes).getD i 0 else nonce[i] := by
  induction m with
  | zero => simp
  | succ m ih =>
      rw [List.range_succ, List.foldl_append, List.foldl_cons, List.foldl_nil, getElem_memcpy,
        ih, List.length_take, length_leBytes]
      by_cases hin : 4 * m ≤ i ∧ i < 4 * m + min (k - 4 * m) 4
      · have hdiv : i / 4 = m := by omega
        have hsub : i - 4 * m = i % 4 := by omega
        have hlt : i % 4 < ((leBytes (words.toList.getD m 0)).take (k - 4 * m)).length := by
          rw [List.length_take, length_leBytes]
          omega
        rw [if_pos hin, if_pos (by omega), getD_flatMap_leBytes, hdiv, hsub,
          List.getD_eq_getElem _ _ hlt, List.getElem_take, ← List.getD_eq_getElem _ 0]
      · rw [if_neg hin]
        by_cases hbelow : i < 4 * m ∧ i < k
        · rw [if_pos hbelow, if_pos (by omega)]
        · rw [if_neg hbelow, if_neg (by omega)]

/-- The bytes that are drawn fill the front of the buffer. -/
theorem getElem_fillNonce (words : RandomWords) (k : ℕ) (nonce : Vector UInt8 32) {i : ℕ}
    (hi : i < 32) : (fillNonce words k nonce)[i] =
      if i < k then (words.toList.flatMap leBytes).getD i 0 else nonce[i] := by
  have haux := getElem_fillNonce_aux words k ((k + 3) / 4) nonce hi
  have hiff : i < 4 * ((k + 3) / 4) ∧ i < k ↔ i < k := by omega
  simp only [hiff] at haux
  exact haux

/-- **The nonce buffer holds the drawn bytes.** -/
theorem toList_take_fillNonce (words : RandomWords) {k : ℕ} (hk : k ≤ 32)
    (nonce : Vector UInt8 32) :
    (fillNonce words k nonce).toList.take k = drawn words k := by
  apply List.ext_getElem
  · rw [length_drawn words hk, List.length_take, Vector.length_toList]
    omega
  · intro i h₁ h₂
    have hik : i < k := by simpa [hk] using h₁
    rw [List.getElem_take, Vector.getElem_toList,
      getElem_fillNonce words k nonce (by omega), if_pos hik]
    simp only [drawn, List.getElem_take]
    rw [List.getD_eq_getElem _ _ (by rw [length_flatMap_leBytes]; omega)]

/-! ### The comparison loop -/

/-- The bits that differ add up to nothing exactly if no byte differs. -/
theorem foldl_or_eq_zero_iff (l : List (UInt8 × UInt8)) (acc : UInt8) :
    l.foldl (fun diff p => diff ||| (p.1 ^^^ p.2)) acc = 0 ↔
      acc = 0 ∧ ∀ p ∈ l, p.1 = p.2 := by
  induction l generalizing acc with
  | nil => simp
  | cons p l ih =>
      rw [List.foldl_cons, ih, UInt8.or_eq_zero_iff, UInt8.xor_eq_zero_iff]
      simp [and_assoc]

/-- The comparison finds no differing bit exactly when the two strings are equal. -/
theorem diffBytes_eq_zero_iff {a b : Bytes} (h : a.length = b.length) :
    diffBytes a b = 0 ↔ a = b := by
  rw [diffBytes, foldl_or_eq_zero_iff]
  constructor
  · rintro ⟨-, hall⟩
    apply List.ext_getElem h
    intro i ha hb
    exact hall (a[i], b[i]) (List.mem_iff_getElem.mpr ⟨i, by simp [ha, hb], by simp⟩)
  · rintro rfl
    refine ⟨rfl, fun p hp => ?_⟩
    obtain ⟨i, hi, rfl⟩ := List.mem_iff_getElem.mp hp
    simp

/-! ### Sessions: what a lookup of a handle finds -/

/-- What an entry of the table means to its connection. -/
structure Session where
  nonce : Bytes
  createdTsMs : UInt64
  authenticated : Bool
  deriving DecidableEq

/-- The session an entry holds. -/
def Conn.session (c : Conn) : Session :=
  ⟨c.issued, c.createdTsMs, c.authenticated⟩

/-- The session a lookup of `connHandle` finds. -/
def sessionOf (s : SecState) (connHandle : UInt16) : Option Session :=
  (entryOf Conn.connHandle s.conns connHandle).map Conn.session

/-- Whether a response is accepted for a session: it comes within the nonce lifetime and
equals the HMAC of the session's nonce. -/
def Session.Accepts (hmac : Bytes → Bytes → Vector UInt8 hmacSha256Len) (key : Bytes)
    (now : UInt64) (c : Session) (response : Option Bytes) : Prop :=
  now - c.createdTsMs ≤ nonceLifetimeMs ∧ response = some (hmac key c.nonce).toList

instance (hmac : Bytes → Bytes → Vector UInt8 hmacSha256Len) (key : Bytes) (now : UInt64)
    (c : Session) (response : Option Bytes) : Decidable (c.Accepts hmac key now response) :=
  inferInstanceAs (Decidable (_ ∧ _))

/-- The challenge of a slot has the length that the slot says. -/
theorem Conn.length_issued (c : Conn) : c.issued.length = c.nonceLen.val := by
  have := c.nonceLen.2
  rw [Conn.issued, List.length_take, Vector.length_toList]
  omega

/-- It is empty exactly if that is 0. -/
theorem Conn.issued_eq_nil_iff (c : Conn) : c.issued = [] ↔ c.nonceLen.val = 0 := by
  rw [← List.length_eq_zero_iff, Conn.length_issued]

/-- A lookup of a handle finds no session exactly when `find_entry` finds no slot. -/
theorem sessionOf_eq_none_iff {s : SecState} {h : UInt16} :
    sessionOf s h = none ↔ findEntry s h = none := by
  rw [sessionOf, entryOf, Option.map_eq_none_iff, Option.map_eq_none_iff, findEntry]

/-- The session of a handle is that of its slot. -/
theorem sessionOf_of_findEntry {s : SecState} {h : UInt16} {i : Fin maxSecConns}
    (hi : findEntry s h = some i) : sessionOf s h = some s.conns[i].session := by
  rw [findEntry] at hi
  rw [sessionOf, entryOf, hi]
  rfl

/-- A handle has a session exactly if it has a slot. -/
theorem isSome_sessionOf (s : SecState) (h : UInt16) :
    (sessionOf s h).isSome = (findEntry s h).isSome := by
  rw [sessionOf, entryOf, Option.isSome_map, Option.isSome_map, findEntry]

/-- A connection is authenticated by its session, as long as that is fresh. -/
theorem secIsConnAuthenticated_eq (s : SecState) (now : UInt64) (h : UInt16) :
    secIsConnAuthenticated s now h =
      (sessionOf s h).any fun c =>
        c.authenticated && decide (now - c.createdTsMs ≤ nonceLifetimeMs) := by
  rw [secIsConnAuthenticated]
  cases hf : findEntry s h with
  | none => rw [sessionOf_eq_none_iff.mpr hf]; rfl
  | some i => rw [sessionOf_of_findEntry hf]; rfl

/-- The value for authentication is the challenge of the session. -/
theorem secGetAuthValue_eq (s : SecState) (h : UInt16) :
    secGetAuthValue s h =
      match sessionOf s h with
      | none => (-1, [])
      | some c => if c.nonce = [] then (-1, []) else ((c.nonce.length : ℤ), c.nonce) := by
  rw [secGetAuthValue]
  cases hf : findEntry s h with
  | none => rw [sessionOf_eq_none_iff.mpr hf]
  | some i =>
      rw [sessionOf_of_findEntry hf]
      simp only [Conn.session, Conn.issued_eq_nil_iff, Conn.length_issued]

/-- The two outcomes of `sec_handle_auth_response`: an accepted response sets the flag of
the session found, every other call changes nothing. -/
theorem secHandleAuthResponse_eq (hmac : Bytes → Bytes → Vector UInt8 hmacSha256Len)
    (s : SecState) (now : UInt64) (h : UInt16) (response : Option Bytes) :
    secHandleAuthResponse hmac s now h response =
      match findEntry s h with
      | none => (s, false)
      | some i =>
        if s.conns[i].session.Accepts hmac s.privKey now response then
          ({ s with conns := s.conns.set i { s.conns[i] with authenticated := true } }, true)
        else (s, false) := by
  rw [secHandleAuthResponse]
  cases hf : findEntry s h with
  | none => rfl
  | some i =>
      dsimp only
      generalize s.conns[i] = c
      generalize ({ s with conns := s.conns.set i { c with authenticated := true } }, true) = ok
      by_cases hage : now - c.createdTsMs > nonceLifetimeMs
      · have hacc : ¬ c.session.Accepts hmac s.privKey now response :=
          fun h => UInt64.not_le.mpr hage h.1
        rw [if_pos hage, if_neg hacc]
      rw [if_neg hage]
      have hfresh : now - c.createdTsMs ≤ nonceLifetimeMs := UInt64.not_lt.mp hage
      cases response with
      | none => rw [if_neg fun h => absurd h.2 (by simp)]
      | some m =>
          dsimp only
          by_cases hlen : m.length = hmacSha256Len
          · have hdiff : diffBytes (hmac s.privKey c.issued).toList m = 0 ↔
                c.session.Accepts hmac s.privKey now (some m) := by
              rw [diffBytes_eq_zero_iff (by simp [hlen])]
              simp [Session.Accepts, Conn.session, hfresh, eq_comm]
            rw [if_neg (not_not.mpr hlen)]
            exact if_congr hdiff rfl rfl
          · have hacc : ¬ c.session.Accepts hmac s.privKey now (some m) := by
              rintro ⟨-, hm⟩
              exact hlen (by rw [Option.some.inj hm, Vector.length_toList])
            rw [if_pos hlen, if_neg hacc]

/-- A response is accepted by the session. -/
theorem secHandleAuthResponse_snd (hmac : Bytes → Bytes → Vector UInt8 hmacSha256Len)
    (s : SecState) (now : UInt64) (h : UInt16) (response : Option Bytes) :
    (secHandleAuthResponse hmac s now h response).2 =
      (sessionOf s h).any fun c => decide (c.Accepts hmac s.privKey now response) := by
  rw [secHandleAuthResponse_eq]
  cases hf : findEntry s h with
  | none => rw [sessionOf_eq_none_iff.mpr hf]; rfl
  | some i =>
      rw [sessionOf_of_findEntry hf, Option.any_some]
      dsimp only
      split_ifs with hacc
      · exact (decide_eq_true hacc).symm
      · exact (decide_eq_false hacc).symm

/-! ### What the operations do to the session of a non-zero handle -/

/-- No two entries carry the same non-zero handle. -/
def TableOk (s : SecState) : Prop :=
  Distinct Conn.connHandle (· = 0) s.conns

/-- The table is in order at the start. -/
theorem tableOk_secInit (k : NonceLen) : TableOk (secInit k) := by
  intro i j hi
  exact absurd (by simp [secInit]) hi

/-- There are no sessions at the start. -/
theorem sessionOf_secInit (k : NonceLen) {h : UInt16} (hh : h ≠ 0) :
    sessionOf (secInit k) h = none := by
  refine sessionOf_eq_none_iff.mpr (slotOf_eq_none_iff.mpr fun i => ?_)
  simpa [secInit] using hh.symm

/-- Overwriting an entry of a sound table: the table stays sound if the entry becomes
free, keeps its handle, or takes a handle no entry carries; and the sessions of non-zero
handles change as one expects. -/
theorem TableOk.write {s : SecState} (hs : TableOk s) {i : Fin maxSecConns} {e : Conn}
    (he : e.connHandle = 0 ∨ e.connHandle = s.conns[i].connHandle ∨
      findEntry s e.connHandle = none) :
    TableOk { s with conns := s.conns.set i e } ∧
      ∀ h, h ≠ 0 → sessionOf { s with conns := s.conns.set i e } h =
        if e.connHandle = h then some e.session
        else if s.conns[i].connHandle = h then none else sessionOf s h := by
  have hd : Distinct Conn.connHandle (· = 0) (s.conns.set i e) := by
    refine Distinct.set hs ?_
    rw [findEntry, slotOf_eq_none_iff] at he
    exact he
  refine ⟨hd, fun h hh => ?_⟩
  rw [sessionOf, entryOf_set hs hd hh]
  split_ifs <;> rfl

/-- A free slot is what a lookup of handle 0 finds. -/
theorem freeSlot_eq_findEntry (s : SecState) :
    freeSlot Conn.connHandle (· = 0) s.conns = findEntry s 0 := rfl

/-- A lookup that finds slot `i` still finds it after a write to `i` that keeps the
handle. -/
theorem findEntry_set_self {s : SecState} {g : UInt16} {i : Fin maxSecConns} {d : Conn}
    (hf : findEntry s g = some i) (hd : d.connHandle = g) :
    findEntry { s with conns := s.conns.set i d } g = some i := by
  unfold findEntry slotOf at hf ⊢
  exact first_set_self hf (by simpa using hd)

/-- A write behind the slot a lookup finds does not change the lookup. -/
theorem findEntry_set_of_lt {s : SecState} {g : UInt16} {i z : Fin maxSecConns} (d : Conn)
    (hf : findEntry s g = some z) (hz : z < i) :
    findEntry { s with conns := s.conns.set i d } g = some z := by
  unfold findEntry slotOf at hf ⊢
  exact first_set_of_lt d hf hz

/-- A write to a slot of another handle, by an entry of another handle, does not change a
lookup. -/
theorem findEntry_set_of_ne {s : SecState} {g : UInt16} {i : Fin maxSecConns} {d : Conn}
    (hi : s.conns[i].connHandle ≠ g) (hd : d.connHandle ≠ g) :
    findEntry { s with conns := s.conns.set i d } g = findEntry s g := by
  unfold findEntry slotOf
  exact first_set_of_neg (beq_eq_false_iff_ne.mpr hi) (beq_eq_false_iff_ne.mpr hd)

/-- Such a write does not change the session of that handle. -/
theorem sessionOf_set_of_ne {s : SecState} {g : UInt16} {i : Fin maxSecConns} {d : Conn}
    (hi : s.conns[i].connHandle ≠ g) (hd : d.connHandle ≠ g) :
    sessionOf { s with conns := s.conns.set i d } g = sessionOf s g := by
  have hfind := findEntry_set_of_ne hi hd
  cases hz : findEntry s g with
  | none => rw [sessionOf_eq_none_iff.mpr hz, sessionOf_eq_none_iff.mpr (hfind.trans hz)]
  | some z =>
      have hne : i ≠ z := by
        rintro rfl
        exact hi (key_of_slotOf hz)
      rw [sessionOf_of_findEntry hz, sessionOf_of_findEntry (hfind.trans hz)]
      exact congrArg (fun c : Conn => some c.session) (by rw [get_set, if_neg hne])

/-- The slot a connect of `h` writes: the slot of `h`, or else the first free one. -/
def connectSlot (s : SecState) (h : UInt16) : Option (Fin maxSecConns) :=
  (findEntry s h).or (findEntry s 0)

/-- The entry a connect of `h` leaves in the slot that held `c`. -/
def Conn.opened (c : Conn) (now : UInt64) (words : RandomWords) (k : NonceLen) (h : UInt16) :
    Conn :=
  { connHandle := h
    nonce := fillNonce words k c.nonce
    nonceLen := ⟨k, k.2.2⟩
    createdTsMs := now
    authenticated := false }

/-- A slot that is opened has the handle. -/
@[simp] theorem Conn.connHandle_opened (c : Conn) (now : UInt64) (words : RandomWords)
    (k : NonceLen) (h : UInt16) : (c.opened now words k h).connHandle = h := rfl

/-- It has a challenge that nobody has answered. -/
@[simp] theorem Conn.session_opened (c : Conn) (now : UInt64) (words : RandomWords)
    (k : NonceLen) (h : UInt16) :
    (c.opened now words k h).session = ⟨drawn words k, now, false⟩ := by
  simp [Conn.session, Conn.opened, Conn.issued, toList_take_fillNonce words k.2.2]

/-- The two outcomes of `sec_on_connect`: with no slot to take nothing changes, otherwise
one slot is overwritten. -/
theorem secOnConnect_eq (s : SecState) (now : UInt64) (words : RandomWords) (h : UInt16) :
    secOnConnect s now words h =
      match connectSlot s h with
      | none => s
      | some i =>
        { s with conns := s.conns.set i (s.conns[i].opened now words s.nonceLen h) } := by
  have hlen : ¬ s.nonceLen.val > 32 := not_lt.mpr s.nonceLen.2.2
  rw [secOnConnect, connectSlot]
  cases hf : findEntry s h with
  | some i =>
      have hkey : s.conns[i].connHandle = h := key_of_slotOf hf
      simp only [generateNonceForIndex, if_neg hlen, Option.getD_some, Option.some_or,
        Conn.opened, hkey]
  | none =>
      rw [allocEntry, freeSlot_eq_findEntry]
      cases findEntry s 0 with
      | none => rfl
      | some i =>
          simp [generateNonceForIndex, hlen, Conn.opened, Vector.set_set]

/-- **Connect.** A connect opens a session with a freshly drawn nonce, in place of the
old one or in a free slot; without either it does nothing. No other non-zero handle is
affected. -/
theorem TableOk.secOnConnect {s : SecState} (hs : TableOk s) (now : UInt64)
    (words : RandomWords) (g : UInt16) :
    TableOk (secOnConnect s now words g) ∧
      ∀ h, h ≠ 0 → sessionOf (AirShifter.secOnConnect s now words g) h =
        if g = h ∧ ((sessionOf s h).isSome ∨ (findEntry s 0).isSome) then
          some ⟨drawn words s.nonceLen, now, false⟩
        else sessionOf s h := by
  rw [secOnConnect_eq, connectSlot]
  cases hf : findEntry s g with
  | some i =>
      have hkey : s.conns[i].connHandle = g := key_of_slotOf hf
      obtain ⟨hok, hget⟩ := hs.write (i := i)
        (e := s.conns[i].opened now words s.nonceLen g) (Or.inr (Or.inl hkey.symm))
      refine ⟨hok, fun h hh => ?_⟩
      rw [Option.some_or]
      dsimp only
      rw [hget h hh, Conn.session_opened, Conn.connHandle_opened]
      by_cases hgh : g = h
      · subst hgh
        rw [if_pos rfl, if_pos ⟨rfl, Or.inl (by rw [isSome_sessionOf, hf]; rfl)⟩]
      · rw [if_neg hgh, if_neg (by rwa [hkey]), if_neg fun hc => hgh hc.1]
  | none =>
      rw [Option.none_or]
      cases hz : findEntry s 0 with
      | none =>
          refine ⟨hs, fun h _ => ?_⟩
          rw [if_neg]
          rintro ⟨rfl, hc | hc⟩
          · rw [isSome_sessionOf, hf] at hc
            exact absurd hc (by simp)
          · exact absurd hc (by simp)
      | some i =>
          have hkey : s.conns[i].connHandle = 0 := key_of_slotOf hz
          obtain ⟨hok, hget⟩ := hs.write (i := i)
            (e := s.conns[i].opened now words s.nonceLen g) (Or.inr (Or.inr hf))
          refine ⟨hok, fun h hh => ?_⟩
          dsimp only
          rw [hget h hh, Conn.session_opened, Conn.connHandle_opened]
          by_cases hgh : g = h
          · subst hgh
            rw [if_pos rfl, if_pos ⟨rfl, Or.inr rfl⟩]
          · rw [if_neg hgh, if_neg (by rw [hkey]; exact hh.symm), if_neg fun hc => hgh hc.1]

/-- **Authentication.** An accepted response sets the flag of the session it is for, and
nothing else changes. -/
theorem sessionOf_secHandleAuthResponse
    (hmac : Bytes → Bytes → Vector UInt8 hmacSha256Len) (s : SecState) (now : UInt64)
    (g : UInt16) (response : Option Bytes) (h : UInt16) :
    sessionOf (secHandleAuthResponse hmac s now g response).1 h =
      (sessionOf s h).map fun c =>
        if g = h ∧ c.Accepts hmac s.privKey now response then { c with authenticated := true }
        else c := by
  rw [secHandleAuthResponse_eq]
  have hsame : ∀ {P : Session → Prop} [DecidablePred P],
      (∀ c, sessionOf s h = some c → ¬ P c) →
      sessionOf s h = (sessionOf s h).map fun c =>
        if P c then { c with authenticated := true } else c := by
    intro P _ hP
    cases hc : sessionOf s h with
    | none => rfl
    | some c => rw [Option.map_some, if_neg (hP c hc)]
  cases hf : findEntry s g with
  | none =>
      refine hsame ?_
      rintro c hc ⟨rfl, -⟩
      rw [sessionOf_eq_none_iff.mpr hf] at hc
      exact absurd hc (by simp)
  | some i =>
      have hkey : s.conns[i].connHandle = g := key_of_slotOf hf
      dsimp only
      split_ifs with hacc
      · by_cases hgh : g = h
        · subst hgh
          have hfind := findEntry_set_self (d := { s.conns[i] with authenticated := true }) hf hkey
          rw [sessionOf_of_findEntry hfind, sessionOf_of_findEntry hf, Option.map_some,
            if_pos ⟨rfl, hacc⟩]
          dsimp only
          rw [get_set, if_pos rfl]
          rfl
        · dsimp only
          rw [sessionOf_set_of_ne (hkey ▸ hgh) (hkey ▸ hgh)]
          exact hsame fun c _ hc => hgh hc.1
      · refine hsame ?_
        rintro c hc ⟨rfl, hc'⟩
        rw [sessionOf_of_findEntry hf] at hc
        exact hacc (Option.some.inj hc ▸ hc')

/-- A response keeps the table sound. -/
theorem TableOk.secHandleAuthResponse {s : SecState} (hs : TableOk s)
    (hmac : Bytes → Bytes → Vector UInt8 hmacSha256Len) (now : UInt64) (g : UInt16)
    (response : Option Bytes) : TableOk (secHandleAuthResponse hmac s now g response).1 := by
  rw [secHandleAuthResponse_eq]
  cases findEntry s g with
  | none => exact hs
  | some i =>
      dsimp only
      split_ifs
      · exact (hs.write (i := i) (e := { s.conns[i] with authenticated := true })
          (Or.inr (Or.inl rfl))).1
      · exact hs

/-- **Clear.** A clear removes the session of its handle and no other. -/
theorem TableOk.secClearConn {s : SecState} (hs : TableOk s) (g : UInt16) :
    TableOk (secClearConn s g) ∧
      ∀ h, h ≠ 0 → sessionOf (AirShifter.secClearConn s g) h =
        if g = h then none else sessionOf s h := by
  rw [AirShifter.secClearConn]
  cases hf : findEntry s g with
  | none =>
      refine ⟨hs, fun h _ => ?_⟩
      split_ifs with hgh
      · rw [← hgh, sessionOf_eq_none_iff.mpr hf]
      · rfl
  | some i =>
      have hkey : s.conns[i].connHandle = g := key_of_slotOf hf
      obtain ⟨hok, hget⟩ := hs.write (i := i) (e := {}) (Or.inl rfl)
      refine ⟨hok, fun h hh => ?_⟩
      dsimp only [freeEntryIndex]
      rw [hget h hh, if_neg hh.symm, hkey]

/-! ### The operations on connections leave key and nonce length alone -/

/-- A connection changes neither the key nor the nonce length. -/
theorem config_secOnConnect (s : SecState) (now : UInt64) (words : RandomWords) (h : UInt16) :
    (secOnConnect s now words h).privKey = s.privKey ∧
      (secOnConnect s now words h).nonceLen = s.nonceLen := by
  rw [secOnConnect_eq]
  cases connectSlot s h <;> exact ⟨rfl, rfl⟩

/-- A response changes neither of them. -/
theorem config_secHandleAuthResponse (hmac : Bytes → Bytes → Vector UInt8 hmacSha256Len)
    (s : SecState) (now : UInt64) (h : UInt16) (response : Option Bytes) :
    (secHandleAuthResponse hmac s now h response).1.privKey = s.privKey ∧
      (secHandleAuthResponse hmac s now h response).1.nonceLen = s.nonceLen := by
  rw [secHandleAuthResponse_eq]
  cases findEntry s h with
  | none => exact ⟨rfl, rfl⟩
  | some i =>
      dsimp only
      split_ifs <;> exact ⟨rfl, rfl⟩

/-- Clearing a connection changes neither of them. -/
theorem config_secClearConn (s : SecState) (h : UInt16) :
    (secClearConn s h).privKey = s.privKey ∧ (secClearConn s h).nonceLen = s.nonceLen := by
  rw [secClearConn]
  cases findEntry s h <;> exact ⟨rfl, rfl⟩

end AirShifter
