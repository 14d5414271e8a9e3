import AirShifter.BizLogix
import AirShifter.Runs
import AirShifter.SlotTable

/-!
# The Key-Based Authentication Table

The older of the two authentication schemes, in `biz_logix.c`: a table of four slots, in
which a connection that sends the key of the device is marked as authenticated. Two
handles mark a slot as free, 0 and `BLE_HS_CONN_HANDLE_NONE`, and both can be passed in
as well; a query takes a slot like a verification does.

The table stands for two things: the set of handles that hold a slot, at most four, and
the handles verified since they were last cleared. `Represents` ties them to the slots.

## Main results

* `Represents.getAuthState`, `Represents.authenticate`, `Represents.clear`: what the
  parts of the three calls do to the set and to the flags.
* `represents_authAfter`: the table represents the holders and the verified handles of
  every history of calls.
* `authTable_refines`: what the two questions answer after any calls, on any handle.
-/

open CBytes SlotTable Runs

namespace AirShifter

/-! ### The three calls -/

/-- `g_auth_table`. -/
abbrev AuthTable := Vector AuthState maxBleConnections

/-- `DEVICE_AUTH_KEY`. -/
def deviceAuthKey : Bytes := ascii "fan12345"

/-- The handles that mark a slot as free. -/
def FreeHandle (connHandle : UInt16) : Prop :=
  connHandle = bleHsConnHandleNone ∨ connHandle = 0

instance : DecidablePred FreeHandle :=
  fun _ => inferInstanceAs (Decidable (_ ∨ _))

/-- `get_auth_state`: the slot, `none` for `NULL`, and the table with the slot taken. -/
def getAuthState (t : AuthTable) (connHandle : UInt16) :
    Option (Fin maxBleConnections) × AuthTable :=
  match slotOf AuthState.connHandle t connHandle with
  | some i => (some i, t)
  | none =>
    match freeSlot AuthState.connHandle FreeHandle t with
    | some i => (some i, t.set i { connHandle := connHandle, authenticated := false })
    | none => (none, t)

/-- `biz_verify_auth_key`. A key is the bytes of a C string, `none` a null pointer. -/
def bizVerifyAuthKey (t : AuthTable) (connHandle : UInt16) (key : Option Bytes) :
    AuthTable × Bool :=
  match getAuthState t connHandle with
  | (none, t) => (t, false)
  | (some i, t) =>
    if key = some deviceAuthKey then (t.set i { t.get i with authenticated := true }, true)
    else (t, false)

/-- `biz_is_authenticated`. -/
def bizIsAuthenticated (t : AuthTable) (connHandle : UInt16) : AuthTable × Bool :=
  match getAuthState t connHandle with
  | (none, t) => (t, false)
  | (some i, t) => (t, (t.get i).authenticated)

/-- A call on the table. -/
inductive AuthCall
  | verify (connHandle : UInt16) (key : Option Bytes)
  | query (connHandle : UInt16)
  | clear (connHandle : UInt16)
  deriving DecidableEq

/-- The effect of a call on the table. -/
def authStep (t : AuthTable) : AuthCall → AuthTable
  | .verify h key => (bizVerifyAuthKey t h key).1
  | .query h => (bizIsAuthenticated t h).1
  | .clear h => bizClearAuth t h

/-- The table after the calls `es`, from the table of zeros. -/
def authAfter (es : List AuthCall) : AuthTable :=
  es.foldl authStep (Vector.replicate _ {})

/-! ### What the table stands for -/

/-- The holders once `connHandle` asked for a slot: it gets one unless it is reserved or
the four are taken. -/
def takeSlot (held : Finset UInt16) (connHandle : UInt16) : Finset UInt16 :=
  if ¬ FreeHandle connHandle ∧ held.card < maxBleConnections then insert connHandle held
  else held

/-- The effect of a call on the set of holders. -/
def holdStep (held : Finset UInt16) : AuthCall → Finset UInt16
  | .verify h _ => takeSlot held h
  | .query h => takeSlot held h
  | .clear h => held.erase h

/-- The handles that hold a slot after the calls `es`: a handle takes one at its first
verification or query, and gives it up at its clear. -/
def holders (es : List AuthCall) : Finset UInt16 :=
  es.foldl holdStep ∅

theorem holders_concat (es : List AuthCall) (e : AuthCall) :
    holders (es ++ [e]) = holdStep (holders es) e :=
  List.foldl_append ..

/-- Some verification of `connHandle` since its latest clear succeeded. -/
def VerifiedSince (es : List AuthCall) (connHandle : UInt16) : Prop :=
  ∃ pre key post, es = pre ++ .verify connHandle key :: post ∧
    .clear connHandle ∉ post ∧
    (bizVerifyAuthKey (authAfter pre) connHandle key).2 = true

/-- A call that succeeds as a verification counts, one that is not the clear of the handle
leaves what counted before. -/
theorem verifiedSince_concat {es : List AuthCall} {e : AuthCall} {h : UInt16} :
    VerifiedSince (es ++ [e]) h ↔
      (∃ key, e = .verify h key ∧ (bizVerifyAuthKey (authAfter es) h key).2 = true) ∨
        (e ≠ .clear h ∧ VerifiedSince es h) := by
  constructor
  · rintro ⟨pre, key, post, hes, hpost, hok⟩
    rcases concat_eq_append_cons_iff.mp hes with ⟨rfl, rfl, -⟩ | ⟨post', rfl, rfl⟩
    · exact Or.inl ⟨key, rfl, hok⟩
    · rw [List.mem_append, List.mem_singleton, not_or] at hpost
      exact Or.inr ⟨Ne.symm hpost.2, pre, key, post', rfl, hpost.1, hok⟩
  · rintro (⟨key, rfl, hok⟩ | ⟨he, pre, key, post, rfl, hpost, hok⟩)
    · exact ⟨es, key, [], rfl, List.not_mem_nil, hok⟩
    · refine ⟨pre, key, post ++ [e], by simp, ?_, hok⟩
      rw [List.mem_append, List.mem_singleton, not_or]
      exact ⟨hpost, Ne.symm he⟩

/-- The table `t` stands for the holders `held` and the verified handles `auth`. A flag
is only ever set for a verified handle; the flags of the reserved handles may be lost. -/
structure Represents (t : AuthTable) (held : Finset UInt16) (auth : UInt16 → Prop) : Prop where
  distinct : Distinct AuthState.connHandle FreeHandle t
  held : occupied AuthState.connHandle FreeHandle t = held
  flag : ∀ i, (t.get i).authenticated = true → auth (t.get i).connHandle
  kept : ∀ h, ¬ FreeHandle h → auth h → entryOf AuthState.connHandle t h = some ⟨h, true⟩

variable {t : AuthTable} {held : Finset UInt16} {auth : UInt16 → Prop}

/-- Only which handles are authenticated matters. -/
theorem Represents.congr (hr : Represents t held auth) {auth' : UInt16 → Prop}
    (h : ∀ k, auth' k ↔ auth k) : Represents t held auth' := by
  rwa [funext fun k => propext (h k)]

/-- A slot that is set, and the others. -/
theorem get_set_slot (t : AuthTable) (i j : Fin maxBleConnections) (e : AuthState) :
    (t.set i e).get j = if i = j then e else t.get j :=
  get_set t i j e

section SlotWrite

variable {i : Fin maxBleConnections} {e : AuthState} (hr : Represents t held auth)
  (he : e.connHandle = (t.get i).connHandle ∨
    (FreeHandle (t.get i).connHandle ∧ slotOf AuthState.connHandle t e.connHandle = none))

include hr he

/-- The slots stay distinct when one is taken. -/
theorem Represents.distinct_set : Distinct AuthState.connHandle FreeHandle (t.set i e) := by
  refine hr.distinct.set (Or.inr ?_)
  rcases he with he | ⟨-, he⟩
  · exact Or.inl he
  · exact Or.inr (slotOf_eq_none_iff.mp he)

/-- A non-reserved handle other than the one written finds what it found before. -/
theorem Represents.entryOf_set_of_ne {h : UInt16} (hh : ¬ FreeHandle h) (hne : h ≠ e.connHandle) :
    entryOf AuthState.connHandle (t.set i e) h = entryOf AuthState.connHandle t h := by
  rw [entryOf_set hr.distinct (hr.distinct_set he) hh, if_neg (Ne.symm hne), if_neg]
  rintro rfl
  rcases he with he | ⟨hfree, -⟩
  · exact hne he.symm
  · exact hh hfree

/-- The slot that is taken is the entry of its handle. -/
theorem Represents.entryOf_set_self (hh : ¬ FreeHandle e.connHandle) :
    entryOf AuthState.connHandle (t.set i e) e.connHandle = some e := by
  rw [entryOf_set hr.distinct (hr.distinct_set he) hh, if_pos rfl]

/-- **One write to a slot**, be it an update in place or an allocation: the handle written
becomes a holder unless it is reserved, and its flag is the one written. -/
theorem Represents.set {auth' : UInt16 → Prop} (hmono : ∀ h, auth h → auth' h)
    (hauth : ∀ h, h ≠ e.connHandle → auth' h → auth h)
    (hflag : e.authenticated = true → auth' e.connHandle)
    (hkept : ¬ FreeHandle e.connHandle → auth' e.connHandle → e.authenticated = true) :
    Represents (t.set i e)
      (if FreeHandle e.connHandle then held else insert e.connHandle held) auth' := by
  refine ⟨hr.distinct_set he, ?_, fun j hj => ?_, fun h hh hauthh => ?_⟩
  · ext h
    rw [mem_occupied]
    by_cases hne : h = e.connHandle
    · subst hne
      split_ifs with hfree
      · rw [← hr.held, mem_occupied]
        simp [hfree]
      · simp [hfree, hr.entryOf_set_self he hfree]
    · have hmem : h ∈ (if FreeHandle e.connHandle then held else insert e.connHandle held) ↔
          h ∈ held := by
        split_ifs
        · rfl
        · rw [Finset.mem_insert, or_iff_right hne]
      rw [hmem, ← hr.held, mem_occupied]
      refine and_congr_right fun hh => ?_
      rw [hr.entryOf_set_of_ne he hh hne]
  · rw [get_set_slot] at hj ⊢
    split_ifs at hj ⊢ with hij
    · exact hflag hj
    · exact hmono _ (hr.flag j hj)
  · by_cases hne : h = e.connHandle
    · subst hne
      rw [hr.entryOf_set_self he hh]
      obtain ⟨k, b⟩ := e
      exact congrArg some (by rw [show b = true from hkept hh hauthh])
    · rw [hr.entryOf_set_of_ne he hh hne]
      exact hr.kept h hh (hauth h hne hauthh)

end SlotWrite

/-- The table of zeros stands for no holders and no verified handles. -/
theorem represents_init : Represents (Vector.replicate _ {}) ∅ fun _ => False where
  distinct i j hi := absurd (Or.inr (by simp)) hi
  held := by decide
  flag i hi := by simp [Vector.get] at hi
  kept h hh := False.elim

/-- A handle that is not reserved gets a slot exactly if it holds one or fewer than four
are held. -/
theorem Represents.isSome_getAuthState (hr : Represents t held auth) {h : UInt16}
    (hh : ¬ FreeHandle h) :
    (getAuthState t h).1.isSome = true ↔ h ∈ held ∨ held.card < maxBleConnections := by
  have hmem : h ∈ held ↔ (slotOf AuthState.connHandle t h).isSome = true := by
    rw [← hr.held, mem_occupied, entryOf, Option.isSome_map]
    exact and_iff_right hh
  have hroom : held.card < maxBleConnections ↔
      (freeSlot AuthState.connHandle FreeHandle t).isSome = true := by
    rw [← hr.held, card_occupied_lt_iff hr.distinct]
  rw [hmem, hroom, getAuthState]
  cases slotOf AuthState.connHandle t h with
  | some i => simp
  | none => cases freeSlot AuthState.connHandle FreeHandle t <;> simp

/-- **Asking for a slot** makes the handle a holder if there is room, and verifies
nobody. -/
theorem Represents.getAuthState (hr : Represents t held auth) (h : UInt16) :
    Represents (getAuthState t h).2 (takeSlot held h) auth := by
  have hroom : held.card < maxBleConnections ↔
      (freeSlot AuthState.connHandle FreeHandle t).isSome = true := by
    rw [← hr.held, card_occupied_lt_iff hr.distinct]
  rw [AirShifter.getAuthState]
  cases hslot : slotOf AuthState.connHandle t h with
  | some i =>
      have htake : takeSlot held h = held := by
        rw [takeSlot]
        split_ifs with hh
        · refine Finset.insert_eq_of_mem ?_
          rw [← hr.held, mem_occupied, entryOf, Option.isSome_map, hslot]
          exact ⟨hh.1, rfl⟩
        · rfl
      rwa [htake]
  | none =>
      cases hfree : freeSlot AuthState.connHandle FreeHandle t with
      | none =>
          have htake : takeSlot held h = held :=
            if_neg fun hh => absurd (hroom.mp hh.2) (by simp [hfree])
          rwa [htake]
      | some i =>
          have hi : FreeHandle (t.get i).connHandle := free_of_freeSlot hfree
          have htake : takeSlot held h = if FreeHandle h then held else insert h held := by
            have hlt := hroom.mpr (by rw [hfree]; rfl)
            rw [takeSlot, if_congr (and_iff_left hlt) rfl rfl, ite_not]
          rw [htake]
          refine hr.set (e := ⟨h, false⟩) (Or.inr ⟨hi, hslot⟩) (fun _ => id) (fun _ _ => id)
            (fun hf => absurd hf Bool.false_ne_true) fun hh hauth => ?_
          -- a verified handle would have been found
          have hentry := hr.kept h hh hauth
          rw [entryOf, hslot] at hentry
          exact absurd hentry (by simp)

/-- The slot `get_auth_state` returns carries the handle it was asked for. -/
theorem connHandle_getAuthState {h : UInt16} {i : Fin maxBleConnections}
    (hi : (getAuthState t h).1 = some i) : ((getAuthState t h).2.get i).connHandle = h := by
  rw [getAuthState] at hi ⊢
  cases hslot : slotOf AuthState.connHandle t h with
  | some j =>
      simp only [hslot, Option.some.injEq] at hi ⊢
      subst hi
      exact key_of_slotOf hslot
  | none =>
      cases hfree : freeSlot AuthState.connHandle FreeHandle t with
      | none => simp [hslot, hfree] at hi
      | some j =>
          simp only [hslot, hfree, Option.some.injEq] at hi ⊢
          subst hi
          rw [get_set_slot, if_pos rfl]

/-- A verification succeeds exactly with the key of the device and a slot. -/
theorem bizVerifyAuthKey_snd (t : AuthTable) (h : UInt16) (key : Option Bytes) :
    (bizVerifyAuthKey t h key).2 = true ↔
      key = some deviceAuthKey ∧ (getAuthState t h).1.isSome = true := by
  rw [bizVerifyAuthKey]
  rcases getAuthState t h with ⟨- | i, t'⟩
  · simp
  · dsimp only
    split_ifs with hkey <;> simp [hkey]

/-- **A verification** makes the handle a holder if there is room, and verifies it if it
succeeds. -/
theorem Represents.verify (hr : Represents t held auth) (h : UInt16) (key : Option Bytes) :
    Represents (bizVerifyAuthKey t h key).1 (takeSlot held h)
      fun k => (k = h ∧ (bizVerifyAuthKey t h key).2 = true) ∨ auth k := by
  have hget := hr.getAuthState h
  have hconn := fun i => connHandle_getAuthState (t := t) (h := h) (i := i)
  rw [bizVerifyAuthKey]
  generalize AirShifter.getAuthState t h = r at hget hconn ⊢
  obtain ⟨- | i, t'⟩ := r
  · simpa using hget
  · have hi : (t'.get i).connHandle = h := hconn i rfl
    dsimp only
    split_ifs with hkey
    · subst hi
      have hheld : (if FreeHandle (t'.get i).connHandle then takeSlot held (t'.get i).connHandle
          else insert (t'.get i).connHandle (takeSlot held (t'.get i).connHandle)) =
          takeSlot held (t'.get i).connHandle := by
        split_ifs with hfree
        · rfl
        · refine Finset.insert_eq_of_mem ?_
          rw [← hget.held, mem_occupied]
          refine ⟨hfree, Option.isSome_iff_exists.mpr ⟨t'.get i, ?_⟩⟩
          exact (entryOf_eq_some_iff hget.distinct hfree).mpr ⟨i, rfl, rfl⟩
      rw [← hheld]
      refine hget.set (e := { t'.get i with authenticated := true }) (Or.inl rfl)
        (fun _ => Or.inr) (fun k hk hauth => ?_) (fun _ => Or.inl ⟨rfl, rfl⟩) (fun _ _ => rfl)
      exact hauth.resolve_left fun hc => hk hc.1
    · simpa using hget

/-- **A query** makes the handle a holder if there is room. A handle that is told to be
authenticated is verified, and a verified handle is told so unless it is reserved. -/
theorem Represents.query (hr : Represents t held auth) (h : UInt16) :
    Represents (bizIsAuthenticated t h).1 (takeSlot held h) auth ∧
      ((bizIsAuthenticated t h).2 = true → auth h) ∧
      (¬ FreeHandle h → auth h → (bizIsAuthenticated t h).2 = true) := by
  have hget := hr.getAuthState h
  have hconn := fun i => connHandle_getAuthState (t := t) (h := h) (i := i)
  have hfound : ¬ FreeHandle h → auth h → (AirShifter.getAuthState t h).1.isSome = true := by
    intro hh hauth
    refine (hr.isSome_getAuthState hh).mpr (Or.inl ?_)
    rw [← hr.held, mem_occupied, hr.kept h hh hauth]
    exact ⟨hh, rfl⟩
  rw [bizIsAuthenticated]
  generalize AirShifter.getAuthState t h = r at hget hconn hfound ⊢
  obtain ⟨- | i, t'⟩ := r
  · exact ⟨hget, fun hf => absurd hf Bool.false_ne_true,
      fun hh hauth => absurd (hfound hh hauth) Bool.false_ne_true⟩
  · obtain rfl : (t'.get i).connHandle = h := hconn i rfl
    refine ⟨hget, hget.flag i, fun hh hauth => ?_⟩
    have hentry := hget.kept _ hh hauth
    rw [(entryOf_eq_some_iff hget.distinct hh).mpr ⟨i, rfl, rfl⟩] at hentry
    exact congrArg AuthState.authenticated (Option.some.inj hentry)

/-- What `biz_clear_auth` makes of one slot. -/
def clearEntry (connHandle : UInt16) (e : AuthState) : AuthState :=
  if e.connHandle = connHandle then
    { connHandle := bleHsConnHandleNone, authenticated := false }
  else e

/-- The sweep clears each slot by itself. -/
theorem bizClearAuth_eq (t : AuthTable) (h : UInt16) : bizClearAuth t h = t.map (clearEntry h) :=
  rfl

/-- It leaves the slots of other handles. -/
theorem clearEntry_of_ne {h : UInt16} {e : AuthState} (he : e.connHandle ≠ h) :
    clearEntry h e = e :=
  if_neg he

/-- Clearing a slot leaves its handle alone or frees it. -/
theorem free_clearEntry (h : UInt16) (e : AuthState) :
    FreeHandle (clearEntry h e).connHandle ∨ (clearEntry h e).connHandle = e.connHandle := by
  rw [clearEntry]
  split_ifs
  · exact Or.inl (Or.inl rfl)
  · exact Or.inr rfl

/-- After a clear a handle that is not reserved finds nothing if it is the one cleared, and
what it found before if it is not. -/
theorem entryOf_bizClearAuth (hd : Distinct AuthState.connHandle FreeHandle t) (h : UInt16)
    {k : UInt16} (hk : ¬ FreeHandle k) :
    entryOf AuthState.connHandle (bizClearAuth t h) k =
      if k = h then none else entryOf AuthState.connHandle t k := by
  rw [bizClearAuth_eq, entryOf_map hd (free_clearEntry h) hk]
  cases hentry : entryOf AuthState.connHandle t k with
  | none => rw [Option.bind_none, ite_self]
  | some e =>
      obtain ⟨-, -, he⟩ := (entryOf_eq_some_iff hd hk).mp hentry
      rw [Option.bind_some]
      by_cases hkh : k = h
      · have hfree : FreeHandle (clearEntry h e).connHandle := by
          rw [clearEntry, if_pos (he.trans hkh)]
          exact Or.inl rfl
        rw [if_pos hkh, if_neg fun hc => hk (by rwa [hc] at hfree)]
      · rw [if_neg hkh, clearEntry_of_ne (he.trans_ne hkh), if_pos he]

/-- **A clear** ends both: the handle holds no slot and is not verified any more. -/
theorem Represents.clear (hr : Represents t held auth) (h : UInt16) :
    Represents (bizClearAuth t h) (held.erase h) fun k => k ≠ h ∧ auth k := by
  refine ⟨hr.distinct.map (free_clearEntry h), ?_, fun i hi => ?_, fun k hk hauth => ?_⟩
  · ext k
    rw [mem_occupied, Finset.mem_erase, ← hr.held, mem_occupied, and_left_comm]
    refine and_congr_right fun hk => ?_
    rw [entryOf_bizClearAuth hr.distinct h hk]
    split_ifs with hkh <;> simp [hkh]
  · have hget : (bizClearAuth t h).get i = clearEntry h (t.get i) := Vector.getElem_map ..
    rw [hget] at hi ⊢
    by_cases he : (t.get i).connHandle = h
    · rw [clearEntry, if_pos he] at hi
      exact absurd hi Bool.false_ne_true
    · rw [clearEntry_of_ne he] at hi ⊢
      exact ⟨he, hr.flag i hi⟩
  · rw [entryOf_bizClearAuth hr.distinct h hk, if_neg hauth.1]
    exact hr.kept k hk hauth.2

/-! ### Whole runs -/

/-- **The table represents its history**: the holders and the verified handles of every
sequence of calls. -/
theorem represents_authAfter (es : List AuthCall) :
    Represents (authAfter es) (holders es) (VerifiedSince es) := by
  refine foldl_history (I := fun es t => Represents t (holders es) (VerifiedSince es)) ?_
    (fun pre e hr => ?_) es
  · refine represents_init.congr fun h => ?_
    simp [VerifiedSince]
  · rw [← authAfter] at hr ⊢
    rw [holders_concat]
    cases e with
    | verify h key =>
        refine (hr.verify h key).congr fun k => ?_
        rw [verifiedSince_concat]
        refine or_congr ?_ (and_iff_right nofun)
        constructor
        · rintro ⟨key', hcall, hok⟩
          obtain ⟨rfl, rfl⟩ := AuthCall.verify.inj hcall
          exact ⟨rfl, hok⟩
        · rintro ⟨rfl, hok⟩
          exact ⟨key, rfl, hok⟩
    | query h =>
        refine (hr.query h).1.congr fun k => ?_
        rw [verifiedSince_concat]
        simp
    | clear h =>
        refine (hr.clear h).congr fun k => ?_
        rw [verifiedSince_concat, or_iff_right fun hc => nomatch hc.choose_spec.1]
        exact and_congr_left fun _ => ⟨fun hc hk => hc (by rw [hk]),
          fun hc hk => hc (AuthCall.clear.inj hk).symm⟩

/-- A verification after any calls succeeds with the key of the device and a slot. -/
theorem bizVerifyAuthKey_authAfter (es : List AuthCall) {h : UInt16} (hh : ¬ FreeHandle h)
    (key : Option Bytes) : (bizVerifyAuthKey (authAfter es) h key).2 = true ↔
      key = some deviceAuthKey ∧ (h ∈ holders es ∨ (holders es).card < maxBleConnections) := by
  rw [bizVerifyAuthKey_snd, (represents_authAfter es).isSome_getAuthState hh]

/-- A query after any calls tells whether the handle is verified. -/
theorem bizIsAuthenticated_authAfter (es : List AuthCall) {h : UInt16} (hh : ¬ FreeHandle h) :
    (bizIsAuthenticated (authAfter es) h).2 = true ↔ VerifiedSince es h := by
  obtain ⟨-, hflag, hkept⟩ := (represents_authAfter es).query h
  exact ⟨hflag, hkept hh⟩

/-- **The key-based authentication table refines a bounded map.** After any calls, and for
a handle that is not reserved: the query answers whether a verification succeeded since the
latest clear, and a verification succeeds with the key of the device if the handle holds a
slot or fewer than four do. For the two reserved handles the query answers yes only after a
successful verification. -/
theorem authTable_refines (es : List AuthCall) (h : UInt16) :
    (¬ FreeHandle h →
      ((bizIsAuthenticated (authAfter es) h).2 = true ↔ VerifiedSince es h) ∧
      ∀ key, (bizVerifyAuthKey (authAfter es) h key).2 = true ↔
        key = some deviceAuthKey ∧ (h ∈ holders es ∨ (holders es).card < maxBleConnections)) ∧
    (FreeHandle h → (bizIsAuthenticated (authAfter es) h).2 = true → VerifiedSince es h) :=
  ⟨fun hh => ⟨bizIsAuthenticated_authAfter es hh, bizVerifyAuthKey_authAfter es hh⟩,
    fun _ => ((represents_authAfter es).query h).2.1⟩

/-- Four connections hold the slots, so a fifth is refused with the right key; the first
stays verified, and handle 0 can be verified too. -/
theorem authTable_refines_full :
    (¬ FreeHandle 5 ∧
      (bizVerifyAuthKey (authAfter [.verify 1 (some deviceAuthKey), .query 2, .query 3,
        .verify 0 (some deviceAuthKey), .query 4]) 5 (some deviceAuthKey)).2 = false) ∧
    VerifiedSince [.verify 1 (some deviceAuthKey), .query 2, .query 3,
      .verify 0 (some deviceAuthKey), .query 4] 1 ∧
    (FreeHandle 0 ∧ VerifiedSince [.verify 0 (some deviceAuthKey)] 0) := by
  refine ⟨⟨by decide, ?_⟩, ?_, by decide, ?_⟩
  · rw [← Bool.not_eq_true, ((authTable_refines _ 5).1 (by decide)).2]
    decide
  · exact ((authTable_refines _ 1).1 (by decide)).1.mp (by decide)
  · exact (authTable_refines _ 0).2 (by decide) (by decide)

end AirShifter
