import AirShifter.SecurityRun

/-!
# Soundness of the Authentication

Two guarantees about whole runs of the security module: nobody is authenticated without
having answered the challenge of its own connection, and no authentication outlives its
nonce.

The table marks a free slot by the handle 0, and 0 is also a handle a controller may
assign. A session of handle 0 therefore lives in a slot that still counts as free: it is
the *first free slot*, and that moves when another handle takes or gives up a slot.
Expiry survives this; soundness does not. `ZeroUndisturbed` says which steps keep the
sessions of handle 0 apart from the others.

## Main results

* `authentication_sound`: an authenticated connection has answered the nonce drawn at its
  latest connect; unconditionally for a non-zero handle, and for handle 0 in every run
  whose steps are `ZeroUndisturbed`.
* `authentication_unsound_zero`: a run in which handle 0 is authenticated by a response
  over the empty nonce.
* `session_expires`: time stamps never lie ahead of the clock, and a nonce lifetime after
  the latest connect of a handle it is not authenticated and cannot become so.
-/

open CBytes SlotTable Runs

namespace AirShifter

variable (hmac : Bytes → Bytes → Vector UInt8 hmacSha256Len)

/-! ### Histories -/

/-- The call ends or restarts the session of `h`. -/
def SecCall.resets (h : UInt16) : SecCall → Bool
  | .init => true
  | .onConnect g _ | .clearConn g => g == h
  | _ => false

/-- The history `es` opens a session of `h`, never resets it, and contains a response of
`h` that was accepted and equals the HMAC of the nonce drawn when the session was
opened. -/
def AnsweredChallenge (es : List TimedCall) (h : UInt16) : Prop :=
  ∃ pre t words mid t' m post,
    es = pre ++ ⟨t, .onConnect h words⟩ :: (mid ++ ⟨t', .handleAuthResponse h (some m)⟩ :: post) ∧
    (∀ e ∈ mid ++ post, e.call.resets h = false) ∧
    (secHandleAuthResponse hmac (secAfter hmac (pre ++ ⟨t, .onConnect h words⟩ :: mid)) t' h
      (some m)).2 = true ∧
    m = (hmac (secAfter hmac (pre ++ ⟨t, .onConnect h words⟩ :: mid)).privKey
      (drawn words (secAfter hmac pre).nonceLen)).toList

/-- The session `c` of `h` was opened in the history `es` and not reset since, and if it
is authenticated its challenge was answered. -/
def Issued (es : List TimedCall) (h : UInt16) (c : Session) : Prop :=
  (∃ pre t words post, es = pre ++ ⟨t, .onConnect h words⟩ :: post ∧
    (∀ e ∈ post, e.call.resets h = false) ∧
    c.nonce = drawn words (secAfter hmac pre).nonceLen) ∧
  (c.authenticated = true → AnsweredChallenge hmac es h)

variable {hmac} {es : List TimedCall} {h : UInt16} {c : Session}

/-- An answer stays an answer, until something resets the connection. -/
theorem AnsweredChallenge.concat (ha : AnsweredChallenge hmac es h) {e : TimedCall}
    (he : e.call.resets h = false) : AnsweredChallenge hmac (es ++ [e]) h := by
  obtain ⟨pre, t, words, mid, t', m, post, rfl, hkeep, hok, hm⟩ := ha
  refine ⟨pre, t, words, mid, t', m, post ++ [e], by simp, fun x hx => ?_, hok, hm⟩
  rw [← List.append_assoc, List.mem_append, List.mem_singleton] at hx
  rcases hx with hx | rfl
  · exact hkeep x hx
  · exact he

/-- A challenge stays issued, until something resets the connection. -/
theorem Issued.concat (hi : Issued hmac es h c) {e : TimedCall}
    (he : e.call.resets h = false) : Issued hmac (es ++ [e]) h c := by
  obtain ⟨⟨pre, t, words, post, rfl, hkeep, hn⟩, hauth⟩ := hi
  refine ⟨⟨pre, t, words, post ++ [e], by simp, fun x hx => ?_, hn⟩,
    fun hc => (hauth hc).concat he⟩
  rw [List.mem_append, List.mem_singleton] at hx
  rcases hx with hx | rfl
  · exact hkeep x hx
  · exact he

/-- A connect issues a fresh session. -/
theorem issued_onConnect (es : List TimedCall) (now : UInt64) (words : RandomWords)
    (h : UInt16) : Issued hmac (es ++ [⟨now, .onConnect h words⟩]) h
      ⟨drawn words (secAfter hmac es).nonceLen, now, false⟩ :=
  ⟨⟨es, now, words, [], rfl, by simp, rfl⟩, fun hc => absurd hc Bool.false_ne_true⟩

/-- An accepted response answers the challenge of the session it is accepted for. -/
theorem Issued.authenticate (hi : Issued hmac es h c) (hc : sessionOf (secAfter hmac es) h = some c)
    {now : UInt64} {response : Option Bytes}
    (hacc : c.Accepts hmac (secAfter hmac es).privKey now response) :
    Issued hmac (es ++ [⟨now, .handleAuthResponse h response⟩]) h
      { c with authenticated := true } := by
  refine ⟨(hi.concat rfl).1, fun _ => ?_⟩
  obtain ⟨⟨pre, t, words, post, rfl, hkeep, hn⟩, -⟩ := hi
  cases response with
  | none => exact absurd hacc.2 (by simp)
  | some m =>
      refine ⟨pre, t, words, post, now, m, [], by simp, by simpa using hkeep, ?_, ?_⟩
      · rw [secHandleAuthResponse_snd, hc, Option.any_some]
        exact decide_eq_true hacc
      · rw [← hn]
        exact Option.some.inj hacc.2

/-! ### Non-zero handles -/

/-- **Every session of a non-zero handle is issued**, in every run whatsoever. -/
theorem issued_secAfter (es : List TimedCall) (h : UInt16) (hh : h ≠ 0) :
    ∀ c, sessionOf (secAfter hmac es) h = some c → Issued hmac es h c := by
  induction es using List.reverseRecOn with
  | nil =>
      intro c hc
      rw [secAfter_nil, bootSec, sessionOf_secInit _ hh] at hc
      exact absurd hc (by simp)
  | append_singleton pre e ih =>
      intro c hc
      rw [secAfter_concat, ((tableOk_secAfter hmac pre).secStep hmac e).2 h hh] at hc
      obtain ⟨now, call⟩ := e
      cases call with
      | init => exact absurd hc (by simp [sessionStep])
      | onConnect g words =>
          dsimp only [sessionStep] at hc
          split_ifs at hc with hg
          · obtain ⟨rfl, -⟩ := hg
            exact Option.some.inj hc ▸ issued_onConnect pre now words g
          · by_cases hgh : g = h
            · subst hgh
              exact absurd ⟨rfl, Or.inl (by rw [hc]; rfl)⟩ hg
            · exact (ih c hc).concat (by simpa [SecCall.resets] using hgh)
      | handleAuthResponse g response =>
          obtain ⟨c₀, hc₀, rfl⟩ := Option.map_eq_some_iff.mp hc
          split_ifs with hg
          · obtain ⟨rfl, hacc⟩ := hg
            exact (ih c₀ hc₀).authenticate hc₀ hacc
          · exact (ih c₀ hc₀).concat rfl
      | clearConn g =>
          dsimp only [sessionStep] at hc
          split_ifs at hc with hg
          exact (ih c hc).concat (by simpa [SecCall.resets] using hg)
      | setPrivateKey | setNonceLen | isConnAuthenticated | sendNonceNotify | getAuthValue =>
          exact (ih c hc).concat rfl

/-! ### Handle 0 -/

/-- The history opens a session of `h` and has not reset it since. -/
def connected (h : UInt16) (es : List TimedCall) : Bool :=
  es.foldl (fun up e => match e.call with
    | .onConnect g _ => g == h || up
    | call => !call.resets h && up) false

/-- Whether a connection is up after one call more. -/
theorem connected_concat (h : UInt16) (es : List TimedCall) (e : TimedCall) :
    connected h (es ++ [e]) = match e.call with
      | .onConnect g _ => g == h || connected h es
      | call => !call.resets h && connected h es := by
  rw [connected, List.foldl_append]
  rfl

/-- **The steps that keep handle 0 apart.** While handle 0 is connected no new handle
takes its slot and no earlier slot is freed, and responses on handle 0 come only while it
is connected. -/
def ZeroUndisturbed (pre : List TimedCall) (s : SecState) (e : TimedCall) : Prop :=
  match e.call with
  | .onConnect g _ =>
    connected 0 pre = true → findEntry s g = none → findEntry s 0 = none
  | .handleAuthResponse g _ => g = 0 → connected 0 pre = true
  | .clearConn g =>
    g ≠ 0 → connected 0 pre = true →
      ∀ i, findEntry s g = some i → ∃ z, findEntry s 0 = some z ∧ z < i
  | _ => True

variable (hmac) in
/-- Of the slots with handle 0 only the first one can be authenticated, and only while
handle 0 is connected; then the session a lookup of handle 0 finds is an issued one. -/
structure ZeroOk (es : List TimedCall) (s : SecState) : Prop where
  authenticated : ∀ i, (s.slot i).connHandle = 0 →
    (s.slot i).authenticated = true → connected 0 es = true ∧ findEntry s 0 = some i
  issued : connected 0 es = true → ∀ c, sessionOf s 0 = some c → Issued hmac es 0 c

/-- Without a connection of the handle 0 its slots are idle. -/
theorem ZeroOk.of_unconnected {s : SecState} (hc : connected 0 es = false)
    (ha : ∀ i, (s.slot i).connHandle = 0 → (s.slot i).authenticated = false) :
    ZeroOk hmac es s where
  authenticated i hi hauth := by
    rw [ha i hi] at hauth
    exact absurd hauth Bool.false_ne_true
  issued hup := by
    rw [hc] at hup
    exact absurd hup Bool.false_ne_true

/-- A step that neither opens nor resets handle 0 and does not touch its slots. -/
theorem ZeroOk.frame {s s' : SecState} (hz : ZeroOk hmac es s) {e : TimedCall}
    (hup : connected 0 (es ++ [e]) = connected 0 es) (he : e.call.resets 0 = false)
    (hfind : findEntry s' 0 = findEntry s 0) (hget : sessionOf s' 0 = sessionOf s 0)
    (hslot : ∀ i, (s'.slot i).connHandle = 0 → (s'.slot i).authenticated = true →
      (s.slot i).connHandle = 0 ∧ (s.slot i).authenticated = true) :
    ZeroOk hmac (es ++ [e]) s' where
  authenticated i hi hauth := by
    obtain ⟨hi', hauth'⟩ := hslot i hi hauth
    rw [hup, hfind]
    exact hz.authenticated i hi' hauth'
  issued hc c hget' := by
    rw [hup] at hc
    rw [hget] at hget'
    exact (hz.issued hc c hget').concat he

/-- Reading the slots after overwriting one whose new entry is not an authenticated entry
of handle 0. -/
theorem zero_of_set {s : SecState} {i j : Fin maxSecConns} {d : Conn}
    (hd : d.connHandle = 0 → d.authenticated = false)
    (hj : ((s.setSlot i d).slot j).connHandle = 0)
    (hauth : ((s.setSlot i d).slot j).authenticated = true) :
    i ≠ j ∧ (s.slot j).connHandle = 0 ∧ (s.slot j).authenticated = true := by
  rw [slot_setSlot] at hj hauth
  split_ifs at hj hauth with hij
  · rw [hd hj] at hauth
    exact absurd hauth Bool.false_ne_true
  · exact ⟨hij, hj, hauth⟩

/-- While handle 0 is not connected, any entry may be written that is not an authenticated
one of handle 0. -/
theorem ZeroOk.set_of_unconnected {s : SecState} (hz : ZeroOk hmac es s) {e : TimedCall}
    (hdown : connected 0 es = false) (hdown' : connected 0 (es ++ [e]) = false)
    {i : Fin maxSecConns} {d : Conn} (hd : d.connHandle = 0 → d.authenticated = false) :
    ZeroOk hmac (es ++ [e]) (s.setSlot i d) := by
  refine ZeroOk.of_unconnected hdown' fun j hj => ?_
  rw [← Bool.not_eq_true]
  intro hauth
  obtain ⟨-, hj', hauth'⟩ := zero_of_set hd hj hauth
  rw [(hz.authenticated j hj' hauth').1] at hdown
  exact absurd hdown (by simp)

/-- A connect of handle 0 opens the session that a lookup of handle 0 finds, if any. -/
theorem ZeroOk.onConnect_zero {s : SecState} (hs : s = secAfter hmac es)
    (hz : ZeroOk hmac es s) (now : UInt64) (words : RandomWords) :
    ZeroOk hmac (es ++ [⟨now, .onConnect 0 words⟩]) (secOnConnect s now words 0) := by
  rw [secOnConnect_eq, connectSlot, Option.or_self]
  cases hf : findEntry s 0 with
  | none =>
      refine ⟨fun i hi _ => absurd hi (slotOf_eq_none_iff.mp hf i), fun _ c hc => ?_⟩
      rw [sessionOf_eq_none_iff.mpr hf] at hc
      exact absurd hc (by simp)
  | some z =>
      dsimp only
      refine ⟨fun j hj hauth => ?_, fun _ c hc => ?_⟩
      · obtain ⟨hzj, hj', hauth'⟩ := zero_of_set (fun _ => rfl) hj hauth
        obtain ⟨-, hfj⟩ := hz.authenticated j hj' hauth'
        exact absurd (Option.some.inj (hf.symm.trans hfj)) hzj
      · have hfind := findEntry_set_self hf
          (s.conns[z].connHandle_opened now words s.nonceLen 0)
        rw [sessionOf_of_findEntry hfind] at hc
        have hread : (s.conns.set z (s.conns[z].opened now words s.nonceLen 0))[z] =
            s.conns[z].opened now words s.nonceLen 0 := by rw [get_set, if_pos rfl]
        dsimp only at hc
        rw [hread, Conn.session_opened] at hc
        rw [← Option.some.inj hc, hs]
        exact issued_onConnect es now words 0

/-- **A connect** keeps handle 0 apart. -/
theorem ZeroOk.onConnect {s : SecState} (hs : s = secAfter hmac es) (hz : ZeroOk hmac es s)
    {now : UInt64} {g : UInt16} {words : RandomWords}
    (hc : ZeroUndisturbed es s ⟨now, .onConnect g words⟩) :
    ZeroOk hmac (es ++ [⟨now, .onConnect g words⟩]) (secOnConnect s now words g) := by
  by_cases hg : g = 0
  · subst hg
    exact hz.onConnect_zero hs now words
  · rw [secOnConnect_eq, connectSlot]
    have hreset : (SecCall.onConnect g words).resets 0 = false := by
      simpa [SecCall.resets] using hg
    have hup : connected 0 (es ++ [⟨now, .onConnect g words⟩]) = connected 0 es := by
      rw [connected_concat]
      simp [hg]
    cases hf : findEntry s g with
    | some i =>
        have hkey : s.conns[i].connHandle = g := key_of_slotOf hf
        rw [Option.some_or]
        have hi : s.conns[i].connHandle ≠ 0 := by rwa [hkey]
        have hd : (s.conns[i].opened now words s.nonceLen g).connHandle ≠ 0 := hg
        exact hz.frame hup hreset (findEntry_set_of_ne hi hd) (sessionOf_set_of_ne hi hd)
          fun j hj hauth => (zero_of_set (fun h => absurd h hg) hj hauth).2
    | none =>
        rw [Option.none_or]
        cases hf0 : findEntry s 0 with
        | none => exact hz.frame hup hreset rfl rfl fun _ hj hauth => ⟨hj, hauth⟩
        | some z =>
            have hdown : connected 0 es = false := by
              rw [← Bool.not_eq_true]
              intro hconn
              exact absurd (hf0.symm.trans (hc hconn hf)) (by simp)
            exact hz.set_of_unconnected hdown (hup.trans hdown) fun h => absurd h hg

/-- An accepted response of handle 0 authenticates the session that a lookup of handle 0
finds. -/
theorem ZeroOk.authenticate {s : SecState} (hs : s = secAfter hmac es) (hz : ZeroOk hmac es s)
    (hconn : connected 0 es = true) {now : UInt64} {response : Option Bytes}
    {i : Fin maxSecConns} (hf : findEntry s 0 = some i)
    (hacc : (s.slot i).session.Accepts hmac s.privKey now response) :
    ZeroOk hmac (es ++ [⟨now, .handleAuthResponse 0 response⟩])
      (s.setSlot i { s.slot i with authenticated := true }) := by
  have hup : connected 0 (es ++ [⟨now, .handleAuthResponse 0 response⟩]) = connected 0 es := by
    rw [connected_concat]
    rfl
  have hkey : s.conns[i].connHandle = 0 := key_of_slotOf hf
  have hfind := findEntry_set_self (d := { s.conns[i] with authenticated := true }) hf hkey
  refine ⟨fun j hj hauth => ⟨hup.trans hconn, ?_⟩, fun _ c hget => ?_⟩
  · rw [slot_setSlot] at hj hauth
    split_ifs at hj hauth with hij
    · rw [← hij]
      exact hfind
    · obtain ⟨-, hfj⟩ := hz.authenticated j hj hauth
      exact absurd (Option.some.inj (hf.symm.trans hfj)) hij
  · have hget₀ := sessionOf_of_findEntry hf
    have hissued := hz.issued hconn _ hget₀
    subst hs
    rw [sessionOf_of_findEntry hfind] at hget
    dsimp only at hget
    rw [get_set, if_pos rfl] at hget
    rw [← Option.some.inj hget]
    exact hissued.authenticate hget₀ hacc

/-- **A response** keeps handle 0 apart. -/
theorem ZeroOk.handleAuthResponse {s : SecState} (hs : s = secAfter hmac es)
    (hz : ZeroOk hmac es s) {now : UInt64} {g : UInt16} {response : Option Bytes}
    (hc : ZeroUndisturbed es s ⟨now, .handleAuthResponse g response⟩) :
    ZeroOk hmac (es ++ [⟨now, .handleAuthResponse g response⟩])
      (secHandleAuthResponse hmac s now g response).1 := by
  have hup : connected 0 (es ++ [⟨now, .handleAuthResponse g response⟩]) = connected 0 es := by
    rw [connected_concat]
    rfl
  have hsame : ZeroOk hmac (es ++ [⟨now, .handleAuthResponse g response⟩]) s :=
    hz.frame hup rfl rfl rfl fun _ hj hauth => ⟨hj, hauth⟩
  rw [secHandleAuthResponse_eq]
  cases hf : findEntry s g with
  | none => exact hsame
  | some i =>
      have hkey : s.conns[i].connHandle = g := key_of_slotOf hf
      dsimp only
      split_ifs with hacc
      · by_cases hg : g = 0
        · subst hg
          exact hz.authenticate hs (hc rfl) hf hacc
        · have hi : s.conns[i].connHandle ≠ 0 := by rwa [hkey]
          exact hz.frame hup rfl
            (findEntry_set_of_ne (d := { s.conns[i] with authenticated := true }) hi hi)
            (sessionOf_set_of_ne (d := { s.conns[i] with authenticated := true }) hi hi)
            fun j hj hauth =>
              (zero_of_set (d := { s.conns[i] with authenticated := true })
                (fun h => absurd h hi) hj hauth).2
      · exact hsame

/-- **A clear** keeps handle 0 apart. -/
theorem ZeroOk.clearConn {s : SecState} (hz : ZeroOk hmac es s) {now : UInt64} {g : UInt16}
    (hc : ZeroUndisturbed es s ⟨now, .clearConn g⟩) :
    ZeroOk hmac (es ++ [⟨now, .clearConn g⟩]) (secClearConn s g) := by
  rw [secClearConn]
  by_cases hg : g = 0
  · subst hg
    have hdown : connected 0 (es ++ [⟨now, .clearConn 0⟩]) = false := by
      rw [connected_concat]
      rfl
    refine ZeroOk.of_unconnected hdown fun j hj => ?_
    rw [← Bool.not_eq_true]
    intro hauth
    cases hf : findEntry s 0 with
    | none =>
        rw [hf] at hj
        exact slotOf_eq_none_iff.mp hf j hj
    | some i =>
        rw [hf] at hj hauth
        obtain ⟨hij, hj', hauth'⟩ := zero_of_set (fun _ => rfl) hj hauth
        obtain ⟨-, hfj⟩ := hz.authenticated j hj' hauth'
        exact hij (Option.some.inj (hf.symm.trans hfj))
  · have hreset : (SecCall.clearConn g).resets 0 = false := by
      simpa [SecCall.resets] using hg
    have hup : connected 0 (es ++ [⟨now, .clearConn g⟩]) = connected 0 es := by
      rw [connected_concat]
      simp [hreset]
    cases hf : findEntry s g with
    | none => exact hz.frame hup hreset rfl rfl fun _ hj hauth => ⟨hj, hauth⟩
    | some i =>
        cases hconn : connected 0 es with
        | false =>
            exact hz.set_of_unconnected hconn (hup.trans hconn) fun _ => rfl
        | true =>
            obtain ⟨z, hf0, hzi⟩ := hc hg hconn i hf
            have hfind : findEntry (freeEntryIndex s i) 0 = some z :=
              findEntry_set_of_lt {} hf0 hzi
            refine hz.frame hup hreset (hfind.trans hf0.symm) ?_
              fun j hj hauth => (zero_of_set (fun _ => rfl) hj hauth).2
            rw [sessionOf_of_findEntry hfind, sessionOf_of_findEntry hf0, freeEntryIndex]
            dsimp only
            rw [get_set, if_neg (ne_of_gt hzi)]

/-- A step that leaves the table alone and is no connect, clear or restart. -/
theorem ZeroOk.of_conns_eq {s s' : SecState} (hz : ZeroOk hmac es s) {e : TimedCall}
    (hup : connected 0 (es ++ [e]) = connected 0 es) (he : e.call.resets 0 = false)
    (hconns : s'.conns = s.conns) : ZeroOk hmac (es ++ [e]) s' := by
  refine hz.frame hup he ?_ ?_ fun i hi hauth => ?_
  · rw [findEntry, findEntry, hconns]
  · rw [sessionOf, sessionOf, hconns]
  · rw [SecState.slot, hconns] at hi hauth
    exact ⟨hi, hauth⟩

/-- **One call** that meets `ZeroUndisturbed` keeps handle 0 apart. -/
theorem ZeroOk.secStep {s : SecState} (hs : s = secAfter hmac es) (hz : ZeroOk hmac es s)
    {e : TimedCall} (hc : ZeroUndisturbed es s e) :
    ZeroOk hmac (es ++ [e]) (secStep hmac s e).1 := by
  have hup := connected_concat 0 es e
  obtain ⟨now, call⟩ := e
  cases call with
  | init =>
      refine ZeroOk.of_unconnected hup fun i _ => ?_
      simp [AirShifter.secStep, secInit]
  | onConnect g words => exact hz.onConnect hs hc
  | handleAuthResponse g response => exact hz.handleAuthResponse hs hc
  | clearConn g => exact hz.clearConn hc
  | setPrivateKey key => exact hz.of_conns_eq hup rfl (conns_secSetPrivateKey s key)
  | setNonceLen k => exact hz.of_conns_eq hup rfl (conns_secSetNonceLen s k)
  | isConnAuthenticated | sendNonceNotify | getAuthValue => exact hz.of_conns_eq hup rfl rfl

/-- **The sessions of handle 0** stay issued in every run whose steps keep it apart. -/
theorem zeroOk_secAfter
    (hc : Along (fun s e => (AirShifter.secStep hmac s e).1) bootSec ZeroUndisturbed es) :
    ZeroOk hmac es (secAfter hmac es) := by
  refine foldl_history_along ?_ (fun pre e hstep hz => hz.secStep rfl hstep) hc
  exact ZeroOk.of_unconnected rfl fun i _ => by simp [bootSec, secInit]

/-! ### Soundness -/

variable (hmac) in
/-- **Authentication is sound.** A connection that is authenticated after a run has
answered the challenge of its own session: unconditionally for a non-zero handle, and for
handle 0 if every step of the run kept it apart. -/
theorem authentication_sound (es : List TimedCall) (h : UInt16)
    (hc : h = 0 → Along (fun s e => (secStep hmac s e).1) bootSec ZeroUndisturbed es)
    (now : UInt64) (hauth : secIsConnAuthenticated (secAfter hmac es) now h = true) :
    AnsweredChallenge hmac es h := by
  cases hf : findEntry (secAfter hmac es) h with
  | none =>
      rw [secIsConnAuthenticated_eq, sessionOf_eq_none_iff.mpr hf] at hauth
      exact absurd hauth Bool.false_ne_true
  | some i =>
      have hget := sessionOf_of_findEntry hf
      rw [secIsConnAuthenticated_eq, hget, Option.any_some, Bool.and_eq_true] at hauth
      by_cases hh : h = 0
      · subst hh
        have hz := zeroOk_secAfter (hc rfl)
        have hconn := (hz.authenticated i (key_of_slotOf hf) hauth.1).1
        exact (hz.issued hconn _ hget).2 hauth.1
      · exact (issued_secAfter es h hh _ hget).2 hauth.1

/-- Two clients that answer, one of them with the handle 0. -/
theorem authentication_sound_answered :
    AnsweredChallenge sampleHmac (answeredRun 5) 5 ∧
      AnsweredChallenge sampleHmac (answeredRun 0) 0 := by
  refine ⟨authentication_sound sampleHmac _ 5 (fun h => absurd h (by decide)) 9 (by decide +kernel),
    authentication_sound sampleHmac _ 0 (fun _ => ?_) 9 (by decide +kernel)⟩
  have hconnect : Along (fun s e => (secStep sampleHmac s e).1) bootSec ZeroUndisturbed
      [⟨0, .onConnect 0 (Vector.replicate 8 0)⟩] :=
    along_nil.concat fun h => absurd h (by decide)
  exact hconnect.concat fun _ => rfl

/-- Handle 1 takes the first slot and handle 0 the second; then handle 1 leaves, and the
slot it frees is the one a lookup of handle 0 finds. -/
def emptyNonceRun : List TimedCall :=
  [⟨0, .onConnect 1 (Vector.replicate 8 0)⟩,
    ⟨0, .onConnect 0 (Vector.replicate 8 0)⟩,
    ⟨0, .clearConn 1⟩,
    ⟨0, .handleAuthResponse 0 (some (sampleHmac defaultKey []).toList)⟩]

/-- **Handle 0 is authenticated over the empty nonce**, which was never issued to it. -/
theorem authentication_unsound_zero :
    Monotone TimedCall.now 0 emptyNonceRun ∧
      secIsConnAuthenticated (secAfter sampleHmac emptyNonceRun) 0 0 = true ∧
      ¬ AnsweredChallenge sampleHmac emptyNonceRun 0 := by
  refine ⟨by decide, by decide +kernel, ?_⟩
  rintro ⟨pre, t, words, mid, t', m, post, hrun, -, -, hm⟩
  have hmem : (⟨t', .handleAuthResponse 0 (some m)⟩ : TimedCall) ∈ emptyNonceRun := by
    rw [hrun]
    simp
  have hresp : t' = 0 ∧ m = (sampleHmac defaultKey []).toList := by
    simpa [emptyNonceRun] using hmem
  have hne := drawn_ne_nil words (secAfter sampleHmac pre).nonceLen
  rw [hresp.2, Vector.toList_inj, sampleHmac, sampleHmac, if_pos ⟨rfl, rfl⟩,
    if_neg fun h => hne h.2] at hm
  split_ifs at hm
  all_goals exact absurd hm (by decide)

/-! ### Expiry -/

/-- The time of the latest connect of `h`. -/
def lastConnect (h : UInt16) (es : List TimedCall) : Option UInt64 :=
  es.foldl (fun t e => match e.call with
    | .onConnect g _ => if g = h then some e.now else t
    | _ => t) none

theorem lastConnect_concat (h : UInt16) (es : List TimedCall) (e : TimedCall) :
    lastConnect h (es ++ [e]) = match e.call with
      | .onConnect g _ => if g = h then some e.now else lastConnect h es
      | _ => lastConnect h es := by
  rw [lastConnect, List.foldl_append]
  rfl

/-- With a non-decreasing clock no connect of `h` comes after the latest one. -/
theorem le_lastConnect {es : List TimedCall} {t : UInt64} {h : UInt16} {words : RandomWords}
    (hclock : Monotone TimedCall.now 0 es) (hmem : ⟨t, .onConnect h words⟩ ∈ es) :
    ∃ t', lastConnect h es = some t' ∧ t ≤ t' := by
  induction es using List.reverseRecOn with
  | nil => exact absurd hmem (by simp)
  | append_singleton pre e ih =>
      obtain ⟨hpre, -, hle⟩ := hclock.of_concat
      rw [lastConnect_concat]
      rcases List.mem_append.mp hmem with hin | hlast
      · obtain ⟨t', ht', htt'⟩ := ih hpre hin
        obtain ⟨now, call⟩ := e
        cases call with
        | onConnect g words' =>
            dsimp only
            split_ifs
            · exact ⟨now, rfl, hle _ hin⟩
            · exact ⟨t', ht', htt'⟩
        | init | handleAuthResponse | isConnAuthenticated | clearConn | setPrivateKey
        | setNonceLen | sendNonceNotify | getAuthValue => exact ⟨t', ht', htt'⟩
      · rw [← List.mem_singleton.mp hlast]
        exact ⟨t, if_pos rfl, UInt64.le_refl t⟩

variable (hmac) in
/-- **No session outlives its nonce.** After a run with a non-decreasing clock, no time
stamp lies ahead of the clock, so the age of an entry is the true difference; and when
more than the nonce lifetime has passed since boot and since the latest connect of a
handle, it is not authenticated and no response of it is accepted. -/
theorem session_expires (es : List TimedCall) (hclock : Monotone TimedCall.now 0 es)
    (now : UInt64) (hnow : ∀ e ∈ es, e.now ≤ now) :
    (∀ i, ((secAfter hmac es).slot i).createdTsMs ≤ now ∧
      (now - ((secAfter hmac es).slot i).createdTsMs).toNat =
        now.toNat - ((secAfter hmac es).slot i).createdTsMs.toNat) ∧
    ∀ h, nonceLifetimeMs.toNat < now.toNat →
      (∀ t, lastConnect h es = some t → t.toNat + nonceLifetimeMs.toNat < now.toNat) →
      secIsConnAuthenticated (secAfter hmac es) now h = false ∧
        ∀ m, (secHandleAuthResponse hmac (secAfter hmac es) now h m).2 = false := by
  have hcreated := createdBy_secAfter hmac es
  generalize secAfter hmac es = s at hcreated ⊢
  have hle : ∀ i, (s.slot i).createdTsMs ≤ now := by
    intro i
    rcases hcreated i with h0 | ⟨words, hmem⟩
    · rw [h0]
      exact UInt64.zero_le
    · exact hnow _ hmem
  refine ⟨fun i => ⟨hle i, UInt64.toNat_sub_of_le _ _ (hle i)⟩, fun h hboot hlast => ?_⟩
  rw [secIsConnAuthenticated_eq]
  simp only [secHandleAuthResponse_snd]
  cases hf : findEntry s h with
  | none =>
      rw [sessionOf_eq_none_iff.mpr hf]
      exact ⟨rfl, fun _ => rfl⟩
  | some i =>
      have hold : ¬ now - s.conns[i].createdTsMs ≤ nonceLifetimeMs := by
        rw [UInt64.le_iff_toNat_le, UInt64.toNat_sub_of_le _ _ (hle i)]
        rcases hcreated i with h0 | ⟨words, hmem⟩
        · rw [h0, UInt64.toNat_zero]
          omega
        · have hkey : s.conns[i].connHandle = h := key_of_slotOf hf
          rw [hkey] at hmem
          obtain ⟨t, ht, hle'⟩ := le_lastConnect hclock hmem
          have hlt := hlast t ht
          have hle'' := UInt64.le_iff_toNat_le.mp hle'
          omega
      rw [sessionOf_of_findEntry hf, Option.any_some]
      refine ⟨Bool.and_eq_false_iff.mpr (Or.inr (decide_eq_false hold)), fun m => ?_⟩
      exact decide_eq_false fun hacc => hold hacc.1

/-- The session of `answeredRun` is over after five minutes. -/
theorem session_expires_answered :
    secIsConnAuthenticated (secAfter sampleHmac (answeredRun 5)) 300001 5 = false := by
  have hlast : ∀ t, lastConnect 5 (answeredRun 5) = some t →
      t.toNat + nonceLifetimeMs.toNat < 300001 := by
    rintro t ht
    obtain rfl : 0 = t := Option.some.inj ht
    decide
  exact ((session_expires sampleHmac (answeredRun 5) (by decide) 300001 (by decide)).2 5
    (by decide) hlast).1

end AirShifter
