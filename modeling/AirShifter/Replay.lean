import AirShifter.Clients
import AirShifter.Registers

/-!
# Overheard Responses

The responses go over the air in the clear, and every device has the same key, so a client
without the key can hope to answer with a response that it has overheard: from another
connection, before the last loss of power, or from another device. What stands in its way is
the challenge alone. Here a response that is accepted is shown to be the HMAC of the
challenge of that connection, drawn at its latest connect, along every run of the system.

## Main results

* `challenged_systemAfter`: every session holds the challenge of its latest connect.
* `rightAnswer_of_accepts`: a response that is accepted is the right one.
* `replay_needs_collision`: a response that is accepted twice answers two challenges with
  the same HMAC.
-/

open CBytes Runs SlotTable

namespace AirShifter

/-! ### Challenges -/

/-- A connect of `g` that draws a challenge from the given random words. -/
def ConnectsWith (g : UInt16) (words : RandomWords) (e : SystemEvent) : Prop :=
  e = .device (.connect 0 g words)

/-- A connect or a disconnect of `g`. -/
def ChangesLink (g : UInt16) (e : SystemEvent) : Prop :=
  (∃ words, ConnectsWith g words e) ∨ e = .device (.disconnect g)

/-- The latest connect of `g` in a run drew its challenge from the given random words, and
`g` has not disconnected since. -/
def Challenged (es : List SystemEvent) (g : UInt16) (words : RandomWords) : Prop :=
  Since (ConnectsWith g words) (ChangesLink g) es

/-- The table of a system: sound, with the key and the nonce length that `sec_init` sets, and
every session of a non-zero handle holds the challenge of its latest connect. -/
structure HoldsChallenges (es : List SystemEvent) (s : SecState) : Prop where
  table : TableOk s
  key : s.privKey = defaultKey
  nonceLen : s.nonceLen = defaultNonceLen
  session : ∀ g, g ≠ 0 → ∀ c, sessionOf s g = some c →
    ∃ words, Challenged es g words ∧ c.nonce = drawn words 16

variable {H : CharHandles} {hmac : Bytes → Bytes → Vector UInt8 hmacSha256Len}
variable {es : List SystemEvent} {s : SecState}

/-- A challenge stands until the link changes. -/
theorem Challenged.concat {g : UInt16} {words : RandomWords} (h : Challenged es g words)
    {e : SystemEvent} (he : ¬ ChangesLink g e) : Challenged (es ++ [e]) g words :=
  since_concat_iff.mpr (Or.inr ⟨h, he⟩)

/-- A connection that comes up is challenged. -/
theorem challenged_connect (es : List SystemEvent) (g : UInt16) (words : RandomWords) :
    Challenged (es ++ [.device (.connect 0 g words)]) g words :=
  since_concat_iff.mpr (Or.inl rfl)

/-- The table after the boot. -/
theorem holdsChallenges_boot (es : List SystemEvent) : HoldsChallenges es bootDevice.sec where
  table := tableOk_secInit _
  key := rfl
  nonceLen := rfl
  session g hg c hc := absurd ((sessionOf_secInit _ hg).symm.trans hc) (by simp)

/-- An event that leaves the table alone, and is no connect or disconnect. -/
theorem HoldsChallenges.concat (h : HoldsChallenges es s) {e : SystemEvent}
    (he : ∀ g, ¬ ChangesLink g e) : HoldsChallenges (es ++ [e]) s where
  table := h.table
  key := h.key
  nonceLen := h.nonceLen
  session g hg c hc := by
    obtain ⟨words, hwords, hnonce⟩ := h.session g hg c hc
    exact ⟨words, hwords.concat (he g), hnonce⟩

/-- A connect or a disconnect of another connection does not change the link of `g`. -/
theorem not_changesLink {g g' : UInt16} (hne : g' ≠ g) (words : RandomWords) :
    ¬ ChangesLink g (.device (.connect 0 g' words)) ∧
      ¬ ChangesLink g (.device (.disconnect g')) := by
  constructor
  · rintro (⟨words', hconnect⟩ | hdisconnect)
    · obtain ⟨-, hg, -⟩ := DeviceEvent.connect.inj (SystemEvent.device.inj hconnect)
      exact hne hg
    · exact absurd (SystemEvent.device.inj hdisconnect) (by simp)
  · rintro (⟨words', hconnect⟩ | hdisconnect)
    · exact absurd (SystemEvent.device.inj hconnect) (by simp)
    · exact hne (DeviceEvent.disconnect.inj (SystemEvent.device.inj hdisconnect))

/-- A connect gives the session of its handle a new challenge. -/
theorem HoldsChallenges.connect (h : HoldsChallenges es s) (now : UInt64) (g : UInt16)
    (words : RandomWords) :
    HoldsChallenges (es ++ [.device (.connect 0 g words)]) (secOnConnect s now words g) := by
  obtain ⟨htable, hsession⟩ := h.table.secOnConnect now words g
  obtain ⟨hkey, hlen⟩ := config_secOnConnect s now words g
  refine ⟨htable, hkey.trans h.key, hlen.trans h.nonceLen, fun g' hg' c hc => ?_⟩
  rw [hsession g' hg', h.nonceLen] at hc
  split_ifs at hc with hconnect
  · obtain ⟨rfl, -⟩ := hconnect
    exact ⟨words, challenged_connect es g words, by rw [← Option.some.inj hc]; rfl⟩
  · obtain ⟨words', hwords, hnonce⟩ := h.session g' hg' c hc
    by_cases hg : g = g'
    · subst hg
      exact absurd ⟨rfl, Or.inl (by rw [hc]; rfl)⟩ hconnect
    · exact ⟨words', hwords.concat (not_changesLink hg words).1, hnonce⟩

/-- A disconnect ends the session of its handle. -/
theorem HoldsChallenges.disconnect (h : HoldsChallenges es s) (g : UInt16) :
    HoldsChallenges (es ++ [.device (.disconnect g)]) (secClearConn s g) := by
  obtain ⟨htable, hsession⟩ := h.table.secClearConn g
  obtain ⟨hkey, hlen⟩ := config_secClearConn s g
  refine ⟨htable, hkey.trans h.key, hlen.trans h.nonceLen, fun g' hg' c hc => ?_⟩
  rw [hsession g' hg'] at hc
  split_ifs at hc with hg
  obtain ⟨words, hwords, hnonce⟩ := h.session g' hg' c hc
  exact ⟨words, hwords.concat (not_changesLink hg (Vector.replicate 8 0)).2, hnonce⟩

/-- A response leaves the challenges alone. -/
theorem HoldsChallenges.response (h : HoldsChallenges es s) {e : SystemEvent}
    (he : ∀ g, ¬ ChangesLink g e) (hmac : Bytes → Bytes → Vector UInt8 hmacSha256Len)
    (now : UInt64) (g : UInt16) (response : Option Bytes) :
    HoldsChallenges (es ++ [e]) (secHandleAuthResponse hmac s now g response).1 := by
  obtain ⟨hkey, hlen⟩ := config_secHandleAuthResponse hmac s now g response
  refine ⟨h.table.secHandleAuthResponse hmac now g response, hkey.trans h.key,
    hlen.trans h.nonceLen, fun g' hg' c hc => ?_⟩
  rw [sessionOf_secHandleAuthResponse] at hc
  obtain ⟨c', hc', rfl⟩ := Option.map_eq_some_iff.mp hc
  obtain ⟨words, hwords, hnonce⟩ := h.session g' hg' c' hc'
  refine ⟨words, hwords.concat (he g'), ?_⟩
  split_ifs <;> exact hnonce

/-! ### Whole runs -/

variable (H hmac) in
/-- **An event of the device** keeps the challenges. -/
theorem HoldsChallenges.deviceStep {d : Device} (h : HoldsChallenges es d.sec) (e : DeviceEvent) :
    HoldsChallenges (es ++ [.device e]) (deviceStep H hmac d e).1.sec := by
  rw [sec_deviceStep]
  cases hcall : secCallOf H d e with
  | some call =>
      obtain ⟨g, words, rfl, rfl⟩ | ⟨g, rfl, rfl⟩ | ⟨a, got, rfl, rfl⟩ := secCallOf_cases hcall
      · exact h.connect d.now g words
      · exact h.disconnect g
      · refine h.response ?_ hmac d.now a.connHandle (some got)
        rintro g (⟨words, hconnect⟩ | hdisconnect)
        · exact absurd (SystemEvent.device.inj hconnect) (by simp)
        · exact absurd (SystemEvent.device.inj hdisconnect) (by simp)
  | none =>
      refine h.concat ?_
      rintro g (⟨words, hconnect⟩ | hdisconnect)
      · obtain rfl := SystemEvent.device.inj hconnect
        exact absurd hcall (by simp [secCallOf])
      · obtain rfl := SystemEvent.device.inj hdisconnect
        exact absurd hcall (by simp [secCallOf])

variable (H hmac) in
/-- **Every session holds the challenge of its latest connect**, over any number of boots. -/
theorem challenged_systemAfter (es : List SystemEvent) :
    HoldsChallenges es (systemAfter H hmac es).device.sec := by
  induction es using List.reverseRecOn with
  | nil => exact holdsChallenges_boot []
  | append_singleton es e ih =>
      cases hup : (systemAfter H hmac (es ++ [e])).up with
      | false =>
          rw [device_of_not_up _ hup]
          exact holdsChallenges_boot _
      | true =>
          rw [systemAfter_concat] at hup ⊢
          cases e with
          | device e =>
              rw [systemStep] at hup ⊢
              split_ifs at hup ⊢
              · exact ih.deviceStep H hmac e
              · contradiction
          | handle store start =>
              have hidle := ih.concat (e := .handle store start) fun g => by
                simp [ChangesLink, ConnectsWith]
              rw [systemStep]
              split <;> exact hidle
          | cut call lost =>
              have hidle := ih.concat (e := .cut call lost) fun g => by
                simp [ChangesLink, ConnectsWith]
              rw [systemStep] at hup ⊢
              split at hup
              · exact hidle
              · exact absurd hup (by simp [System.off])
          | powerOff lost => exact absurd hup (by simp [systemStep, System.off])
          | boot codes =>
              have hidle := ih.concat (e := .boot codes) fun g => by
                simp [ChangesLink, ConnectsWith]
              rw [systemStep]
              split_ifs
              · exact hidle
              · rw [System.boot]
                split_ifs <;> exact holdsChallenges_boot _

/-! ### Responses -/

/-- A response that is accepted equals the HMAC of the nonce of its session. -/
theorem packet_of_accepts {s : System} {a : Access} (h : Accepts H hmac s a) :
    ∃ c, sessionOf s.device.sec a.connHandle = some c ∧
      a.packet = (hmac s.device.sec.privKey c.nonce).toList := by
  obtain ⟨-, hop, hattr, hstatus⟩ := h
  rw [gattSvcAccess, hop] at hstatus
  dsimp only at hstatus
  rw [writeChr, if_pos hattr] at hstatus
  cases hflat : gattSvrWriteFlat a 32 32 with
  | error rc =>
      rw [hflat] at hstatus
      exact absurd hstatus (by simp)
  | ok got =>
      obtain ⟨rfl, hlen⟩ := gattSvrWriteFlat_eq_ok hflat
      rw [hflat] at hstatus
      dsimp only at hstatus
      rw [if_neg (not_not.mpr hlen)] at hstatus
      cases hacc : (secHandleAuthResponse hmac s.device.sec s.device.now a.connHandle
          (some a.packet)).2 with
      | false =>
          rw [hacc] at hstatus
          exact absurd hstatus (by simp)
      | true =>
          rw [secHandleAuthResponse_snd] at hacc
          cases hc : sessionOf s.device.sec a.connHandle with
          | none =>
              rw [hc] at hacc
              exact absurd hacc (by simp)
          | some c =>
              rw [hc, Option.any_some] at hacc
              exact ⟨c, rfl, Option.some.inj (of_decide_eq_true hacc).2⟩

/-- **A response that is accepted is the right one** for the challenge of its connection. -/
theorem rightAnswer_of_accepts {a : Access} (hg : a.connHandle ≠ 0)
    (h : Accepts H hmac (systemAfter H hmac es) a) :
    ∃ words, Challenged es a.connHandle words ∧ a.packet = rightAnswer hmac words := by
  have hholds := challenged_systemAfter H hmac es
  obtain ⟨c, hc, hpacket⟩ := packet_of_accepts h
  obtain ⟨words, hwords, hnonce⟩ := hholds.session a.connHandle hg c hc
  exact ⟨words, hwords, by rw [hpacket, hnonce, hholds.key, rightAnswer]⟩

variable (H hmac)

/-- **A replay needs a collision.** If the bytes of a response that one device accepted are
accepted again, under whichever non-zero handle, later in the same run or along any other
run, then both are the HMAC, with the one key, of the challenges that the two connections
were given at their latest connect. -/
theorem replay_needs_collision (es es' : List SystemEvent) {a a' : Access}
    (hg : a.connHandle ≠ 0) (hg' : a'.connHandle ≠ 0)
    (h : Accepts H hmac (systemAfter H hmac es) a)
    (h' : Accepts H hmac (systemAfter H hmac es') a') (hsame : a.packet = a'.packet) :
    ∃ words words', Challenged es a.connHandle words ∧ Challenged es' a'.connHandle words' ∧
      a.packet = rightAnswer hmac words ∧ a.packet = rightAnswer hmac words' := by
  obtain ⟨words, hwords, hpacket⟩ := rightAnswer_of_accepts hg h
  obtain ⟨words', hwords', hpacket'⟩ := rightAnswer_of_accepts hg' h'
  exact ⟨words, words', hwords, hwords', hpacket, hsame.trans hpacket'⟩

/-- Handle `h` comes up after the boot. -/
def connectedRun (h : UInt16) : List SystemEvent :=
  [.boot {}, .device (.connect 0 h (Vector.replicate 8 0))]

/-- Two connections that drew the same challenge are answered alike. -/
theorem replay_needs_collision_twice :
    ∃ words words', Challenged (connectedRun 7) 7 words ∧ Challenged (connectedRun 9) 9 words' ∧
      (sampleAnswer 7).packet = rightAnswer sampleHmac words ∧
      (sampleAnswer 7).packet = rightAnswer sampleHmac words' :=
  replay_needs_collision sampleHandles sampleHmac (connectedRun 7) (connectedRun 9)
    (show (sampleAnswer 7).connHandle ≠ 0 by decide)
    (show (sampleAnswer 9).connHandle ≠ 0 by decide)
    ⟨rfl, rfl, rfl, by decide +kernel⟩ ⟨rfl, rfl, rfl, by decide +kernel⟩ rfl

end AirShifter
