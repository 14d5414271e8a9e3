import AirShifter.CredentialQueue

/-!
# Credentials That Are Too Long

A packet may carry an SSID of more than 32 bytes or a password of more than 64. The length
check of the Wi-Fi task would refuse such a credential, but it never sees one: on both
parse paths every copy on the way to the queue cuts the string to its field and computes
the length anew. So the shortened strings are stored, unless the queue or the storage fails
first.

## Main results

* `applied_credentialText`: the credential a packet applies is cut to the fields.
* `store_same_iff`: when a call of `store_credentials_nvs` leaves both strings as they were.
* `long_credential_refused_iff`: exactly when a packet leaves the stored credentials alone.
-/

open CBytes

namespace AirShifter

/-! ### The packets -/

/-- A letter or a digit. -/
def isalnum (b : UInt8) : Bool :=
  isalpha b || isdigit b

/-- An SSID and a password of letters and digits; the SSID does not contain `pass` in any
letter case. -/
structure CredentialText where
  ssid : Bytes
  pass : Bytes
  isalnum_ssid : ∀ c ∈ ssid, isalnum c = true
  isalnum_pass : ∀ c ∈ pass, isalnum c = true
  no_pass : ¬ ascii "pass" <:+: lower ssid

/-- The packet `{"ssid":"S","pass":"P"}` or `SSID:"S",PASS:"P"`. -/
def CredentialText.bytes (w : CredentialText) : PacketFormat → Bytes
  | .json => ascii "\x7b\"ssid\":\"" ++ (w.ssid ++ (ascii "\",\"pass\":\"" ++
      (w.pass ++ ascii "\"\x7d")))
  | .legacy => ascii "SSID:\"" ++ (w.ssid ++ (ascii "\",PASS:\"" ++ (w.pass ++ ascii "\"")))

/-- What a packet says: its own strings, or, if its SSID is empty, those that the legacy
format reads out of its text. -/
def CredentialText.Says (w : CredentialText) (f : PacketFormat) (ssid pass : Bytes) : Prop :=
  if w.ssid = [] then LegacySsid (w.bytes f) ssid ∧ pass = legacyPassword (w.bytes f)
  else ssid = w.ssid ∧ pass = w.pass

/-- A letter or digit is no quote, no backslash and no NUL. -/
theorem plain_of_isalnum {b : UInt8} (h : isalnum b = true) : b ≠ 34 ∧ b ≠ 92 ∧ b ≠ 0 := by
  refine ⟨?_, ?_, ?_⟩ <;> rintro rfl <;> exact absurd h (by decide)

variable (w : CredentialText)

/-- The packet in the JSON format. -/
def CredentialText.packet : WifiPacket where
  ssid := ⟨w.ssid, fun c hc => plain_of_isalnum (w.isalnum_ssid c hc)⟩
  pass := ⟨w.pass, fun c hc => plain_of_isalnum (w.isalnum_pass c hc)⟩
  passFirst := false
  lead := noWs
  ssidSpacing := .none
  passSpacing := .none
  trail := noWs

/-- In the JSON format the text is a packet. -/
theorem CredentialText.bytes_json : w.bytes .json = w.packet.object.bytes := by
  have hopen : ascii "\x7b\"ssid\":\"" = 123 :: 34 :: (ascii "ssid" ++ [34, 58, 34]) := by decide
  have hmid : ascii "\",\"pass\":\"" = 34 :: 44 :: 34 :: (ascii "pass" ++ [34, 58, 34]) := by
    decide
  have hclose : ascii "\"\x7d" = [34, 125] := by decide
  rw [CredentialText.bytes, hopen, hmid, hclose]
  simp [FlatObject.bytes, FlatObject.core, FlatObject.body, WifiPacket.object,
    CredentialText.packet, moreBytes, FlatMember.bytes, WifiPacket.ssidMember,
    WifiPacket.passMember, Spacing.member, Spacing.none, FlatValue.bytes, noWs, ssidName, passName]

/-! ### The legacy reading of a packet -/

/-- The text behind the SSID of a legacy packet. -/
def CredentialText.passText : Bytes :=
  ascii "PASS" ++ 58 :: 34 :: (w.pass ++ [34])

/-- In the legacy format it is two quoted fields. -/
theorem CredentialText.bytes_legacy : w.bytes .legacy =
    ascii "SSID" ++ 58 :: 34 :: (w.ssid ++ 34 :: 44 :: w.passText) := by
  have hopen : ascii "SSID:\"" = ascii "SSID" ++ [58, 34] := by decide
  have hmid : ascii "\",PASS:\"" = 34 :: 44 :: (ascii "PASS" ++ [58, 34]) := by decide
  have hclose : ascii "\"" = [34] := by decide
  rw [CredentialText.bytes, CredentialText.passText, hopen, hmid, hclose]
  simp

/-- The strings have no quote. -/
theorem CredentialText.quote_notMem : 34 ∉ w.ssid ∧ 34 ∉ w.pass :=
  ⟨fun h => (plain_of_isalnum (w.isalnum_ssid 34 h)).1 rfl,
    fun h => (plain_of_isalnum (w.isalnum_pass 34 h)).1 rfl⟩

/-- Nor have they a NUL. -/
theorem CredentialText.zero_notMem : 0 ∉ w.ssid ∧ 0 ∉ w.pass :=
  ⟨fun h => (plain_of_isalnum (w.isalnum_ssid 0 h)).2.2 rfl,
    fun h => (plain_of_isalnum (w.isalnum_pass 0 h)).2.2 rfl⟩

/-- Neither has the text. -/
theorem CredentialText.zero_notMem_bytes (f : PacketFormat) : 0 ∉ w.bytes f := by
  obtain ⟨hs, hp⟩ := w.zero_notMem
  cases f with
  | json =>
      rw [w.bytes_json]
      exact notMem_zero_bytes _
  | legacy =>
      rw [w.bytes_legacy, CredentialText.passText]
      have h0 : 0 ∉ ascii "SSID" ∧ 0 ∉ ascii "PASS" := by decide
      simp [hs, hp, h0]

/-- No key of the password occurs before the text of the password. -/
theorem CredentialText.not_infix_ssid {key : Bytes} (hkey : key ∈ passKeys) :
    ¬ key <:+: ascii "SSID" ++ 58 :: 34 :: w.ssid := by
  have hkeys : ∀ key ∈ passKeys, ¬ key <:+: ascii "SSID" ∧ ascii "pass" <:+: lower key := by
    decide
  have hword := word_of_mem_passKeys key hkey
  obtain ⟨hno, hpass⟩ := hkeys key hkey
  rw [hword.infix_append_iff rfl, hword.infix_cons_iff rfl]
  rintro (h | h)
  · exact hno h
  · exact w.no_pass (hpass.trans (h.map tolower))

/-- The SSID does not matter to the password. -/
theorem CredentialText.strReading_pass {key : Bytes} (hkey : key ∈ passKeys) :
    strReading (w.bytes .legacy) key = strReading w.passText key := by
  have hword := word_of_mem_passKeys key hkey
  have hsplit : w.bytes .legacy =
      (ascii "SSID" ++ 58 :: 34 :: w.ssid) ++ 34 :: 44 :: w.passText := by
    rw [w.bytes_legacy]
    simp
  rw [hsplit, strReading_append hword rfl (w.not_infix_ssid hkey), ← List.nil_append (44 :: _),
    strReading_append hword rfl hword.not_infix_nil]

/-- **The legacy format reads the password** of a legacy packet. -/
theorem CredentialText.legacyPassword_eq : legacyPassword (w.bytes .legacy) = w.pass := by
  have hfirst : strReading w.passText (ascii "PASS") =
      if w.pass = [] then none else some w.pass :=
    strReading_quoted (ascii "PASS") [] w.quote_notMem.2
  have hread : ∀ key ∈ passKeys, strReading (w.bytes .legacy) key = strReading w.passText key :=
    fun key hkey => w.strReading_pass hkey
  simp only [passKeys, List.forall_mem_cons] at hread
  obtain ⟨hPASS, hPass, hpass, hpassword, -⟩ := hread
  simp only [legacyPassword, passKeys, List.findSome?_cons, List.findSome?_nil, hPASS, hPass,
    hpass, hpassword, hfirst]
  by_cases hnil : w.pass = []
  · have hothers : ∀ key ∈ [ascii "Pass", ascii "pass", ascii "password"],
        strReading (ascii "PASS" ++ 58 :: 34 :: ([] ++ [34])) key = none := by decide
    simp only [List.forall_mem_cons] at hothers
    obtain ⟨h₁, h₂, h₃, -⟩ := hothers
    rw [CredentialText.passText, hnil, if_pos rfl, h₁, h₂, h₃]
    rfl
  · simp [hnil]

/-- **The legacy format reads the SSID** of a legacy packet, unless it is empty. -/
theorem CredentialText.legacySsid (hne : w.ssid ≠ []) : LegacySsid (w.bytes .legacy) w.ssid := by
  have hread := strReading_quoted (ascii "SSID") (44 :: w.passText) w.quote_notMem.1
  rw [← w.bytes_legacy, if_neg hne] at hread
  refine ⟨Or.inr (Or.inl ⟨[], _, w.bytes_legacy.symm⟩), ?_⟩
  rw [ssidKeys, List.findSome?_cons, hread]

/-! ### The credential that is applied -/

/-- A packet is not read as JSON, or it finds nothing there, unless it is JSON with an
SSID. -/
theorem CredentialText.jsonPass_eq_nil {f : PacketFormat} (h : w.ssid = [] ∨ f = .legacy) :
    (jsonPass (w.bytes f)).1 = [] := by
  cases f with
  | json =>
      have hnil : w.packet.ssid.val = [] := h.resolve_right (by simp)
      rw [w.bytes_json, w.packet.jsonPass_eq, if_pos hnil]
  | legacy =>
      have hstart : ∃ t, w.bytes .legacy = 83 :: t := ⟨_, rfl⟩
      obtain ⟨t, ht⟩ := hstart
      rw [ht, jsonPass, List.dropWhile_cons_of_neg (by decide)]
      rfl

/-- **The credential of a packet is cut to its fields**; there is none if nothing is
said. -/
theorem applied_credentialText (f : PacketFormat) :
    (∃ ssid pass, w.Says f ssid pass ∧ (ssid ≠ [] ∧ 0 ∉ ssid ∧ 0 ∉ pass) ∧
      appliedCreds (parserHandlePacket (w.bytes f)).calls =
        [mkCred (ssid.take wifiSsidMaxLen) (pass.take wifiPassMaxLen)]) ∨
    ((∀ ssid pass, ¬ w.Says f ssid pass) ∧
      appliedCreds (parserHandlePacket (w.bytes f)).calls = []) := by
  have h0 := w.zero_notMem_bytes f
  by_cases hempty : w.ssid = []
  · rw [appliedCreds_of_nil (w.jsonPass_eq_nil (Or.inl hempty))]
    simp only [CredentialText.Says, if_pos hempty]
    by_cases hv : ∃ v, LegacySsid (w.bytes f) v
    · obtain ⟨v, hv⟩ := hv
      rw [legacyWifi_eq_some h0 hv]
      exact Or.inl ⟨v, _, ⟨hv, rfl⟩,
        ⟨hv.ne_nil, zero_notMem_findSome h0 hv.2, zero_notMem_legacyPassword h0⟩, rfl⟩
    · rw [legacyWifi_eq_none h0 (not_exists.mp hv)]
      exact Or.inr ⟨fun ssid pass h => hv ⟨ssid, h.1⟩, rfl⟩
  · refine Or.inl ⟨w.ssid, w.pass, ?_, ⟨hempty, w.zero_notMem⟩, ?_⟩
    · rw [CredentialText.Says, if_neg hempty]
      exact ⟨rfl, rfl⟩
    · cases f with
      | json =>
          rw [w.bytes_json, w.packet.parserHandlePacket_eq hempty]
          rfl
      | legacy =>
          rw [appliedCreds_of_nil (w.jsonPass_eq_nil (Or.inr rfl)),
            legacyWifi_eq_some h0 (w.legacySsid hempty), w.legacyPassword_eq]
          rfl

/-- A text says one credential only. -/
theorem CredentialText.Says.unique {w : CredentialText} {f : PacketFormat}
    {ssid pass ssid' pass' : Bytes} (h : w.Says f ssid pass) (h' : w.Says f ssid' pass') :
    ssid = ssid' ∧ pass = pass' := by
  rw [CredentialText.Says] at h h'
  by_cases hempty : w.ssid = []
  · rw [if_pos hempty] at h h'
    exact ⟨h.1.unique h'.1, h.2.trans h'.2.symm⟩
  · rw [if_neg hempty] at h h'
    exact ⟨h.1.trans h'.1.symm, h.2.trans h'.2.symm⟩

/-! ### The storage -/

section Storage

variable {σ : Type*} (nvs : Nvs σ)

/-- Both keys return what they returned before. -/
def SameStored (st st' : σ) : Prop :=
  nvs.getStr st' .ssid (wifiSsidMaxLen + 1) = nvs.getStr st .ssid (wifiSsidMaxLen + 1) ∧
    nvs.getStr st' .pass (wifiPassMaxLen + 1) = nvs.getStr st .pass (wifiPassMaxLen + 1)

/-- Storing the strings fails before it has set anything, or sets what is there already. -/
def StoreIdle (st : σ) (rc : StoreCodes) (ssid pass : Bytes) : Prop :=
  rc.nvsOpen ≠ espOk ∨ rc.setSsid ≠ espOk ∨
    nvs.getStr st .ssid (wifiSsidMaxLen + 1) = (espOk, ssid) ∧
      (rc.setPass ≠ espOk ∨ nvs.getStr st .pass (wifiPassMaxLen + 1) = (espOk, pass))

/-- **A call of `store_credentials_nvs` leaves both strings as they were** exactly when it
is idle. -/
theorem store_same_iff (st : σ) (rc : StoreCodes) {ssid pass : Bytes}
    (hslen : ssid.length ≤ wifiSsidMaxLen) (hplen : pass.length ≤ wifiPassMaxLen) :
    SameStored nvs st (storeCredentialsNvs nvs st rc ssid pass).2 ↔
      StoreIdle nvs st rc ssid pass := by
  have hssid : ∀ st, nvs.getStr (nvs.setStr st .ssid ssid) .ssid (wifiSsidMaxLen + 1) =
      (espOk, ssid) := fun st => nvs.getStr_setStr_self st _ (by omega)
  have hpass : ∀ st, nvs.getStr (nvs.setStr st .pass pass) .pass (wifiPassMaxLen + 1) =
      (espOk, pass) := fun st => nvs.getStr_setStr_self st _ (by omega)
  have hframe : ∀ st, nvs.getStr (nvs.setStr st .pass pass) .ssid (wifiSsidMaxLen + 1) =
      nvs.getStr st .ssid (wifiSsidMaxLen + 1) :=
    fun st => nvs.getStr_setStr_of_ne st _ _ (by simp)
  have hframe' : ∀ st, nvs.getStr (nvs.setStr st .ssid ssid) .pass (wifiPassMaxLen + 1) =
      nvs.getStr st .pass (wifiPassMaxLen + 1) :=
    fun st => nvs.getStr_setStr_of_ne st _ _ (by simp)
  rw [storeCredentialsNvs_snd, SameStored, StoreIdle]
  by_cases hset : rc.nvsOpen = espOk ∧ rc.setSsid = espOk
  · rw [if_pos hset]
    by_cases hsetPass : rc.setPass = espOk
    · rw [if_pos hsetPass, hframe, hssid, hpass]
      simp [hset, hsetPass, eq_comm]
    · rw [if_neg hsetPass, hssid, hframe']
      simp [hset, hsetPass, eq_comm]
  · rw [if_neg hset]
    rw [not_and_or] at hset
    exact iff_of_true ⟨rfl, rfl⟩ (hset.imp_right Or.inl)

/-- The task stores a credential made from an SSID and a password as they fit. -/
theorem fitting_step (st : σ) (rc : StoreCodes) (start : StartCodes) {ssid pass : Bytes}
    (hne : ssid ≠ []) (hs : 0 ∉ ssid) (hp : 0 ∉ pass) :
    (wifiManagerStep nvs st rc start
      (mkCred (ssid.take wifiSsidMaxLen) (pass.take wifiPassMaxLen))).1 =
      (storeCredentialsNvs nvs st rc (ssid.take wifiSsidMaxLen) (pass.take wifiPassMaxLen)).2 := by
  have hslen : (ssid.take wifiSsidMaxLen).length ≤ wifiSsidMaxLen := List.length_take_le _ _
  have hplen : (pass.take wifiPassMaxLen).length ≤ wifiPassMaxLen := List.length_take_le _ _
  have hholds := holds_mkCred (fun h => hs (List.mem_of_mem_take h))
    (fun h => hp (List.mem_of_mem_take h)) hslen hplen
  have hne' : ssid.take wifiSsidMaxLen ≠ [] := by simpa using hne
  rw [wifiManagerStep_fst, if_pos (hholds.lengthsValid hne' hslen hplen), hholds.ssidStr_eq,
    hholds.passStr_eq]

/-- The elements that a packet adds to the queue. -/
def queuedBy (s : BizState) (buf : Bytes) (freed : Bool) : List WifiCredentials :=
  (queueStep s (.packet buf freed)).queue.sent.drop s.queue.sent.length

/-- The storage after a packet was handled and the task has handled what it queued. -/
def storedFrom (st : σ) (rc : StoreCodes) (start : StartCodes) (s : BizState) (buf : Bytes)
    (freed : Bool) : σ :=
  (queuedBy s buf freed).foldl (fun st cred => (wifiManagerStep nvs st rc start cred).1) st

/-- The queue takes an element in time. -/
def HasRoom (s : BizState) (freed : Bool) : Prop :=
  ∃ q, s.wifiCredQueue = some q ∧ (q.pending.length < wifiCredQueueLen ∨ freed = true)

/-- A packet adds the credential it applies, if there is room. -/
theorem queuedBy_of_room {s : BizState} {freed : Bool} (h : HasRoom s freed) (buf : Bytes) :
    queuedBy s buf freed = appliedCreds (parserHandlePacket buf).calls := by
  obtain ⟨q, hq, hroom⟩ := h
  rw [queuedBy, BizState.queue_eq hq, BizState.queue_eq (queue_packet hq buf freed)]
  rcases appliedCreds_packet buf with hnil | ⟨cred, -, hcreds, -⟩
  · rw [hnil, List.foldl_nil, List.drop_length]
  · rw [hcreds, List.foldl_cons, List.foldl_nil, (q.send_cases cred freed).1 hroom, List.drop_left]

/-- A packet adds nothing to a queue without room, or to none. -/
theorem queuedBy_of_full {s : BizState} {freed : Bool} (h : ¬ HasRoom s freed) (buf : Bytes) :
    queuedBy s buf freed = [] := by
  cases hq : s.wifiCredQueue with
  | none =>
      have hnone : (queueStep s (.packet buf freed)).wifiCredQueue = none := by
        rw [queueStep, QueueEvent.biz, bizStep, wifiCredQueue_bizCalls, hq, Option.map_none]
      rw [queuedBy, BizState.queue, BizState.queue, hnone, hq, List.drop_length]
  | some q =>
      rw [queuedBy, BizState.queue_eq hq, BizState.queue_eq (queue_packet hq buf freed)]
      rcases appliedCreds_packet buf with hnil | ⟨cred, -, hcreds, -⟩
      · rw [hnil, List.foldl_nil, List.drop_length]
      · rw [hcreds, List.foldl_cons, List.foldl_nil,
          (q.send_cases cred freed).2 fun hroom => h ⟨q, hq, hroom⟩, List.drop_length]

/-- **An over-long credential is refused** only by accident: a packet leaves the stored
credentials alone exactly when the queue has no room for what it says, or it says nothing,
or storing the shortened strings fails before the first one is set or sets what is there
already. -/
theorem long_credential_refused_iff (st : σ) (rc : StoreCodes) (start : StartCodes)
    (s : BizState) (f : PacketFormat) (freed : Bool) :
    SameStored nvs st (storedFrom nvs st rc start s (w.bytes f) freed) ↔
      (HasRoom s freed → ∀ ssid pass, w.Says f ssid pass →
        StoreIdle nvs st rc (ssid.take wifiSsidMaxLen) (pass.take wifiPassMaxLen)) := by
  by_cases hroom : HasRoom s freed
  · rw [storedFrom, queuedBy_of_room hroom]
    obtain ⟨ssid, pass, hsays, ⟨hne, hs, hp⟩, happlied⟩ | ⟨hsilent, happlied⟩ :=
      applied_credentialText w f
    · have hstep := fitting_step nvs st rc start hne hs hp
      rw [happlied, List.foldl_cons, List.foldl_nil, hstep,
        store_same_iff nvs st rc (List.length_take_le _ _) (List.length_take_le _ _)]
      refine ⟨fun h _ ssid' pass' hsays' => ?_, fun h => h hroom ssid pass hsays⟩
      obtain ⟨rfl, rfl⟩ := hsays.unique hsays'
      exact h
    · rw [happlied]
      exact iff_of_true ⟨rfl, rfl⟩ fun _ ssid pass h => absurd h (hsilent ssid pass)
  · rw [storedFrom, queuedBy_of_full hroom]
    exact iff_of_true ⟨rfl, rfl⟩ fun h => absurd h hroom

end Storage

/-- An SSID of 33 letters, and no password. -/
def longText : CredentialText where
  ssid := List.replicate 33 97
  pass := []
  isalnum_ssid := by decide
  isalnum_pass := by decide
  no_pass := by decide

/-- **A network nobody sent is stored**: of the SSID of 33 letters the first 32, in both
formats. -/
theorem long_ssid_shortened :
    wifiSsidMaxLen < longText.ssid.length ∧
      ∀ f, storedFrom mapNvs (fun _ => none) {} {} bootBiz (longText.bytes f) false .ssid =
          some (List.replicate 32 97) ∧
        ¬ SameStored mapNvs (fun _ => none)
          (storedFrom mapNvs (fun _ => none) {} {} bootBiz (longText.bytes f) false) := by
  have hstored : ∀ f, storedFrom mapNvs (fun _ => none) {} {} bootBiz (longText.bytes f) false
      .ssid = some (List.replicate 32 97) := by
    intro f
    cases f <;> decide +kernel
  refine ⟨by decide, fun f => ⟨hstored f, fun hsame => ?_⟩⟩
  have hread := hsame.1
  rw [getStr_mapNvs_of_some (hstored f) (by decide), getStr_mapNvs_of_none rfl] at hread
  exact absurd hread (by decide)

end AirShifter
