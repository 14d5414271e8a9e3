import AirShifter.LegacyMeaning
import AirShifter.Provisioning

/-!
# Provisioning Packets That Are Cut Off

A provisioning packet of which only a prefix arrives. The tokenizer refuses a prefix that
ends before the closing brace, and finds nothing to do if the SSID is empty. In both cases
the same bytes are read as legacy text, where the quote that closes the member name
`"ssid"` opens a value: the colon behind it becomes the name of a network.

## Main results

* `infix_object_iff`: a word occurs in an object exactly when it occurs in a name or a
  string.
* `WifiPacket.Plain.legacySsid_iff`: what the legacy format reads out of a prefix, if the
  strings of the packet do not mention a legacy key.
* `nothing_made_up_iff`: exactly when a prefix queues no credential but that of its
  packet.
-/

open CBytes

namespace AirShifter

variable (w : WifiPacket)

/-! ### The parts of a packet -/

/-- What stands before the name of the SSID. -/
def WifiPacket.beforeName : Bytes :=
  w.lead.val ++ 123 :: ((if w.passFirst then w.passMember.bytes ++ [44] else []) ++
    w.ssidSpacing.wsName.val)

/-- The packet up to the closing quote of the name of the SSID. -/
def WifiPacket.nameText : Bytes :=
  w.beforeName ++ 34 :: (ssidName.val ++ [34])

/-- What stands between the name and the opening quote of the SSID. -/
def WifiPacket.colonText : Bytes :=
  w.ssidSpacing.wsColon.val ++ 58 :: w.ssidSpacing.wsValue.val

/-- The packet up to the closing quote of the SSID. -/
def WifiPacket.ssidText : Bytes :=
  w.nameText ++ (w.colonText ++ 34 :: (w.ssid.val ++ [34]))

/-- The packet up to the closing brace. -/
def WifiPacket.objectText : Bytes :=
  w.lead.val ++ 123 :: (w.object.body ++ [125])

/-- The SSID stands in front of the closing brace. -/
theorem WifiPacket.ssidText_prefix : w.ssidText <+: w.lead.val ++ 123 :: w.object.body := by
  rw [WifiPacket.ssidText, WifiPacket.nameText, WifiPacket.beforeName, WifiPacket.colonText,
    FlatObject.body, WifiPacket.object]
  cases w.passFirst with
  | false =>
      refine ⟨w.ssidSpacing.wsEnd.val ++ moreBytes [w.passMember], ?_⟩
      simp [FlatMember.bytes, WifiPacket.ssidMember, Spacing.member, FlatValue.bytes]
  | true =>
      refine ⟨w.ssidSpacing.wsEnd.val, ?_⟩
      simp [FlatMember.bytes, WifiPacket.ssidMember, Spacing.member, FlatValue.bytes, moreBytes]

/-- The brace comes last. -/
theorem WifiPacket.prefix_objectText : w.lead.val ++ 123 :: w.object.body <+: w.objectText :=
  ⟨[125], by simp [WifiPacket.objectText]⟩

/-- A prefix that holds the closing brace is a packet itself, with less whitespace behind
it; one that does not makes no call in the JSON pass. -/
theorem WifiPacket.prefix_cases {t : Bytes} (ht : t <+: w.object.bytes) :
    (¬ w.objectText <+: t ∧ (jsonPass t).1 = []) ∨
      w.objectText <+: t ∧ ∃ trail, t = ({ w with trail := trail } : WifiPacket).object.bytes := by
  have hroom : 1 + 2 * w.object.members.length ≤ jsmnTokenMax := by
    rw [w.length_members]
    decide
  rcases w.object.prefix_cases ht with hcut | ⟨trail, rfl⟩
  · refine Or.inl ⟨fun hwhole => ?_, by rw [jsonPass_cut w.object hroom hcut]⟩
    have hle := (hwhole.trans hcut).length_le
    simp [WifiPacket.objectText, WifiPacket.object] at hle
  · refine Or.inr ⟨⟨trail.val, ?_⟩, trail, rfl⟩
    simp [WifiPacket.objectText, FlatObject.bytes, FlatObject.core]
    rfl

/-! ### Credentials that were not sent -/

/-- Every credential that is queued for the text `t` has the SSID of the packet, and none
is queued if that is empty or not yet complete. -/
def NothingMadeUp (t : Bytes) : Prop :=
  ∀ cred, .applyWifiCredentials cred ∈ (parserHandlePacket t).calls →
    (credCopy cred).ssidStr = w.ssid.val.take wifiSsidMaxLen ∧ w.ssid.val ≠ [] ∧
      w.ssidText <+: t

/-- The SSID that the legacy format reads out of the text `t`, if any, happens to be that of
the packet. -/
def LegacyAgrees (t : Bytes) : Prop :=
  ∀ v, LegacySsid t v → v.take wifiSsidMaxLen = w.ssid.val.take wifiSsidMaxLen ∧
    w.ssid.val ≠ [] ∧ w.ssidText <+: t

/-- What that means on the text: if it mentions a network, and one of the names of an SSID is the
first with a string behind it, then that is the SSID of the packet, and the packet is there up to
the closing quote of it. -/
theorem legacyAgrees_iff_firstOf (t : Bytes) : LegacyAgrees w t ↔
    (MentionsWifi t → ∀ v, FirstOf ssidNames (FieldStr t) v →
      v.take wifiSsidMaxLen = w.ssid.val.take wifiSsidMaxLen ∧ w.ssid.val ≠ [] ∧
        w.ssidText <+: t) := by
  simp only [LegacyAgrees, LegacySsid, firstOf_fieldStr, ssidNames_eq, and_imp]
  exact forall_comm

/-- A text that the JSON pass does nothing with. -/
theorem nothingMadeUp_of_nil {t : Bytes} (h0 : 0 ∉ t) (hjson : (jsonPass t).1 = []) :
    NothingMadeUp w t ↔ LegacyAgrees w t := by
  have hcalls : (parserHandlePacket t).calls = (legacyPass t).1 := by
    rw [parserHandlePacket_of_nil hjson]
    rfl
  rw [NothingMadeUp, LegacyAgrees, hcalls]
  by_cases hv : ∃ v, LegacySsid t v
  · obtain ⟨v, hv⟩ := hv
    have hv0 : 0 ∉ v.take wifiSsidMaxLen :=
      fun h => zero_notMem_findSome h0 hv.2 (List.mem_of_mem_take h)
    have hssid : (credCopy (mkCred (v.take wifiSsidMaxLen)
        ((legacyPassword t).take wifiPassMaxLen))).ssidStr = v.take wifiSsidMaxLen := by
      rw [ssid_credCopy, ssidStr_mkCred hv0, List.take_take, List.take_take, Nat.min_self,
        Nat.min_self]
    rw [legacyPass, legacyWifi_eq_some h0 hv]
    dsimp only
    constructor
    · intro h v' hv'
      obtain rfl := hv.unique hv'
      have hqueued := h _ (List.mem_singleton.mpr rfl)
      rwa [hssid] at hqueued
    · intro h cred hcred
      obtain rfl : cred = _ := BizCall.applyWifiCredentials.inj (List.mem_singleton.mp hcred)
      rw [hssid]
      exact h v hv
  · rw [legacyPass_of_none (legacyWifi_eq_none h0 (not_exists.mp hv))]
    refine ⟨fun _ v hv' => absurd ⟨v, hv'⟩ hv, fun _ cred hcred => ?_⟩
    have hset : BizCall.isApply (.applyWifiCredentials cred) = false := by
      simp only [List.mem_append] at hcred
      rcases hcred with ((hcred | hcred) | hcred) | hcred <;>
        exact isApply_legacyControl _ hcred
    exact absurd hset (by simp [BizCall.isApply])

/-- A prefix queues nothing but what was sent exactly when it holds the whole object and the
SSID is not empty, or the legacy format reads no other SSID out of it. -/
theorem nothingMadeUp_iff {t : Bytes} (ht : t <+: w.object.bytes) :
    NothingMadeUp w t ↔ (w.objectText <+: t ∧ w.ssid.val ≠ []) ∨ LegacyAgrees w t := by
  have h0 : 0 ∉ t := fun h => notMem_zero_bytes w.object (ht.subset h)
  rcases w.prefix_cases ht with ⟨hcut, hjson⟩ | ⟨hwhole, trail, hpacket⟩
  · rw [nothingMadeUp_of_nil w h0 hjson]
    exact ⟨Or.inr, fun h => h.resolve_left fun h => hcut h.1⟩
  · by_cases hne : w.ssid.val = []
    · have hjson : (jsonPass t).1 = [] := by
        rw [hpacket, WifiPacket.jsonPass_eq]
        exact if_pos hne
      rw [nothingMadeUp_of_nil w h0 hjson]
      exact ⟨Or.inr, fun h => h.resolve_left fun h => h.2 hne⟩
    · refine ⟨fun _ => Or.inl ⟨hwhole, hne⟩, fun _ cred hcred => ?_⟩
      have hresult := WifiPacket.parserHandlePacket_eq { w with trail := trail } hne
      rw [hpacket, hresult] at hcred
      obtain rfl : cred = w.cred := BizCall.applyWifiCredentials.inj (List.mem_singleton.mp hcred)
      have hs0 : 0 ∉ w.ssid.val.take wifiSsidMaxLen :=
        fun h => (w.ssid.2 0 (List.mem_of_mem_take h)).2.2 rfl
      refine ⟨?_, hne, (w.ssidText_prefix.trans w.prefix_objectText).trans hwhole⟩
      rw [ssid_credCopy, WifiPacket.cred, ssidStr_mkCred hs0, List.take_take, List.take_take,
        Nat.min_self, Nat.min_self]

/-! ### Words in an object -/

section Words

variable {key : Bytes}

/-- The letters of a value: the string, if it is one. -/
def FlatValue.str? : FlatValue → Bytes
  | .str s => s.val
  | .int _ => []

/-- **A word occurs in a member**, or behind it, exactly when it occurs in the name, in the
string, or behind. -/
theorem infix_member_iff (h : Word key) (m : FlatMember) (b : Bytes) :
    key <:+: m.bytes ++ b ↔ key <:+: m.name.val ∨ key <:+: m.value.str? ∨ key <:+: b := by
  have hvalue : key <:+: m.value.bytes ++ (m.wsEnd.val ++ b) ↔
      key <:+: m.value.str? ∨ key <:+: b := by
    cases m.value with
    | str s =>
        rw [FlatValue.bytes, List.cons_append, List.append_assoc, List.singleton_append,
          h.infix_cons_iff rfl, h.infix_append_iff rfl, h.infix_gap_iff (gap_ws _)]
        rfl
    | int l =>
        rw [FlatValue.bytes, h.infix_gap_iff (gap_intLit l), h.infix_gap_iff (gap_ws _)]
        simp [FlatValue.str?, h.not_infix_nil]
  simp only [FlatMember.bytes, List.append_assoc, List.cons_append, List.nil_append]
  rw [h.infix_gap_iff (gap_ws _), h.infix_cons_iff rfl, h.infix_append_iff rfl,
    h.infix_gap_iff (gap_ws _), h.infix_cons_iff rfl, h.infix_gap_iff (gap_ws _), hvalue]

/-- A word occurs in more members exactly if it occurs in a name or a string of one. -/
theorem infix_moreBytes_iff (h : Word key) (ms : List FlatMember) (b : Bytes) :
    key <:+: moreBytes ms ++ b ↔
      (∃ m ∈ ms, key <:+: m.name.val ∨ key <:+: m.value.str?) ∨ key <:+: b := by
  induction ms with
  | nil => simp [moreBytes]
  | cons m ms ih =>
      rw [moreBytes, List.append_assoc, List.singleton_append, h.infix_cons_iff rfl,
        List.append_assoc, infix_member_iff h, ih]
      simp only [List.exists_mem_cons_iff, or_assoc]

/-- **A word occurs in an object** exactly when it occurs in a name or a string. -/
theorem infix_object_iff (h : Word key) (o : FlatObject) :
    key <:+: o.bytes ↔ ∃ m ∈ o.members, key <:+: m.name.val ∨ key <:+: m.value.str? := by
  have htrail : ¬ key <:+: 125 :: o.trail.val := by
    rw [h.infix_cons_iff rfl]
    exact h.not_infix_gap (gap_ws _)
  rw [FlatObject.bytes, FlatObject.core, h.infix_gap_iff (gap_ws _), h.infix_cons_iff rfl,
    FlatObject.body]
  cases o.members with
  | nil =>
      dsimp only
      rw [h.infix_gap_iff (gap_ws _)]
      simpa using htrail
  | cons m ms =>
      dsimp only
      rw [List.append_assoc, infix_member_iff h, infix_moreBytes_iff h]
      simp only [List.exists_mem_cons_iff, or_assoc, htrail, or_false]

end Words

/-! ### Packets that do not mention a legacy key -/

/-- The strings of the packet do not contain a key of the legacy SSID. -/
def WifiPacket.Plain : Prop :=
  ∀ key ∈ ssidKeys, ¬ key <:+: w.ssid.val ∧ ¬ key <:+: w.pass.val

/-- The name `pass` contains no key of the SSID. -/
theorem not_infix_passName : ∀ key ∈ ssidKeys, ¬ key <:+: passName.val := by
  decide

variable {w}

/-- No key stands before the name of the SSID. -/
theorem WifiPacket.Plain.beforeName (h : w.Plain) {key : Bytes} (hkey : key ∈ ssidKeys) :
    ¬ key <:+: w.beforeName := by
  have hword := word_of_mem_ssidKeys key hkey
  have hend : ¬ key <:+: 44 :: w.ssidSpacing.wsName.val := by
    rw [hword.infix_cons_iff rfl]
    exact hword.not_infix_gap (gap_ws _)
  rw [WifiPacket.beforeName, hword.infix_gap_iff (gap_ws _), hword.infix_cons_iff rfl]
  cases w.passFirst with
  | false => exact hword.not_infix_gap (gap_ws _)
  | true =>
      rw [if_pos rfl, List.append_assoc, infix_member_iff hword]
      rintro (hin | hin | hin)
      · exact not_infix_passName key hkey hin
      · exact (h key hkey).2 hin
      · exact hend hin

/-- Only the key `ssid` stands in the packet. -/
theorem WifiPacket.Plain.object (h : w.Plain) {key : Bytes} (hkey : key ∈ ssidKeys)
    (hne : key ≠ ascii "ssid") : ¬ key <:+: w.object.bytes := by
  have hword := word_of_mem_ssidKeys key hkey
  have hssid : ∀ key ∈ ssidKeys, key ≠ ascii "ssid" → ¬ key <:+: ssidName.val := by decide
  rw [infix_object_iff hword]
  rintro ⟨m, hm, hin⟩
  rcases w.mem_members.mp hm with rfl | rfl
  · rcases hin with hin | hin
    · exact hssid key hkey hne hin
    · exact (h key hkey).1 hin
  · rcases hin with hin | hin
    · exact not_infix_passName key hkey hin
    · exact (h key hkey).2 hin

/-- Up to the closing quote of the name there is no SSID to read. -/
theorem WifiPacket.Plain.strReading_short (h : w.Plain) {t : Bytes} (ht : t <+: w.nameText)
    {key : Bytes} (hkey : key ∈ ssidKeys) : strReading t key = none := by
  have hname : ∀ x ∈ (ssidName.val ++ [34]).inits, ∀ key ∈ ssidKeys,
      strReading x key = none := by decide
  rcases prefix_append_cases ht with ht | ⟨v, hv, rfl⟩
  · exact strReading_eq_none fun hin => h.beforeName hkey (hin.trans ht.isInfix)
  · rcases List.prefix_cons_iff.mp hv with rfl | ⟨x, rfl, hx⟩
    · rw [List.append_nil]
      exact strReading_eq_none (h.beforeName hkey)
    · rw [strReading_append (word_of_mem_ssidKeys key hkey) rfl (h.beforeName hkey)]
      exact hname x ((List.mem_inits _ _).mpr hx) key hkey

/-- Behind that quote everything up to the next one is read, as the quote that closes the
name opens a value. -/
theorem WifiPacket.Plain.strReading_name (h : w.Plain) (u : Bytes) :
    strReading (w.nameText ++ u) (ascii "ssid") =
      (some (u.takeWhile (· != 34))).filter (· != []) := by
  have hkey : ascii "ssid" ∈ ssidKeys := by decide
  have htext : w.nameText ++ u = w.beforeName ++ 34 :: (ascii "ssid" ++ 34 :: u) := by
    simp [WifiPacket.nameText, ssidName]
  have hsep : (34 :: u).dropWhile isFieldSep = 34 :: u := List.dropWhile_cons_of_neg (by decide)
  rw [htext, strReading_append (word_of_mem_ssidKeys _ hkey) rfl (h.beforeName hkey), strReading,
    fieldText_key, hsep]
  rfl

/-- A prefix of the packet ends with the name of the SSID or before, or it goes on behind
it, but not with a quote. -/
theorem WifiPacket.name_cases {t : Bytes} (ht : t <+: w.object.bytes) :
    t <+: w.nameText ∨ ∃ b u, b ≠ 34 ∧ t = w.nameText ++ b :: u := by
  obtain ⟨rest, hrest⟩ := (w.ssidText_prefix.trans w.prefix_objectText).trans
    (⟨w.trail.val, by simp [WifiPacket.objectText, FlatObject.bytes, FlatObject.core,
      WifiPacket.object]⟩ : w.objectText <+: w.object.bytes)
  rw [← hrest, WifiPacket.ssidText, List.append_assoc] at ht
  rcases prefix_append_cases ht with hle | ⟨u, hu, rfl⟩
  · exact Or.inl hle
  · cases u with
    | nil => exact Or.inl (by rw [List.append_nil])
    | cons b u =>
        refine Or.inr ⟨b, u, ?_, rfl⟩
        rintro rfl
        rw [WifiPacket.colonText] at hu
        generalize hws : w.ssidSpacing.wsColon = ws at hu
        obtain ⟨ws, hws'⟩ := ws
        cases ws with
        | nil => exact absurd (List.cons_prefix_cons.mp hu).1 (by decide)
        | cons c ws =>
            obtain rfl := (List.cons_prefix_cons.mp hu).1
            exact absurd (hws' 34 List.mem_cons_self) (by simp [isWs])

/-- **What the legacy format reads out of a prefix**, if the strings do not mention a key:
nothing up to the name, then the text behind it up to the next quote. -/
theorem WifiPacket.Plain.legacySsid_iff (h : w.Plain) {t : Bytes} (ht : t <+: w.object.bytes)
    (v : Bytes) : LegacySsid t v ↔
      ¬ t <+: w.nameText ∧ ∃ u, t = w.nameText ++ u ∧ v = u.takeWhile (· != 34) := by
  rcases w.name_cases ht with hle | ⟨b, u, hb, rfl⟩
  · refine ⟨fun hv => ?_, fun hv => absurd hle hv.1⟩
    obtain ⟨key, hkey, hread⟩ := List.exists_of_findSome?_eq_some hv.2
    rw [h.strReading_short hle hkey] at hread
    exact absurd hread (by simp)
  · have hnot : ¬ w.nameText ++ b :: u <+: w.nameText := by
      intro hle
      have hlen := hle.length_le
      simp at hlen
    have hmentions : MentionsWifi (w.nameText ++ b :: u) := by
      refine Or.inr (Or.inr ⟨w.beforeName ++ [34], 34 :: b :: u, ?_⟩)
      simp [WifiPacket.nameText, ssidName]
    have hobject : ¬ ascii "SSID" <:+: w.object.bytes := h.object (by decide) (by decide)
    have hupper : strReading (w.nameText ++ b :: u) (ascii "SSID") = none :=
      strReading_eq_none fun hin => hobject (hin.trans ht.isInfix)
    have hread := h.strReading_name (b :: u)
    have hne : (b :: u).takeWhile (· != 34) ≠ [] := by
      rw [List.takeWhile_cons_of_pos (by simpa using hb)]
      exact List.cons_ne_nil _ _
    rw [Option.filter_some, if_pos (by simpa using hne)] at hread
    have hssid : LegacySsid (w.nameText ++ b :: u) ((b :: u).takeWhile (· != 34)) := by
      refine ⟨hmentions, ?_⟩
      rw [ssidKeys, List.findSome?_cons, hupper, List.findSome?_cons, hread]
    constructor
    · intro hv
      exact ⟨hnot, b :: u, rfl, hv.unique hssid⟩
    · rintro ⟨-, u', hu, rfl⟩
      rw [← List.append_cancel_left hu]
      exact hssid

/-- What that means for the legacy reading: the prefix ends with the name of the SSID at the
latest, or the SSID is complete and happens to be the colon between the quotes. -/
theorem WifiPacket.Plain.legacyAgrees_iff (h : w.Plain) {t : Bytes}
    (ht : t <+: w.object.bytes) : LegacyAgrees w t ↔
      t <+: w.nameText ∨ (w.ssidText <+: t ∧ w.ssid.val ≠ [] ∧
        w.colonText.take wifiSsidMaxLen = w.ssid.val.take wifiSsidMaxLen) := by
  by_cases hle : t <+: w.nameText
  · refine ⟨fun _ => Or.inl hle, fun _ v hv => ?_⟩
    exact absurd hle ((h.legacySsid_iff ht v).mp hv).1
  · have hcolon : ∀ c ∈ w.colonText, (c != 34) = true := by
      intro c hc
      rw [WifiPacket.colonText, List.mem_append, List.mem_cons] at hc
      rcases hc with hc | rfl | hc
      · rcases w.ssidSpacing.wsColon.2 c hc with rfl | rfl | rfl | rfl <;> rfl
      · rfl
      · rcases w.ssidSpacing.wsValue.2 c hc with rfl | rfl | rfl | rfl <;> rfl
    have hread : w.ssidText <+: t → LegacySsid t w.colonText := by
      rintro ⟨rest, rfl⟩
      rw [h.legacySsid_iff ht]
      refine ⟨hle, w.colonText ++ 34 :: (w.ssid.val ++ 34 :: rest), ?_, ?_⟩
      · simp [WifiPacket.ssidText]
      · rw [List.takeWhile_append_of_pos hcolon, List.takeWhile_cons_of_neg (by decide),
          List.append_nil]
    constructor
    · intro hagrees
      obtain ⟨b, u, -, hu⟩ := (w.name_cases ht).resolve_left hle
      have hv := (h.legacySsid_iff ht _).mpr ⟨hle, b :: u, hu, rfl⟩
      obtain ⟨-, hne, hclosed⟩ := hagrees _ hv
      exact Or.inr ⟨hclosed, hne, (hagrees _ (hread hclosed)).1⟩
    · rintro (hle' | ⟨hclosed, hne, htake⟩) v hv
      · exact absurd hle' hle
      · rw [hv.unique (hread hclosed)]
        exact ⟨htake, hne, hclosed⟩

/-- **When a prefix of a packet queues nothing but what was sent**: exactly when it holds
the whole object and the SSID is not empty, or the legacy format reads no other SSID out of
it: behind the first name of an SSID in it that has a string stands that of the packet. If the
strings do not mention a legacy key, the latter means that the prefix ends with the name of the
SSID at the latest, or that the SSID is complete and happens to be the colon between the
quotes. -/
theorem nothing_made_up_iff (w : WifiPacket) {t : Bytes} (ht : t <+: w.object.bytes) :
    (NothingMadeUp w t ↔ (w.objectText <+: t ∧ w.ssid.val ≠ []) ∨ LegacyAgrees w t) ∧
      (LegacyAgrees w t ↔ (MentionsWifi t → ∀ v, FirstOf ssidNames (FieldStr t) v →
        v.take wifiSsidMaxLen = w.ssid.val.take wifiSsidMaxLen ∧ w.ssid.val ≠ [] ∧
          w.ssidText <+: t)) ∧
      (w.Plain → (LegacyAgrees w t ↔ t <+: w.nameText ∨
        (w.ssidText <+: t ∧ w.ssid.val ≠ [] ∧
          w.colonText.take wifiSsidMaxLen = w.ssid.val.take wifiSsidMaxLen))) :=
  ⟨nothingMadeUp_iff w ht, legacyAgrees_iff_firstOf w t, fun h => h.legacyAgrees_iff ht⟩

/-- The first bytes of the sample packet, up to the middle of its SSID. -/
def cutSample : Bytes := ascii "\x7b\"ssid\":\"spe"

theorem cutSample_prefix : cutSample <+: samplePacket.object.bytes := by
  decide

/-- The condition for the prefix below. -/
theorem nothing_made_up_iff_cutSample :
    NothingMadeUp samplePacket cutSample ↔
      (samplePacket.objectText <+: cutSample ∧ samplePacket.ssid.val ≠ []) ∨
        LegacyAgrees samplePacket cutSample :=
  (nothing_made_up_iff samplePacket cutSample_prefix).1

/-- **A network that nobody sent**: the packet is cut off in the middle of its SSID, and a
credential with the SSID `:` is queued. -/
theorem made_up_network : cutSample ≠ [] ∧ cutSample <+: samplePacket.object.bytes ∧
    (parserHandlePacket cutSample).calls = [.applyWifiCredentials (mkCred (ascii ":") [])] ∧
      ¬ NothingMadeUp samplePacket cutSample := by
  have hcalls : (parserHandlePacket cutSample).calls =
      [.applyWifiCredentials (mkCred (ascii ":") [])] := by decide +kernel
  refine ⟨by decide, cutSample_prefix, hcalls, fun h => ?_⟩
  have hclosed := (h _ (hcalls ▸ List.mem_singleton.mpr rfl)).2.2
  exact absurd hclosed (by decide)

end AirShifter
