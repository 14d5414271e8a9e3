import AirShifter.ControlFormats
import AirShifter.CutPacket
import AirShifter.LongCredentials
import AirShifter.OldParser

/-!
# Provisioning by Legacy Text

An SSID and a password in the older text format: two keys, each with a separator and a
value of letters and digits, and a comma in between. The legacy pass looks for its keys one
after the other in the whole text, so that a key is also found inside a longer key, and
inside a value.

What a key has behind it is stated on the words of the text. `ProvisionText.behind` is
then what the string extractor reads, and `ProvisionText.Legible` says when the keys that
are found first lead to the two values.

## Main results

* `strReading_item`: a key reads what it has behind it in the first item of a text.
* `provisions_iff`: exactly when a text hands over its SSID and its password.
* `ProvisionText.Clean.legible_iff`: a text without stray keys is legible, unless its keys
  are `wifi` or `password`.
* `password_misread`: a text with the key `password` and one with the key `wifi`.
-/

open CBytes

namespace AirShifter

/-! ### The texts -/

/-- A key with a separator and a value of letters and digits. -/
structure LegacyItem where
  key : Bytes
  separator : Separator
  value : Bytes
  value_ne_nil : value ≠ []
  isalnum_value : ∀ c ∈ value, isalnum c = true

/-- The text of an item. -/
def LegacyItem.bytes (f : LegacyItem) : Bytes :=
  f.key ++ (f.separator.val ++ f.value)

/-- An SSID and a password, under one of the keys the legacy pass knows for each. -/
structure ProvisionText where
  ssid : LegacyItem
  pass : LegacyItem
  ssidKey_mem : ssid.key ∈ ssidKeys
  passKey_mem : pass.key ∈ passKeys
  length_ssid_le : ssid.value.length ≤ wifiSsidMaxLen
  length_pass_le : pass.value.length ≤ wifiPassMaxLen
  passFirst : Bool

/-- The two items in the order in which they stand in the text. -/
def ProvisionText.items (p : ProvisionText) : LegacyItem × LegacyItem :=
  if p.passFirst then (p.pass, p.ssid) else (p.ssid, p.pass)

/-- The text. -/
def ProvisionText.bytes (p : ProvisionText) : Bytes :=
  p.items.1.bytes ++ 44 :: p.items.2.bytes

/-- A packet hands over an SSID and a password: it is handled, and a queue with room takes
exactly one credential from it, with these strings. -/
def Provisions (buf ssid pass : Bytes) : Prop :=
  (parserHandlePacket buf).handled = true ∧
    ∀ s freed, HasRoom s freed →
      ∃ cred, queuedBy s buf freed = [cred] ∧ cred.ssidStr = ssid ∧ cred.passStr = pass

/-! ### What a key has behind it -/

/-- What stands behind the first occurrence of a key in an item. In the key of the item this
is the value; if the key of the item goes on, it is the rest of that key and all text up to
a blank. In the value it is the rest of the value. -/
def LegacyItem.behind (f : LegacyItem) (key : Bytes) : Option Bytes :=
  match behindKey f.key key with
  | some [] => some f.value
  | some r => some (r ++ (f.separator.val ++ f.value).takeWhile fun b => !isspace b)
  | none => behindKey f.value key

/-- What stands behind the first occurrence of a key in the two items. -/
def ProvisionText.behind (p : ProvisionText) (key : Bytes) : Option Bytes :=
  (p.items.1.behind key).or (p.items.2.behind key)

/-- Among the keys in the order in which they are tried, the first one that stands in the
text with anything behind it has `r` behind it. -/
def ProvisionText.Finds (p : ProvisionText) (keys : List Bytes) (r : Bytes) : Prop :=
  ∃ before key after, keys = before ++ key :: after ∧
    (∀ k ∈ before, p.behind k = none ∨ p.behind k = some []) ∧ p.behind key = some r ∧ r ≠ []

/-- The keys lead to the two values: the text passes for one that mentions a network, and the
first key found for each string has that string behind it, as far as it fits. -/
structure ProvisionText.Legible (p : ProvisionText) : Prop where
  mentions : p.ssid.key ≠ ascii "wifi" ∨ MentionsWifi p.ssid.value ∨ MentionsWifi p.pass.value
  ssid : ∃ r, p.Finds ssidKeys r ∧ r.take wifiSsidMaxLen = p.ssid.value
  pass : ∃ r, p.Finds passKeys r ∧ r.take wifiPassMaxLen = p.pass.value

/-! ### Reading one item -/

/-- A letter or digit is no whitespace. -/
theorem isspace_of_isalnum {b : UInt8} (h : isalnum b = true) : isspace b = false := by
  rw [← Bool.not_eq_true]
  intro hspace
  rw [isalnum, Bool.or_eq_true] at h
  rcases h with h | h
  · rw [isalpha_of_isspace hspace] at h
    exact absurd h Bool.false_ne_true
  · rw [isspace_of_isdigit h] at hspace
    exact absurd hspace Bool.false_ne_true

/-- Nor is it a separator. -/
theorem isFieldSep_of_isalnum {b : UInt8} (h : isalnum b = true) : isFieldSep b = false := by
  have hne : b ≠ 58 ∧ b ≠ 61 := by
    constructor <;> rintro rfl <;> exact absurd h (by decide)
  simp [isFieldSep, isspace_of_isalnum h, hne.1, hne.2]

/-- The text behind an item: nothing, or a comma. -/
def Ends (t : Bytes) : Prop :=
  ∀ b ∈ t.head?, b = 44

/-- At the end of an item there is no value. -/
theorem strValue_of_ends {t : Bytes} (ht : Ends t) : strValue t = [] := by
  cases t with
  | nil => rfl
  | cons b t =>
      obtain rfl := ht b rfl
      rfl

/-- **A value that starts with a letter or a digit** goes up to a blank, if there is no comma
in front of its end. -/
theorem strValue_append {a t : Bytes} (ha : ∃ b ∈ a.head?, isalnum b = true) (hcomma : 44 ∉ a)
    (ht : Ends t) : strValue (a ++ t) = a.takeWhile fun b => !isspace b := by
  obtain ⟨b, hb, halnum⟩ := ha
  obtain ⟨a', rfl⟩ : ∃ a', a = b :: a' := by
    cases a with
    | nil => exact absurd hb (by simp)
    | cons x a' => exact ⟨a', by rw [Option.some.inj hb]⟩
  have hquote : ¬ (b = 34 ∨ b = 39) := by
    rintro (rfl | rfl) <;> exact absurd halnum (by decide)
  have hstop : ∀ x ∈ t.head?, (x != 44 && !isspace x) = false := by
    intro x hx
    rw [ht x hx]
    rfl
  rw [List.cons_append, strValue, if_neg hquote, ← List.cons_append,
    takeWhile_append_of_head hstop]
  refine takeWhile_congr_of_mem fun x hx => ?_
  have hne : x ≠ 44 := fun h => hcomma (h ▸ hx)
  rw [bne_iff_ne.mpr hne, Bool.true_and]

/-- Letters and digits are read as they are, also if there are none. -/
theorem strValue_alnum {a t : Bytes} (ha : ∀ b ∈ a, isalnum b = true) (ht : Ends t) :
    strValue ((a ++ t).dropWhile isFieldSep) = a := by
  cases a with
  | nil =>
      have hskip : t.dropWhile isFieldSep = t := by
        cases t with
        | nil => rfl
        | cons b t =>
            obtain rfl := ht b rfl
            rfl
      rw [List.nil_append, hskip, strValue_of_ends ht]
  | cons b a =>
      have hb := ha b List.mem_cons_self
      have hsep : ¬ isFieldSep b = true := by
        rw [isFieldSep_of_isalnum hb]
        exact Bool.false_ne_true
      have hcomma : 44 ∉ b :: a := fun h => absurd (ha 44 h) (by decide)
      have hall : (b :: a).takeWhile (fun b => !isspace b) = b :: a := by
        rw [List.takeWhile_eq_self_iff]
        intro x hx
        rw [isspace_of_isalnum (ha x hx)]
        rfl
      rw [List.cons_append, List.dropWhile_cons_of_neg hsep, ← List.cons_append,
        strValue_append ⟨b, rfl, hb⟩ hcomma ht, hall]

section Item

variable {key : Bytes}

/-- What stands behind a key in the front of a text is read from there. -/
theorem strReading_of_behindKey {a r b : Bytes} (h : Word key)
    (hb : ∀ c ∈ b.head?, isalpha c = false) (hr : behindKey a key = some r) :
    strReading (a ++ b) key =
      (some (strValue ((r ++ b).dropWhile isFieldSep))).filter (· != []) := by
  obtain ⟨pos, hpos, rfl⟩ := Option.map_eq_some_iff.mp hr
  obtain ⟨⟨r, rfl⟩, -⟩ := strstr_eq_some hpos
  have hfind : strstr (a ++ b) key = some (key ++ r ++ b) := by
    cases b with
    | nil => rw [List.append_nil, List.append_nil, hpos]
    | cons c b =>
        rw [strstr_append_cons h.ne_nil (h.notMem (hb c rfl)), hpos]
        rfl
  rw [strReading, fieldText, hfind, Option.map_some, Option.map_some, List.drop_left,
    List.append_assoc, List.drop_left]

/-- A key with nothing behind it does not occur. -/
theorem not_infix_of_behindKey {a : Bytes} (h : behindKey a key = none) : ¬ key <:+: a := by
  rw [behindKey, Option.map_eq_none_iff] at h
  exact strstr_eq_none_iff.mp h

/-- What stands behind a key stands in the text. -/
theorem mem_of_behindKey {a r : Bytes} (h : behindKey a key = some r) : ∀ b ∈ r, b ∈ a := by
  obtain ⟨pos, hpos, rfl⟩ := Option.map_eq_some_iff.mp h
  exact fun b hb => (strstr_eq_some hpos).2.subset ((List.drop_suffix _ _).subset hb)

/-- No letter follows on an item. -/
theorem Ends.isalpha_head {t : Bytes} (ht : Ends t) : ∀ c ∈ t.head?, isalpha c = false := by
  intro c hc
  rw [ht c hc]
  rfl

/-- A key that does not stand in front is looked for behind. -/
theorem strReading_skip {a t : Bytes} (h : Word key) (ht : ∀ c ∈ t.head?, isalpha c = false)
    (ha : ¬ key <:+: a) : strReading (a ++ t) key = strReading t key := by
  cases t with
  | nil => rw [List.append_nil, strReading_eq_none ha, strReading_eq_none h.not_infix_nil]
  | cons c t =>
      have hc := ht c rfl
      rw [strReading_append h hc ha, ← List.nil_append (c :: t),
        strReading_append h hc h.not_infix_nil]

/-- The separator of an item starts with a byte that is no letter, and contains none. -/
theorem LegacyItem.separator_cases (f : LegacyItem) :
    Gap f.separator.val ∧ ∀ b, ∀ c ∈ (f.separator.val ++ b).head?, isalpha c = false := by
  have hgap : Gap f.separator.val := fun c hc => isalpha_of_isFieldSep (f.separator.2.2 c hc)
  refine ⟨hgap, fun b c hc => hgap c ?_⟩
  obtain ⟨x, g, hsep⟩ := List.exists_cons_of_ne_nil f.separator.2.1
  rw [hsep] at hc ⊢
  obtain rfl := Option.some.inj hc
  exact List.mem_cons_self

/-- An item has no comma. -/
theorem LegacyItem.comma_notMem (f : LegacyItem) : 44 ∉ f.separator.val ++ f.value := by
  rw [List.mem_append]
  rintro (h | h)
  · exact absurd (f.separator.2.2 44 h) (by decide)
  · exact absurd (f.isalnum_value 44 h) (by decide)

/-- **A key in front of a text** reads what it has behind it in the first item, and is looked
for behind the item if it does not stand there. -/
theorem strReading_item (h : Word key) (f : LegacyItem) (hf : Word f.key) {t : Bytes}
    (ht : Ends t) : strReading (f.bytes ++ t) key =
      (f.behind key).elim (strReading t key) fun r => (some r).filter (· != []) := by
  obtain ⟨hgap, hhead⟩ := f.separator_cases
  rw [LegacyItem.bytes, List.append_assoc, List.append_assoc, LegacyItem.behind]
  cases hkey : behindKey f.key key with
  | none =>
      have hskip : strReading (f.separator.val ++ (f.value ++ t)) key =
          strReading (f.value ++ t) key := by
        rw [strReading, fieldText_gap h hgap, strReading]
      rw [strReading_skip h (hhead _) (not_infix_of_behindKey hkey), hskip]
      dsimp only
      cases hvalue : behindKey f.value key with
      | none => exact strReading_skip h ht.isalpha_head (not_infix_of_behindKey hvalue)
      | some r =>
          have hr : ∀ b ∈ r, isalnum b = true :=
            fun b hb => f.isalnum_value b (mem_of_behindKey hvalue b hb)
          rw [strReading_of_behindKey h ht.isalpha_head hvalue, strValue_alnum hr ht]
          rfl
  | some r =>
      rw [strReading_of_behindKey h (hhead _) hkey]
      cases r with
      | nil =>
          rw [List.nil_append, List.dropWhile_append_of_pos f.separator.2.2,
            strValue_alnum f.isalnum_value ht]
          rfl
      | cons b r =>
          -- the key of the item goes on behind the key, with a letter
          have hletter : ∀ c ∈ b :: r, isalnum c = true := by
            intro c hc
            rw [isalnum, hf.isalpha_of_mem c (mem_of_behindKey hkey c hc), Bool.true_or]
          have hb := hletter b List.mem_cons_self
          have hcomma : 44 ∉ b :: r ++ (f.separator.val ++ f.value) := by
            rw [List.mem_append, not_or]
            exact ⟨fun hc => absurd (hletter 44 hc) (by decide), f.comma_notMem⟩
          have hsep : ¬ isFieldSep b = true := by
            rw [isFieldSep_of_isalnum hb]
            exact Bool.false_ne_true
          have hsplit : b :: r ++ (f.separator.val ++ (f.value ++ t)) =
              b :: r ++ (f.separator.val ++ f.value) ++ t := by
            simp
          have hblank : ∀ c ∈ b :: r, (!isspace c) = true := by
            intro c hc
            rw [isspace_of_isalnum (hletter c hc)]
            rfl
          rw [List.cons_append, List.dropWhile_cons_of_neg hsep, ← List.cons_append, hsplit,
            strValue_append ⟨b, rfl, hb⟩ hcomma ht, List.takeWhile_append_of_pos hblank]
          rfl

end Item

/-! ### Reading the text -/

variable (p : ProvisionText)

/-- The keys of both items are words. -/
theorem ProvisionText.word_items : Word p.items.1.key ∧ Word p.items.2.key := by
  have hssid : Word p.ssid.key := word_of_mem_ssidKeys p.ssid.key p.ssidKey_mem
  have hpass : Word p.pass.key := word_of_mem_passKeys p.pass.key p.passKey_mem
  rw [ProvisionText.items]
  split_ifs
  · exact ⟨hpass, hssid⟩
  · exact ⟨hssid, hpass⟩

/-- **The text reads under a key** what the key has behind it, unless that is nothing. -/
theorem ProvisionText.strReading_eq {key : Bytes} (h : Word key) :
    strReading p.bytes key = (p.behind key).filter (· != []) := by
  obtain ⟨hfst, hsnd⟩ := p.word_items
  have hcomma : Ends (44 :: p.items.2.bytes) := fun b hb => (Option.some.inj hb).symm
  have hlast := strReading_item h p.items.2 hsnd (t := []) (by simp [Ends])
  rw [List.append_nil, strReading_eq_none h.not_infix_nil] at hlast
  have hskip : strReading (44 :: p.items.2.bytes) key = strReading p.items.2.bytes key := by
    rw [← List.nil_append (44 :: _), strReading_append h rfl h.not_infix_nil]
  rw [ProvisionText.bytes, strReading_item h p.items.1 hfst hcomma, hskip, hlast,
    ProvisionText.behind]
  cases p.items.1.behind key with
  | some r => rfl
  | none => cases p.items.2.behind key <;> rfl

/-- What is found under a list of keys is the first reading there is. -/
theorem ProvisionText.finds_iff {keys : List Bytes} (hkeys : ∀ key ∈ keys, Word key) (r : Bytes) :
    p.Finds keys r ↔ keys.findSome? (strReading p.bytes) = some r := by
  have hsilent : ∀ key ∈ keys, (strReading p.bytes key = none ↔
      p.behind key = none ∨ p.behind key = some []) := by
    intro key hkey
    rw [p.strReading_eq (hkeys key hkey)]
    cases p.behind key <;> simp
  have hloud : ∀ key ∈ keys, (strReading p.bytes key = some r ↔
      p.behind key = some r ∧ r ≠ []) := by
    intro key hkey
    rw [p.strReading_eq (hkeys key hkey), Option.filter_eq_some_iff, bne_iff_ne]
  rw [List.findSome?_eq_some_iff, ProvisionText.Finds]
  constructor
  · rintro ⟨before, key, after, rfl, hbefore, hkey⟩
    refine ⟨before, key, after, rfl, (hloud key (by simp)).mpr hkey, fun k hk => ?_⟩
    exact (hsilent k (List.mem_append_left _ hk)).mpr (hbefore k hk)
  · rintro ⟨before, key, after, rfl, hkey, hbefore⟩
    refine ⟨before, key, after, rfl, fun k hk => ?_, (hloud key (by simp)).mp hkey⟩
    exact (hsilent k (List.mem_append_left _ hk)).mp (hbefore k hk)

/-- The text has no NUL. -/
theorem ProvisionText.zero_notMem : 0 ∉ p.bytes := by
  have hitem : ∀ f : LegacyItem, Word f.key → 0 ∉ f.bytes := by
    intro f hf hmem
    rw [LegacyItem.bytes, List.mem_append, List.mem_append] at hmem
    rcases hmem with h | h | h
    · exact hf.notMem (by decide) h
    · exact absurd (f.separator.2.2 0 h) (by decide)
    · exact absurd (f.isalnum_value 0 h) (by decide)
  obtain ⟨hfst, hsnd⟩ := p.word_items
  rw [ProvisionText.bytes, List.mem_append, List.mem_cons]
  rintro (h | h | h)
  · exact hitem _ hfst h
  · exact absurd h (by decide)
  · exact hitem _ hsnd h

/-- The text is not read as JSON. -/
theorem ProvisionText.jsonPass_eq : jsonPass p.bytes = ([], false) := by
  rw [ProvisionText.bytes, LegacyItem.bytes, List.append_assoc]
  exact jsonPass_of_word p.word_items.1 _

/-- A word stands in an item exactly when it stands in its key or its value. -/
theorem LegacyItem.infix_iff {key : Bytes} (h : Word key) (f : LegacyItem) :
    key <:+: f.bytes ↔ key <:+: f.key ∨ key <:+: f.value := by
  obtain ⟨c, g, hsep⟩ := List.exists_cons_of_ne_nil f.separator.2.1
  have hgap := f.separator_cases.1
  rw [hsep] at hgap
  rw [LegacyItem.bytes, hsep, List.cons_append, h.infix_append_iff (hgap c List.mem_cons_self),
    h.infix_gap_iff fun d hd => hgap d (List.mem_cons_of_mem c hd)]

/-- A word occurs in the text exactly if it occurs in a key or in a value. -/
theorem ProvisionText.infix_iff {key : Bytes} (h : Word key) : key <:+: p.bytes ↔
    (key <:+: p.ssid.key ∨ key <:+: p.ssid.value) ∨
      key <:+: p.pass.key ∨ key <:+: p.pass.value := by
  rw [ProvisionText.bytes, h.infix_append_iff rfl, LegacyItem.infix_iff h, LegacyItem.infix_iff h,
    ProvisionText.items]
  split_ifs
  · exact or_comm
  · exact Iff.rfl

/-- **The text passes for one that mentions a network** under every key but `wifi`, or by
accident. -/
theorem ProvisionText.mentionsWifi_iff : MentionsWifi p.bytes ↔
    p.ssid.key ≠ ascii "wifi" ∨ MentionsWifi p.ssid.value ∨ MentionsWifi p.pass.value := by
  have hssid : ∀ key ∈ ssidKeys, ((ascii "Wifi" <:+: key ∨ ascii "SSID" <:+: key ∨
      ascii "ssid" <:+: key) ↔ key ≠ ascii "wifi") := by decide
  have hpass : ∀ key ∈ passKeys, ¬ (ascii "Wifi" <:+: key ∨ ascii "SSID" <:+: key ∨
      ascii "ssid" <:+: key) := by decide
  have hkey := hssid p.ssid.key p.ssidKey_mem
  obtain ⟨hWifi, hSSID, hssid⟩ : ¬ ascii "Wifi" <:+: p.pass.key ∧
      ¬ ascii "SSID" <:+: p.pass.key ∧ ¬ ascii "ssid" <:+: p.pass.key := by
    simpa only [not_or] using hpass p.pass.key p.passKey_mem
  rw [← hkey, MentionsWifi, MentionsWifi, MentionsWifi, p.infix_iff (by decide),
    p.infix_iff (by decide), p.infix_iff (by decide)]
  simp only [hWifi, hSSID, hssid, false_or]
  exact Iff.of_eq (by ac_rfl)

/-! ### What a packet hands over -/

/-- The password of a credential is the one it is made from, as far as it fits. -/
theorem passStr_mkCred (ssid : Bytes) {pass : Bytes} (h : 0 ∉ pass) :
    (mkCred ssid pass).passStr = pass.take wifiPassMaxLen :=
  cstr_strncpy h (by decide)

/-- The strings of the credential that the legacy pass makes. -/
theorem mkCred_of_legacySsid {buf v : Bytes} (h0 : 0 ∉ buf) (hv : LegacySsid buf v) :
    (mkCred (v.take wifiSsidMaxLen) ((legacyPassword buf).take wifiPassMaxLen)).ssidStr =
        v.take wifiSsidMaxLen ∧
      (mkCred (v.take wifiSsidMaxLen) ((legacyPassword buf).take wifiPassMaxLen)).passStr =
        (legacyPassword buf).take wifiPassMaxLen := by
  have hv0 : 0 ∉ v.take wifiSsidMaxLen :=
    fun h => zero_notMem_findSome h0 hv.2 (List.mem_of_mem_take h)
  have hp0 : 0 ∉ (legacyPassword buf).take wifiPassMaxLen :=
    fun h => zero_notMem_legacyPassword h0 (List.mem_of_mem_take h)
  rw [ssidStr_mkCred hv0, passStr_mkCred _ hp0, List.take_take, List.take_take, min_self, min_self]
  exact ⟨rfl, rfl⟩

/-- A packet that is no JSON is handled and queues one credential, if it has an SSID to
read, and nothing otherwise. -/
theorem provisions_iff_readings {buf ssid pass : Bytes} (h0 : 0 ∉ buf)
    (hjson : (jsonPass buf).1 = []) : Provisions buf ssid pass ↔
      ∃ v, LegacySsid buf v ∧ v.take wifiSsidMaxLen = ssid ∧
        (legacyPassword buf).take wifiPassMaxLen = pass := by
  constructor
  · rintro ⟨-, hqueued⟩
    have hroom : HasRoom bootBiz false := ⟨CredQueue.empty, rfl, Or.inl (by decide)⟩
    obtain ⟨cred, hcred, hssid, hpass⟩ := hqueued bootBiz false hroom
    rw [queuedBy_of_room hroom, appliedCreds_of_nil hjson] at hcred
    by_cases hv : ∃ v, LegacySsid buf v
    · obtain ⟨v, hv⟩ := hv
      rw [legacyWifi_eq_some h0 hv] at hcred
      obtain rfl := List.head_eq_of_cons_eq hcred
      obtain ⟨hssid', hpass'⟩ := mkCred_of_legacySsid h0 hv
      exact ⟨v, hv, hssid'.symm.trans hssid, hpass'.symm.trans hpass⟩
    · rw [legacyWifi_eq_none h0 (not_exists.mp hv)] at hcred
      exact absurd hcred (by simp)
  · rintro ⟨v, hv, rfl, rfl⟩
    have hwifi := legacyWifi_eq_some h0 hv
    obtain ⟨hssid, hpass⟩ := mkCred_of_legacySsid h0 hv
    refine ⟨?_, fun s freed hroom => ⟨_, ?_, hssid, hpass⟩⟩
    · rw [parserHandlePacket_of_nil hjson, legacyPass, hwifi]
    · rw [queuedBy_of_room hroom, appliedCreds_of_nil hjson, hwifi]
      rfl

/-- The keys that are found first decide what a text hands over. -/
theorem ProvisionText.provisions_iff_legible :
    Provisions p.bytes p.ssid.value p.pass.value ↔ p.Legible := by
  have hpass : (legacyPassword p.bytes).take wifiPassMaxLen = p.pass.value ↔
      ∃ r, p.Finds passKeys r ∧ r.take wifiPassMaxLen = p.pass.value := by
    simp only [p.finds_iff word_of_mem_passKeys, legacyPassword]
    cases passKeys.findSome? (strReading p.bytes) with
    | none => simpa using p.pass.value_ne_nil.symm
    | some r => simp
  rw [provisions_iff_readings p.zero_notMem (by rw [p.jsonPass_eq]), hpass]
  simp only [LegacySsid, p.mentionsWifi_iff, ← p.finds_iff word_of_mem_ssidKeys]
  constructor
  · rintro ⟨r, ⟨hmentions, hfinds⟩, hssid, hpass⟩
    exact ⟨hmentions, ⟨r, hfinds, hssid⟩, hpass⟩
  · rintro ⟨hmentions, ⟨r, hfinds, hssid⟩, hpass⟩
    exact ⟨r, ⟨hmentions, hfinds⟩, hssid, hpass⟩

/-! ### Texts without stray keys -/

/-- No key stands in a value. -/
def ProvisionText.Clean : Prop :=
  ∀ key ∈ ssidKeys ++ passKeys, ¬ key <:+: p.ssid.value ∧ ¬ key <:+: p.pass.value

/-- A key that does not occur has nothing behind it. -/
theorem behindKey_eq_none {a key : Bytes} (h : ¬ key <:+: a) : behindKey a key = none := by
  rw [behindKey, strstr_eq_none_iff.mpr h]
  rfl

/-- The key of an item has its value behind it. -/
theorem LegacyItem.behind_self (f : LegacyItem) : f.behind f.key = some f.value := by
  have hself : behindKey f.key f.key = some [] := by
    have hfind := strstr_prefix f.key []
    rw [List.append_nil] at hfind
    rw [behindKey, hfind, Option.map_some, List.drop_length]
  rw [LegacyItem.behind, hself]

/-- A key that is in no part of an item has nothing behind it. -/
theorem LegacyItem.behind_eq_none (f : LegacyItem) {key : Bytes} (hkey : ¬ key <:+: f.key)
    (hvalue : ¬ key <:+: f.value) : f.behind key = none := by
  rw [LegacyItem.behind, behindKey_eq_none hkey]
  exact behindKey_eq_none hvalue

/-- If no key of the list stands in a value or in the key of the one item, the first one that
stands in the key of the other item is found. -/
theorem ProvisionText.finds_first {before after : List Bytes} {key r : Bytes} {f g : LegacyItem}
    (hitems : p.items = (f, g) ∨ p.items = (g, f)) (hbefore : ∀ k ∈ before, ¬ k <:+: f.key)
    (hother : ∀ k ∈ before ++ key :: after, ¬ k <:+: g.key)
    (hvalue : ∀ k ∈ before ++ key :: after, ¬ k <:+: f.value ∧ ¬ k <:+: g.value)
    (hbehind : f.behind key = some r) (hr : r ≠ []) :
    p.Finds (before ++ key :: after) r := by
  have hitem : ∀ k ∈ before ++ key :: after, p.behind k = f.behind k := by
    intro k hk
    have hnone : g.behind k = none := g.behind_eq_none (hother k hk) (hvalue k hk).2
    rw [ProvisionText.behind]
    rcases hitems with h | h
    · rw [h, hnone, Option.or_none]
    · rw [h, hnone, Option.none_or]
  refine ⟨before, key, after, rfl, fun k hk => Or.inl ?_, ?_, hr⟩
  · have hk' : k ∈ before ++ key :: after := List.mem_append_left _ hk
    rw [hitem k hk', f.behind_eq_none (hbefore k hk) (hvalue k hk').1]
  · rw [hitem key (List.mem_append_right _ List.mem_cons_self), hbehind]

/-- An item is found under its own key, if no other key of the list stands in that. -/
theorem ProvisionText.finds_own {keys : List Bytes} {f g : LegacyItem}
    (hitems : p.items = (f, g) ∨ p.items = (g, f)) (hmem : f.key ∈ keys)
    (hkey : ∀ k ∈ keys, (k <:+: f.key → k = f.key) ∧ ¬ k <:+: g.key)
    (hvalue : ∀ k ∈ keys, ¬ k <:+: f.value ∧ ¬ k <:+: g.value) : p.Finds keys f.value := by
  obtain ⟨before, after, rfl, hnot⟩ := List.eq_append_cons_of_mem hmem
  refine p.finds_first hitems (fun k hk hin => hnot ?_) (fun k hk => (hkey k hk).2) hvalue
    f.behind_self f.value_ne_nil
  rw [← (hkey k (List.mem_append_left _ hk)).1 hin]
  exact hk

/-- The two items stand in one order or the other. -/
theorem ProvisionText.items_cases :
    p.items = (p.ssid, p.pass) ∨ p.items = (p.pass, p.ssid) := by
  rw [ProvisionText.items]
  split_ifs
  · exact Or.inr rfl
  · exact Or.inl rfl

/-- Without stray keys the SSID is found. -/
theorem ProvisionText.Clean.finds_ssid {p : ProvisionText} (h : p.Clean) :
    p.Finds ssidKeys p.ssid.value := by
  have hkeys : ∀ k ∈ ssidKeys, (∀ key ∈ ssidKeys, k <:+: key → k = key) ∧
      ∀ key ∈ passKeys, ¬ k <:+: key := by decide
  refine p.finds_own p.items_cases p.ssidKey_mem (fun k hk => ?_) fun k hk =>
    h k (List.mem_append_left _ hk)
  exact ⟨(hkeys k hk).1 _ p.ssidKey_mem, (hkeys k hk).2 _ p.passKey_mem⟩

/-- So is the password, unless its key is `password`. -/
theorem ProvisionText.Clean.finds_pass {p : ProvisionText} (h : p.Clean)
    (hkey : p.pass.key ≠ ascii "password") : p.Finds passKeys p.pass.value := by
  have hkeys : ∀ k ∈ passKeys, (∀ key ∈ passKeys, key ≠ ascii "password" → k <:+: key → k = key) ∧
      ∀ key ∈ ssidKeys, ¬ k <:+: key := by decide
  refine p.finds_own p.items_cases.symm p.passKey_mem (fun k hk => ?_) fun k hk =>
    (h k (List.mem_append_right _ hk)).symm
  exact ⟨(hkeys k hk).1 _ p.passKey_mem hkey, (hkeys k hk).2 _ p.ssidKey_mem⟩

/-- The key `password` is found as `pass`, with the rest of the key behind it. -/
theorem ProvisionText.Clean.finds_word {p : ProvisionText} (h : p.Clean)
    (hkey : p.pass.key = ascii "password") :
    p.Finds passKeys (ascii "word" ++
      (p.pass.separator.val ++ p.pass.value).takeWhile fun b => !isspace b) := by
  have hkeys : ∀ k ∈ passKeys, ∀ key ∈ ssidKeys, ¬ k <:+: key := by decide
  have hbehind : p.pass.behind (ascii "pass") = some (ascii "word" ++
      (p.pass.separator.val ++ p.pass.value).takeWhile fun b => !isspace b) := by
    have hword : behindKey (ascii "password") (ascii "pass") = some (ascii "word") := by decide
    rw [LegacyItem.behind, hkey, hword]
    rfl
  have hbefore : ∀ k ∈ [ascii "PASS", ascii "Pass"], ¬ k <:+: p.pass.key := by
    rw [hkey]
    decide
  exact p.finds_first p.items_cases.symm hbefore (fun k hk => hkeys k hk _ p.ssidKey_mem)
    (fun k hk => (h k (List.mem_append_right _ hk)).symm) hbehind
    (List.append_ne_nil_of_left_ne_nil (by decide) _)

/-- What is found for the key `password` is the password by accident only: if that is `word`,
and the separator starts with a blank. -/
theorem LegacyItem.word_eq_value_iff (f : LegacyItem) :
    (ascii "word" ++ (f.separator.val ++ f.value).takeWhile fun b => !isspace b).take
        wifiPassMaxLen = f.value ↔
      f.value = ascii "word" ∧ ∀ b ∈ f.separator.val.head?, isspace b = true := by
  obtain ⟨hne, hsep⟩ := f.separator.2
  obtain ⟨b, sep, hb⟩ := List.exists_cons_of_ne_nil hne
  rw [hb, List.head?_cons, List.cons_append]
  by_cases hspace : isspace b = true
  · rw [List.takeWhile_cons_of_neg (by simp [hspace]), List.append_nil]
    constructor
    · intro hvalue
      exact ⟨hvalue.symm, fun x hx => Option.some.inj hx ▸ hspace⟩
    · rintro ⟨hvalue, -⟩
      rw [hvalue]
      decide
  · rw [List.takeWhile_cons_of_pos (by simp [hspace])]
    constructor
    · -- the separator is no part of a value of letters and digits
      intro hvalue
      have hmem : b ∈ f.value := by
        rw [← hvalue]
        exact List.mem_append_right (ascii "word") List.mem_cons_self
      have hfield := hsep b (hb ▸ List.mem_cons_self)
      rw [isFieldSep_of_isalnum (f.isalnum_value b hmem)] at hfield
      exact absurd hfield Bool.false_ne_true
    · rintro ⟨-, hblank⟩
      exact absurd (hblank b rfl) hspace

/-- **A text without stray keys is legible**, unless its key for the SSID is `wifi`, or its key
for the password is `password` and the password is not, by accident, the end of that. -/
theorem ProvisionText.Clean.legible_iff {p : ProvisionText} (h : p.Clean) :
    p.Legible ↔ p.ssid.key ≠ ascii "wifi" ∧
      (p.pass.key = ascii "password" → p.pass.value = ascii "word" ∧
        ∀ b ∈ p.pass.separator.val.head?, isspace b = true) := by
  have hmentions : (p.ssid.key ≠ ascii "wifi" ∨ MentionsWifi p.ssid.value ∨
      MentionsWifi p.pass.value) ↔ p.ssid.key ≠ ascii "wifi" := by
    obtain ⟨hWifi, hWifi'⟩ := h (ascii "Wifi") (by decide)
    obtain ⟨hSSID, hSSID'⟩ := h (ascii "SSID") (by decide)
    obtain ⟨hssid, hssid'⟩ := h (ascii "ssid") (by decide)
    simp only [MentionsWifi, hWifi, hWifi', hSSID, hSSID', hssid, hssid', or_false]
  have hssid : ∃ r, p.Finds ssidKeys r ∧ r.take wifiSsidMaxLen = p.ssid.value :=
    ⟨p.ssid.value, h.finds_ssid, List.take_of_length_le p.length_ssid_le⟩
  have hpass : (∃ r, p.Finds passKeys r ∧ r.take wifiPassMaxLen = p.pass.value) ↔
      (p.pass.key = ascii "password" → p.pass.value = ascii "word" ∧
        ∀ b ∈ p.pass.separator.val.head?, isspace b = true) := by
    by_cases hkey : p.pass.key = ascii "password"
    · rw [← p.pass.word_eq_value_iff, forall_prop_of_true hkey]
      constructor
      · rintro ⟨r, hfinds, hr⟩
        rw [p.finds_iff word_of_mem_passKeys] at hfinds
        have hword := (p.finds_iff word_of_mem_passKeys _).mp (h.finds_word hkey)
        rwa [Option.some.inj (hword.symm.trans hfinds)]
      · exact fun hr => ⟨_, h.finds_word hkey, hr⟩
    · exact iff_of_true ⟨_, h.finds_pass hkey, List.take_of_length_le p.length_pass_le⟩
        fun hc => absurd hc hkey
  rw [← hmentions, ← hpass]
  exact ⟨fun hlegible => ⟨hlegible.mentions, hlegible.pass⟩,
    fun hlegible => ⟨hlegible.1, hssid, hlegible.2⟩⟩

/-- **A text hands over its SSID and its password** exactly when it is legible. If no key
stands in a value that means: the key for the SSID is not `wifi`, and the one for the password
is not `password`, but for a password that is the end of that. -/
theorem provisions_iff :
    (Provisions p.bytes p.ssid.value p.pass.value ↔ p.Legible) ∧
      (p.Clean → (p.Legible ↔ p.ssid.key ≠ ascii "wifi" ∧
        (p.pass.key = ascii "password" → p.pass.value = ascii "word" ∧
          ∀ b ∈ p.pass.separator.val.head?, isspace b = true))) :=
  ⟨p.provisions_iff_legible, ProvisionText.Clean.legible_iff⟩

/-! ### Texts that are misread -/

/-- A network and its password under two given keys. -/
def homeText (ssidKey passKey : Bytes) (hs : ssidKey ∈ ssidKeys) (hp : passKey ∈ passKeys) :
    ProvisionText where
  ssid := { key := ssidKey, separator := ⟨[58], by decide⟩, value := ascii "home",
            value_ne_nil := by decide, isalnum_value := by decide }
  pass := { key := passKey, separator := ⟨[58], by decide⟩, value := ascii "secret",
            value_ne_nil := by decide, isalnum_value := by decide }
  ssidKey_mem := hs
  passKey_mem := hp
  length_ssid_le := show (ascii "home").length ≤ wifiSsidMaxLen by decide
  length_pass_le := show (ascii "secret").length ≤ wifiPassMaxLen by decide
  passFirst := false

/-- **The key `password` is read as `pass`**, and a text with the key `wifi` is not read at
all. -/
theorem password_misread :
    (∃ p : ProvisionText, p.bytes = ascii "SSID:home,password:secret" ∧
      appliedCreds (parserHandlePacket p.bytes).calls =
        [mkCred (ascii "home") (ascii "word:secret")] ∧
      ¬ Provisions p.bytes p.ssid.value p.pass.value) ∧
    ∃ p : ProvisionText, p.bytes = ascii "wifi:home,pass:secret" ∧
      (parserHandlePacket p.bytes).handled = false ∧
      ¬ Provisions p.bytes p.ssid.value p.pass.value := by
  constructor
  · refine ⟨homeText (ascii "SSID") (ascii "password") (by decide) (by decide), by decide,
      by decide +kernel, fun h => ?_⟩
    have hroom : HasRoom bootBiz false := ⟨CredQueue.empty, rfl, Or.inl (by decide)⟩
    obtain ⟨cred, hcred, -, hpass⟩ := h.2 bootBiz false hroom
    have hqueued : queuedBy bootBiz
        (homeText (ascii "SSID") (ascii "password") (by decide) (by decide)).bytes false =
        [mkCred (ascii "home") (ascii "word:secret")] := by decide +kernel
    obtain rfl := List.head_eq_of_cons_eq (hqueued.symm.trans hcred)
    exact absurd hpass (by decide +kernel)
  · have hsilent : (parserHandlePacket
        (homeText (ascii "wifi") (ascii "pass") (by decide) (by decide)).bytes).handled =
          false := by
      decide +kernel
    refine ⟨homeText (ascii "wifi") (ascii "pass") (by decide) (by decide), by decide, hsilent,
      fun h => ?_⟩
    rw [h.1] at hsilent
    exact absurd hsilent (by decide)

end AirShifter
