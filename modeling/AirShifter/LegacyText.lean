import AirShifter.Parser

/-!
# The Legacy Text Format

What the legacy pass of the parser reads out of a text. A field is looked up by the first
occurrence of its key; its value starts behind the separators that follow. A string value
goes to the closing quote if it opens with one, otherwise to the next comma or
whitespace. `LegacySsid`, `legacyPassword` and `LegacyCommand` state these readings
without buffers; the functions of `parser.c` are shown to compute them.

## Main results

* `legacyExtractStrField_spec`: the string extractor leaves the reading in its buffer.
* `legacyWifi_eq_some`: the credential of the Wi-Fi branch, from the readings.
* `legacyPass_eq_nil_iff`: the legacy pass makes no call exactly when the text has no
  legacy field.
-/

open CBytes

namespace AirShifter

/-! ### Readings -/

/-- The text from the value of a field on. -/
def fieldText (src key : Bytes) : Option Bytes :=
  (strstr src key).map fun pos => (pos.drop key.length).dropWhile isFieldSep

/-- The string value at the start of a text. -/
def strValue (t : Bytes) : Bytes :=
  match t with
  | [] => []
  | q :: rest =>
    if q = 34 ∨ q = 39 then rest.takeWhile (· != q)
    else (q :: rest).takeWhile fun b => b != 44 && !isspace b

/-- The string a field holds, unless it is empty. -/
def strReading (src key : Bytes) : Option Bytes :=
  ((fieldText src key).map strValue).filter (· != [])

/-- The text mentions a network at all. -/
def MentionsWifi (buf : Bytes) : Prop :=
  ascii "Wifi" <:+: buf ∨ ascii "SSID" <:+: buf ∨ ascii "ssid" <:+: buf

/-- `v` is the SSID that the legacy format reads out of a text. -/
def LegacySsid (buf v : Bytes) : Prop :=
  MentionsWifi buf ∧ ssidKeys.findSome? (strReading buf) = some v

/-- The password that the legacy format reads out of a text, empty if there is none. -/
def legacyPassword (buf : Bytes) : Bytes :=
  (passKeys.findSome? (strReading buf)).getD []

/-- A text goes on with a number. -/
def StartsNumber (t : Bytes) : Prop :=
  ∃ b ∈ t.head?, isdigit b = true ∨ b = 45

/-- The text has a legacy command for the control `c`: a number behind one of its keys. -/
def LegacyCommand (buf : Bytes) (c : Control) : Prop :=
  ∃ t, (fieldText buf (legacyKeys c).1 = some t ∨ fieldText buf (legacyKeys c).2 = some t) ∧
    StartsNumber t

/-- The text has a legacy field: an SSID or a control command. -/
def LegacyField (buf : Bytes) : Prop :=
  (∃ v, LegacySsid buf v) ∨ ∃ c, LegacyCommand buf c

/-- There is only one such SSID. -/
theorem LegacySsid.unique {buf v v' : Bytes} (h : LegacySsid buf v) (h' : LegacySsid buf v') :
    v = v' :=
  Option.some.inj (h.2.symm.trans h'.2)

/-- The keys of the SSID are words. -/
theorem word_of_mem_ssidKeys : ∀ key ∈ ssidKeys, Word key := by
  decide

/-- So are those of the password. -/
theorem word_of_mem_passKeys : ∀ key ∈ passKeys, Word key := by
  decide

/-! ### Looking up a key -/

section Lookup

variable {key a b g : Bytes} {c : UInt8}

/-- A field behind a text without its key, and a byte that is no letter. -/
theorem fieldText_append (h : Word key) (hc : isalpha c = false) (ha : ¬ key <:+: a) :
    fieldText (a ++ c :: b) key = fieldText b key := by
  rw [fieldText, h.strstr_append hc ha, fieldText]

/-- A field behind a gap. -/
theorem fieldText_gap (h : Word key) (hg : Gap g) :
    fieldText (g ++ b) key = fieldText b key := by
  rw [fieldText, h.strstr_gap hg, fieldText]

/-- A field in front. -/
theorem fieldText_key (key b : Bytes) :
    fieldText (key ++ b) key = some (b.dropWhile isFieldSep) := by
  rw [fieldText, strstr_prefix, Option.map_some, List.drop_left]

/-- A key that is not there has no field. -/
theorem fieldText_eq_none (h : ¬ key <:+: b) : fieldText b key = none := by
  rw [fieldText, strstr_eq_none_iff.mpr h]
  rfl

/-- Text in front of a key does not matter, if the key is not in it. -/
theorem strReading_append (h : Word key) (hc : isalpha c = false) (ha : ¬ key <:+: a) :
    strReading (a ++ c :: b) key = strReading b key := by
  rw [strReading, fieldText_append h hc ha, strReading]

/-- A key that is not there reads nothing. -/
theorem strReading_eq_none (h : ¬ key <:+: b) : strReading b key = none := by
  rw [strReading, fieldText_eq_none h]
  rfl

end Lookup

/-! ### String fields -/

variable {src key : Bytes}

/-- The text of a field has no NUL, as the packet has none. -/
theorem zero_notMem_fieldText {t : Bytes} (h0 : 0 ∉ src) (h : fieldText src key = some t) :
    0 ∉ t := by
  obtain ⟨pos, hpos, rfl⟩ := Option.map_eq_some_iff.mp h
  obtain ⟨-, hsuf⟩ := strstr_eq_some hpos
  intro hmem
  exact h0 (hsuf.subset ((List.drop_suffix _ _).subset ((List.dropWhile_suffix _).subset hmem)))

/-- Neither has the value in it. -/
theorem zero_notMem_strValue {t : Bytes} (h0 : 0 ∉ t) : 0 ∉ strValue t := by
  intro hmem
  cases t with
  | nil => exact absurd hmem List.not_mem_nil
  | cons q rest =>
      rw [strValue] at hmem
      split_ifs at hmem
      · exact h0 (List.mem_cons_of_mem q ((List.takeWhile_prefix _).subset hmem))
      · exact h0 ((List.takeWhile_prefix _).subset hmem)

/-- The copy of a value is one copy loop, on the text that the value is the first run of. -/
theorem legacyCopyValue_eq {n : ℕ} (t : Bytes) (out : Vector UInt8 n) :
    ∃ (p : UInt8 → Bool) (s : Bytes), s <:+ t ∧ strValue t = s.takeWhile p ∧
      legacyCopyValue t out = copyLoop p s 0 out := by
  cases t with
  | nil => exact ⟨fun b => b != 44 && !isspace b, [], List.suffix_refl _, rfl, rfl⟩
  | cons q rest =>
      rw [legacyCopyValue, strValue]
      split_ifs
      · exact ⟨_, rest, List.suffix_cons q rest, rfl, rfl⟩
      · exact ⟨_, q :: rest, List.suffix_refl _, rfl, rfl⟩

/-- The value is copied, cut to what fits. -/
theorem legacyCopyValue_spec {n : ℕ} (hn : 0 < n) {t : Bytes} (h0 : 0 ∉ t)
    (out : Vector UInt8 n) :
    cstr (legacyCopyValue t out).1 = (strValue t).take (n - 1) ∧
      (legacyCopyValue t out).2 = ((strValue t).take (n - 1)).length := by
  obtain ⟨p, s, hs, hvalue, hcopy⟩ := legacyCopyValue_eq t out
  rw [hvalue, hcopy]
  exact cstr_copyLoop p (fun h => h0 (hs.subset h)) hn out

variable (key) in
/-- **The string extractor** returns whether there is a reading, and leaves it in the
buffer, cut to what fits. -/
theorem legacyExtractStrField_spec {n : ℕ} (hn : 2 ≤ n) (h0 : 0 ∉ src) (out : Vector UInt8 n) :
    (legacyExtractStrField src key out).2 = (strReading src key).isSome ∧
      ∀ v, strReading src key = some v →
        cstr (legacyExtractStrField src key out).1 = v.take (n - 1) := by
  rw [legacyExtractStrField, strReading]
  cases hpos : strstr src key with
  | none =>
      have hfield : fieldText src key = none := by rw [fieldText, hpos]; rfl
      rw [hfield]
      exact ⟨rfl, by simp⟩
  | some pos =>
      have hfield : fieldText src key = some ((pos.drop key.length).dropWhile isFieldSep) := by
        rw [fieldText, hpos]
        rfl
      have ht0 := zero_notMem_fieldText h0 hfield
      rw [hfield, Option.map_some, Option.filter_some]
      dsimp only
      generalize (pos.drop key.length).dropWhile isFieldSep = t at ht0
      obtain ⟨hcstr, hcount⟩ := legacyCopyValue_spec (by omega : 0 < n) ht0 out
      have hflag : (legacyCopyValue t out).2 > 0 ↔ strValue t ≠ [] := by
        rw [hcount, ← List.length_pos_iff, List.length_take]
        omega
      by_cases hv : strValue t = []
      · rw [if_neg (by simpa using hv), decide_eq_false (hflag.not.mpr (not_not.mpr hv))]
        exact ⟨rfl, by simp⟩
      · rw [if_pos (by simpa using hv), decide_eq_true (hflag.mpr hv)]
        exact ⟨rfl, fun v h => Option.some.inj h ▸ hcstr⟩

/-- Extraction under several keys: the first reading there is. -/
theorem legacyExtractFirst_spec {n : ℕ} (hn : 2 ≤ n) (h0 : 0 ∉ src) (keys : List Bytes)
    (out : Vector UInt8 n) :
    (legacyExtractFirst src keys out).2 = (keys.findSome? (strReading src)).isSome ∧
      ∀ v, keys.findSome? (strReading src) = some v →
        cstr (legacyExtractFirst src keys out).1 = v.take (n - 1) := by
  induction keys generalizing out with
  | nil => exact ⟨rfl, by simp⟩
  | cons key keys ih =>
      obtain ⟨hflag, hcstr⟩ := legacyExtractStrField_spec key hn h0 out
      rw [legacyExtractFirst, List.findSome?_cons, hflag]
      cases hread : strReading src key with
      | none => exact ih _
      | some v =>
          rw [Option.isSome_some, if_pos rfl]
          refine ⟨hflag.trans (congrArg Option.isSome hread), fun w hw => ?_⟩
          obtain rfl := Option.some.inj hw
          exact hcstr v hread

/-- **A quoted value** behind its key and a colon is read up to its closing quote. -/
theorem strReading_quoted (key more : Bytes) {v : Bytes} (hv : 34 ∉ v) :
    strReading (key ++ 58 :: 34 :: (v ++ 34 :: more)) key = if v = [] then none else some v := by
  have hskip : (58 :: 34 :: (v ++ 34 :: more)).dropWhile isFieldSep = 34 :: (v ++ 34 :: more) := by
    rw [List.dropWhile_cons_of_pos (by decide), List.dropWhile_cons_of_neg (by decide)]
  have hvalue : strValue (34 :: (v ++ 34 :: more)) = v := by
    rw [strValue, if_pos (Or.inl rfl), List.takeWhile_append_of_pos,
      List.takeWhile_cons_of_neg (by decide), List.append_nil]
    exact fun b hb => bne_iff_ne.mpr fun h => hv (h ▸ hb)
  rw [strReading, fieldText_key, hskip, Option.map_some, hvalue, Option.filter_some]
  by_cases hnil : v = [] <;> simp [hnil]

/-! ### Credentials -/

/-- The three searches tell whether the text mentions a network. -/
theorem mentionsWifi_iff (buf : Bytes) :
    ((strstr buf (ascii "Wifi")).isSome || (strstr buf (ascii "SSID")).isSome ||
      (strstr buf (ascii "ssid")).isSome) = true ↔ MentionsWifi buf := by
  rw [Bool.or_eq_true, Bool.or_eq_true, isSome_strstr_iff, isSome_strstr_iff, isSome_strstr_iff,
    or_assoc]
  rfl

/-- The Wi-Fi branch applies nothing if the text mentions no network. -/
theorem legacyWifi_of_not_mentions {buf : Bytes} (h : ¬ MentionsWifi buf) :
    legacyWifi buf = none := by
  rw [legacyWifi, if_neg ((mentionsWifi_iff buf).not.mpr h)]

/-- What a key reads has no NUL. -/
theorem zero_notMem_strReading {v : Bytes} (h0 : 0 ∉ src) (h : strReading src key = some v) :
    0 ∉ v := by
  obtain ⟨hmap, -⟩ := Option.filter_eq_some_iff.mp h
  obtain ⟨t, ht, rfl⟩ := Option.map_eq_some_iff.mp hmap
  exact zero_notMem_strValue (zero_notMem_fieldText h0 ht)

/-- Neither has what the first of several keys reads. -/
theorem zero_notMem_findSome {v : Bytes} {keys : List Bytes} (h0 : 0 ∉ src)
    (h : keys.findSome? (strReading src) = some v) : 0 ∉ v := by
  obtain ⟨key, -, hkey⟩ := List.exists_of_findSome?_eq_some h
  exact zero_notMem_strReading h0 hkey

/-- Neither has the password. -/
theorem zero_notMem_legacyPassword {buf : Bytes} (h0 : 0 ∉ buf) : 0 ∉ legacyPassword buf := by
  rw [legacyPassword]
  cases hpass : passKeys.findSome? (strReading buf) with
  | none => exact List.not_mem_nil
  | some w => exact zero_notMem_findSome h0 hpass

/-- An SSID that is read is not empty. -/
theorem LegacySsid.ne_nil {buf v : Bytes} (h : LegacySsid buf v) : v ≠ [] := by
  obtain ⟨key, -, hkey⟩ := List.exists_of_findSome?_eq_some h.2
  simpa using (Option.filter_eq_some_iff.mp hkey).2

/-- **The credential of the Wi-Fi branch**, if there is an SSID to read. -/
theorem legacyWifi_eq_some {buf v : Bytes} (h0 : 0 ∉ buf) (hv : LegacySsid buf v) :
    legacyWifi buf =
      some (mkCred (v.take wifiSsidMaxLen) ((legacyPassword buf).take wifiPassMaxLen)) := by
  obtain ⟨hmentions, hssid⟩ := hv
  obtain ⟨hsflag, hscstr⟩ := legacyExtractFirst_spec (n := wifiSsidMaxLen + 1) (by decide) h0
    ssidKeys (Vector.replicate _ 0)
  obtain ⟨hpflag, hpcstr⟩ := legacyExtractFirst_spec (n := wifiPassMaxLen + 1) (by decide) h0
    passKeys (Vector.replicate _ 0)
  rw [hssid] at hsflag
  have hfound : ∃ cred, legacyWifi buf = some cred := by
    rw [legacyWifi, if_pos ((mentionsWifi_iff buf).mpr hmentions)]
    dsimp only
    rw [hsflag, Option.isSome_some, if_pos rfl]
    split_ifs <;> exact ⟨_, rfl⟩
  obtain ⟨cred, hcred⟩ := hfound
  rw [hcred, legacyWifi_eq_mkCred hcred, hscstr v hssid, hpflag, List.take_take, Nat.add_sub_cancel,
    min_self, legacyPassword]
  cases hpass : passKeys.findSome? (strReading buf) with
  | none => rfl
  | some w =>
      rw [Option.isSome_some, if_pos rfl, hpcstr w hpass, List.take_take, Nat.add_sub_cancel,
        min_self]
      rfl

/-- The Wi-Fi branch applies nothing if there is no SSID to read. -/
theorem legacyWifi_eq_none {buf : Bytes} (h0 : 0 ∉ buf) (hv : ∀ v, ¬ LegacySsid buf v) :
    legacyWifi buf = none := by
  rw [legacyWifi]
  split_ifs with hmentions
  · rw [mentionsWifi_iff] at hmentions
    obtain ⟨hflag, -⟩ := legacyExtractFirst_spec (n := wifiSsidMaxLen + 1) (by decide) h0
      ssidKeys (Vector.replicate _ 0)
    have hnone : ssidKeys.findSome? (strReading buf) = none := by
      rw [Option.eq_none_iff_forall_ne_some]
      exact fun v h => hv v ⟨hmentions, h⟩
    rw [hnone] at hflag
    exact if_neg (by rw [hflag]; exact Bool.false_ne_true)
  · rfl

/-! ### Control commands -/

/-- The integer extractor succeeds exactly when a number stands behind the key. -/
theorem legacyExtractIntField_eq (src key : Bytes) :
    legacyExtractIntField src key =
      (fieldText src key).bind fun t =>
        match t with
        | [] => none
        | b :: rest => if !isdigit b && b != 45 then none else some (atoi (b :: rest)) := by
  rw [legacyExtractIntField, fieldText]
  cases strstr src key <;> rfl

/-- The empty text does not start with a number. -/
theorem not_startsNumber_nil : ¬ StartsNumber [] := by simp [StartsNumber]

/-- A text starts with a number if its first byte is a digit or a minus sign. -/
theorem startsNumber_cons {b : UInt8} {rest : Bytes} :
    StartsNumber (b :: rest) ↔ isdigit b = true ∨ b = 45 := by
  simp [StartsNumber]

/-- The integer extractor reads the text of its field if that starts with a number. -/
theorem legacyExtractIntField_eq_some_iff {src key : Bytes} {v : ℤ} :
    legacyExtractIntField src key = some v ↔
      ∃ t, fieldText src key = some t ∧ StartsNumber t ∧ atoi t = v := by
  rw [legacyExtractIntField_eq, Option.bind_eq_some_iff]
  refine exists_congr fun t => and_congr_right fun _ => ?_
  cases t with
  | nil => simp [not_startsNumber_nil]
  | cons b rest =>
      rw [startsNumber_cons]
      cases hdigit : isdigit b <;> by_cases hminus : b = 45 <;> simp [hdigit, hminus]

/-- A number is found exactly if the text of the field starts with one. -/
theorem legacyExtractIntField_ne_none_iff (src key : Bytes) :
    legacyExtractIntField src key ≠ none ↔ ∃ t, fieldText src key = some t ∧ StartsNumber t := by
  rw [Option.ne_none_iff_exists']
  constructor
  · rintro ⟨v, hv⟩
    obtain ⟨t, ht, hstart, -⟩ := legacyExtractIntField_eq_some_iff.mp hv
    exact ⟨t, ht, hstart⟩
  · rintro ⟨t, ht, hstart⟩
    exact ⟨atoi t, legacyExtractIntField_eq_some_iff.mpr ⟨t, ht, hstart, rfl⟩⟩

/-- A branch makes its call exactly if the text has a command for the control. -/
theorem legacyControl_eq_nil_iff (buf : Bytes) (c : Control) :
    legacyControl buf c = [] ↔ ¬ LegacyCommand buf c := by
  have hcommand : LegacyCommand buf c ↔ legacyExtractIntField buf (legacyKeys c).1 ≠ none ∨
      legacyExtractIntField buf (legacyKeys c).2 ≠ none := by
    rw [legacyExtractIntField_ne_none_iff, legacyExtractIntField_ne_none_iff]
    constructor
    · rintro ⟨t, ht | ht, hnum⟩
      · exact Or.inl ⟨t, ht, hnum⟩
      · exact Or.inr ⟨t, ht, hnum⟩
    · rintro (⟨t, ht, hnum⟩ | ⟨t, ht, hnum⟩)
      · exact ⟨t, Or.inl ht, hnum⟩
      · exact ⟨t, Or.inr ht, hnum⟩
  rw [hcommand, not_or, not_not, not_not, legacyControl]
  cases legacyExtractIntField buf (legacyKeys c).1 with
  | some v => simp
  | none => cases legacyExtractIntField buf (legacyKeys c).2 <;> simp

/-- **The legacy pass makes no call** exactly when the text has no legacy field. -/
theorem legacyPass_eq_nil_iff {buf : Bytes} (h0 : 0 ∉ buf) :
    (legacyPass buf).1 = [] ↔ ¬ LegacyField buf := by
  by_cases hv : ∃ v, LegacySsid buf v
  · obtain ⟨v, hv⟩ := hv
    rw [legacyPass, legacyWifi_eq_some h0 hv]
    simp only [List.cons_ne_nil, false_iff, not_not]
    exact Or.inl ⟨v, hv⟩
  · rw [legacyPass_of_none (legacyWifi_eq_none h0 (not_exists.mp hv))]
    simp only [List.append_eq_nil_iff, legacyControl_eq_nil_iff]
    rw [LegacyField, not_or, not_exists]
    constructor
    · rintro ⟨⟨⟨hrpm, hangle⟩, hlight⟩, hpower⟩
      refine ⟨not_exists.mp hv, ?_⟩
      rintro ⟨c, hc⟩
      cases c with
      | rpm => exact hrpm hc
      | angle => exact hangle hc
      | light => exact hlight hc
      | power => exact hpower hc
    · rintro ⟨-, hc⟩
      rw [not_exists] at hc
      exact ⟨⟨⟨hc .rpm, hc .angle⟩, hc .light⟩, hc .power⟩

end AirShifter
