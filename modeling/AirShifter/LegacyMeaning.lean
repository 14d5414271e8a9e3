import AirShifter.PacketText
import AirShifter.StringExtractor

/-!
# What the Legacy Format Means

The format that a text without braces is read in has no grammar of its own; it is what the
extractors find. Here its meaning is written down without searching and copying: a field is
the text behind the first occurrence of its key, a value is a longest run of that text, a
key with several spellings has the value of the first spelling that has one, and a text
either provisions a network or commands controls.

## Main results

* `strtol10_iff`: the number that `strtol` converts.
* `tokenToInt_iff`: the number that a JSON token is read as.
* `legacyExtractIntField_iff`: the number that a field is read as.
* `legacyPass_iff`: the calls of a text in the legacy format.
-/

open CBytes

namespace AirShifter

/-! ### The specification -/

/-- A run of digits, the first one being the most significant, stands for a number. -/
def numeral (ds : Bytes) : ℕ :=
  Nat.ofDigits 10 (ds.reverse.map fun d => d.toNat - 48)

/-- `n` is the number that all the digits at the start of a text stand for. -/
def NumeralAt (t : Bytes) (n : ℕ) : Prop :=
  ∃ ds, IsLongestPrefix (fun b => isdigit b = true) t ds ∧ ds ≠ [] ∧ n = numeral ds

/-- `v` is the number at the start of a text, with or without a sign. A `long` has 32 bits,
and a number that does not fit stands for the nearest one that does. -/
inductive NumberAt : Bytes → ℤ → Prop
  | plain {t : Bytes} {n : ℕ} (h : NumeralAt t n) : NumberAt t (min n (2 ^ 31 - 1))
  | plus {t : Bytes} {n : ℕ} (h : NumeralAt t n) : NumberAt (43 :: t) (min n (2 ^ 31 - 1))
  | minus {t : Bytes} {n : ℕ} (h : NumeralAt t n) : NumberAt (45 :: t) (max (-n) (-2 ^ 31))

/-- `t` is the text of a field: what stands behind the first occurrence of the key and all the
colons, equals signs and whitespace that follow. -/
def FieldAt (src key t : Bytes) : Prop :=
  ∃ before behind seps, FirstOccurrence src key before behind ∧
    IsLongestPrefix (fun b => b = 58 ∨ b = 61 ∨ isspace b = true) behind seps ∧
    behind = seps ++ t

/-- `v` is the number of a field: it starts with a digit or a minus sign, and a minus sign
without digits is 0. -/
def FieldInt (src key : Bytes) (v : ℤ) : Prop :=
  ∃ t, FieldAt src key t ∧ StartsNumber t ∧
    (NumberAt t v ∨ (∀ w, ¬ NumberAt t w) ∧ v = 0)

/-- `v` is the string of a field, and not empty. -/
def FieldStr (src key v : Bytes) : Prop :=
  FieldValue src key v ∧ v ≠ []

/-- `v` is the number that a whole value is read as. A value of 32 bytes or more has none. -/
def ValueNumber (text : Bytes) (v : ℤ) : Prop :=
  (0 < text.length ∧ text.length < 32) ∧ ∃ ws t,
    IsLongestPrefix (fun b => isspace b = true) text ws ∧ text = ws ++ t ∧ NumberAt t v

/-- `v` is the value of the first key that has one. -/
def FirstOf {κ β : Type*} (keys : List κ) (value : κ → β → Prop) (v : β) : Prop :=
  ∃ before key after, keys = before ++ key :: after ∧ value key v ∧
    ∀ k ∈ before, ∀ w, ¬ value k w

/-- The names of an SSID. -/
def ssidNames : List Bytes :=
  [ascii "SSID", ascii "ssid", ascii "Wifi", ascii "wifi"]

/-- The names of a password. -/
def passNames : List Bytes :=
  [ascii "PASS", ascii "Pass", ascii "pass", ascii "password"]

/-- The names of a control. -/
def controlNames : Control → List Bytes
  | .rpm => [ascii "Speed", ascii "speed"]
  | .angle => [ascii "Angle", ascii "angle"]
  | .light => [ascii "Light", ascii "light"]
  | .power => [ascii "Power", ascii "power"]

/-- What a text means in the legacy format. If it mentions a network and has an SSID, it
provisions that network, with the empty password if it has none. Otherwise it sets every
control that it has a number for, in the order speed, angle, light, power. -/
inductive LegacyMeans (buf : Bytes) : List BizCall → Prop
  | network {ssid pass : Bytes} (hmentions : MentionsWifi buf)
      (hssid : FirstOf ssidNames (FieldStr buf) ssid)
      (hpass : FirstOf passNames (FieldStr buf) pass ∨
        (∀ w, ¬ FirstOf passNames (FieldStr buf) w) ∧ pass = []) :
      LegacyMeans buf [.applyWifiCredentials
        (mkCred (ssid.take wifiSsidMaxLen) (pass.take wifiPassMaxLen))]
  | controls (number : Control → Option ℤ)
      (hno : ¬ (MentionsWifi buf ∧ ∃ ssid, FirstOf ssidNames (FieldStr buf) ssid))
      (hnumber : ∀ c v, number c = some v ↔
        FirstOf (controlNames c) (FieldInt buf) v) :
      LegacyMeans buf (Control.all.filterMap fun c => (number c).map (.set c))

/-! ### Numbers -/

/-- The value that the conversion adds up is that of the numeral. -/
theorem digitsVal_eq_numeral (ds : Bytes) : digitsVal ds = numeral ds := by
  induction ds using List.reverseRecOn with
  | nil => rfl
  | append_singleton ds d ih =>
      rw [digitsVal] at ih
      rw [digitsVal, List.foldl_append, ih, numeral, numeral, List.reverse_append]
      simp only [List.foldl_cons, List.foldl_nil, List.reverse_singleton, List.singleton_append,
        List.map_cons, Nat.ofDigits_cons]
      omega

/-- The numeral at the start of a text is made of all its digits there. -/
theorem numeralAt_iff (t : Bytes) (n : ℕ) :
    NumeralAt t n ↔ t.takeWhile isdigit ≠ [] ∧ n = digitsVal (t.takeWhile isdigit) := by
  have hrun : ∀ ds, IsLongestPrefix (fun b => isdigit b = true) t ds ↔ ds = t.takeWhile isdigit :=
    fun ds => isLongestPrefix_iff fun b => Iff.rfl
  constructor
  · rintro ⟨ds, hds, hne, rfl⟩
    obtain rfl := (hrun ds).mp hds
    exact ⟨hne, (digitsVal_eq_numeral _).symm⟩
  · rintro ⟨hne, rfl⟩
    exact ⟨_, (hrun _).mpr rfl, hne, digitsVal_eq_numeral _⟩

/-- A numeral starts with a digit. -/
theorem NumeralAt.exists_cons {t : Bytes} {n : ℕ} (h : NumeralAt t n) :
    ∃ d rest, t = d :: rest ∧ isdigit d = true := by
  obtain ⟨hne, -⟩ := (numeralAt_iff t n).mp h
  cases t with
  | nil => exact absurd rfl hne
  | cons d rest =>
      refine ⟨d, rest, rfl, ?_⟩
      rw [← Bool.not_eq_false]
      intro hd
      exact hne (List.takeWhile_cons_of_neg (by rw [hd]; exact Bool.false_ne_true))

/-- A text that starts with no sign has a number if it has a numeral. -/
theorem numberAt_of_unsigned {b : UInt8} {rest : Bytes} (hminus : b ≠ 45) (hplus : b ≠ 43) (v : ℤ) :
    NumberAt (b :: rest) v ↔ ∃ n, NumeralAt (b :: rest) n ∧ v = min (n : ℤ) (2 ^ 31 - 1) := by
  constructor
  · intro h
    cases h with
    | plain h => exact ⟨_, h, rfl⟩
    | plus h => exact absurd rfl hplus
    | minus h => exact absurd rfl hminus
  · rintro ⟨n, h, rfl⟩
    exact .plain h

/-- A text that starts with a sign has the number of the numeral behind it. -/
theorem numberAt_of_signed (rest : Bytes) (v : ℤ) :
    (NumberAt (45 :: rest) v ↔ ∃ n, NumeralAt rest n ∧ v = max (-(n : ℤ)) (-2 ^ 31)) ∧
      (NumberAt (43 :: rest) v ↔ ∃ n, NumeralAt rest n ∧ v = min (n : ℤ) (2 ^ 31 - 1)) := by
  have hnot : ∀ {b n}, NumeralAt (b :: rest) n → b ≠ 45 ∧ b ≠ 43 := by
    intro b n h
    obtain ⟨d, rest', hd, hdigit⟩ := h.exists_cons
    obtain ⟨rfl, -⟩ := List.cons.inj hd
    constructor <;> rintro rfl <;> exact absurd hdigit (by decide)
  constructor
  · constructor
    · intro h
      cases h with
      | plain h => exact absurd rfl (hnot h).1
      | minus h => exact ⟨_, h, rfl⟩
    · rintro ⟨n, h, rfl⟩
      exact .minus h
  · constructor
    · intro h
      cases h with
      | plain h => exact absurd rfl (hnot h).2
      | plus h => exact ⟨_, h, rfl⟩
    · rintro ⟨n, h, rfl⟩
      exact .plus h

/-- The conversion of a run of digits, with the sign in front of it already read. -/
theorem convert_iff (t : Bytes) (neg : Bool) (v : ℤ) :
    (if t.takeWhile isdigit = [] then none
      else some (clampLong (if neg then -digitsVal (t.takeWhile isdigit)
        else digitsVal (t.takeWhile isdigit)))) = some v ↔
      ∃ n, NumeralAt t n ∧
        v = if neg then max (-(n : ℤ)) (-2 ^ 31) else min (n : ℤ) (2 ^ 31 - 1) := by
  have hclamp : ∀ n : ℕ, clampLong (if neg then -(n : ℤ) else n) =
      if neg then max (-(n : ℤ)) (-2 ^ 31) else min (n : ℤ) (2 ^ 31 - 1) := by
    intro n
    rw [clampLong]
    cases neg <;> simp only [Bool.false_eq_true, if_true, if_false] <;> omega
  rw [hclamp]
  by_cases hnil : t.takeWhile isdigit = []
  · rw [if_pos hnil]
    refine iff_of_false (by simp) ?_
    rintro ⟨n, hn, -⟩
    exact ((numeralAt_iff t n).mp hn).1 hnil
  · rw [if_neg hnil]
    constructor
    · intro h
      exact ⟨_, (numeralAt_iff t _).mpr ⟨hnil, rfl⟩, (Option.some.inj h).symm⟩
    · rintro ⟨n, hn, rfl⟩
      rw [((numeralAt_iff t n).mp hn).2]

/-- The conversion of a text that does not start with whitespace. -/
theorem strtol10_iff_numberAt {t : Bytes} (ht : ∀ b ∈ t.head?, isspace b = false) (v : ℤ) :
    strtol10 t = some v ↔ NumberAt t v := by
  cases t with
  | nil =>
      refine iff_of_false (by simp [strtol10]) fun h => ?_
      cases h with
      | plain h =>
          obtain ⟨d, rest, hd, -⟩ := h.exists_cons
          exact absurd hd (by simp)
  | cons b rest =>
      have hskip : (b :: rest).dropWhile isspace = b :: rest :=
        List.dropWhile_cons_of_neg (by rw [ht b rfl]; exact Bool.false_ne_true)
      rw [strtol10, hskip, List.head?_cons]
      by_cases hminus : b = 45
      · subst hminus
        rw [(numberAt_of_signed rest v).1]
        exact convert_iff rest true v
      · by_cases hplus : b = 43
        · subst hplus
          rw [(numberAt_of_signed rest v).2]
          exact convert_iff rest false v
        · have hsign : ¬ (some b = some 45 ∨ some b = some 43) := by simp [hminus, hplus]
          have hneg : (some b == some 45) = false := by simpa using hminus
          rw [numberAt_of_unsigned hminus hplus v, if_neg hsign, hneg]
          exact convert_iff (b :: rest) false v

/-- **The number that `strtol` converts** is the one behind all the whitespace. -/
theorem strtol10_iff (s : Bytes) (v : ℤ) : strtol10 s = some v ↔
    ∃ ws t, IsLongestPrefix (fun b => isspace b = true) s ws ∧ s = ws ++ t ∧ NumberAt t v := by
  have hrun : ∀ ws, IsLongestPrefix (fun b => isspace b = true) s ws ↔ ws = s.takeWhile isspace :=
    fun ws => isLongestPrefix_iff fun b => Iff.rfl
  have hhead : ∀ b ∈ (s.dropWhile isspace).head?, isspace b = false := by
    intro b hb
    have hnot := List.head?_dropWhile_not isspace s
    rw [hb] at hnot
    exact hnot
  rw [← strtol10_dropWhile, strtol10_iff_numberAt hhead]
  constructor
  · intro h
    exact ⟨_, _, (hrun _).mpr rfl, List.takeWhile_append_dropWhile.symm, h⟩
  · rintro ⟨ws, t, hws, hs, h⟩
    have hparts := List.takeWhile_append_dropWhile (p := isspace) (l := s)
    rw [← (hrun ws).mp hws] at hparts
    rwa [List.append_cancel_left (hparts.trans hs)]

/-- **The number that a JSON token is read as** is that of its text. -/
theorem tokenToInt_iff (tok : Lexeme) (v : ℤ) :
    tokenToInt tok = some v ↔ ValueNumber tok.text v := by
  rw [ValueNumber, ← strtol10_iff, tokenToInt]
  dsimp only
  split_ifs with hlen hblank
  · refine iff_of_false (by simp) ?_
    rintro ⟨⟨hpos, hlt⟩, -⟩
    omega
  · refine iff_of_false (by simp) ?_
    rintro ⟨-, h⟩
    rw [← strtol10_dropWhile, hblank] at h
    exact absurd h (by simp [strtol10])
  · rw [strtol10_dropWhile]
    exact (and_iff_right (by omega)).symm

/-! ### Fields -/

variable {src key : Bytes}

/-- The text of a field is what the extractors stop at. -/
theorem fieldAt_iff (t : Bytes) : FieldAt src key t ↔ fieldText src key = some t := by
  have hseps : ∀ behind seps : Bytes,
      IsLongestPrefix (fun b => b = 58 ∨ b = 61 ∨ isspace b = true) behind seps ↔
        seps = behind.takeWhile isFieldSep := by
    refine fun behind seps => isLongestPrefix_iff fun b => ?_
    rw [isFieldSep, Bool.or_eq_true, Bool.or_eq_true, beq_iff_eq, beq_iff_eq, or_assoc]
  rw [fieldText]
  constructor
  · rintro ⟨before, behind, seps, hfirst, hlongest, hsplit⟩
    have hparts := List.takeWhile_append_dropWhile (p := isFieldSep) (l := behind)
    rw [← (hseps behind seps).mp hlongest] at hparts
    rw [hfirst.strstr_eq, Option.map_some, List.drop_left,
      List.append_cancel_left (hparts.trans hsplit)]
  · intro h
    obtain ⟨pos, hpos, rfl⟩ := Option.map_eq_some_iff.mp h
    obtain ⟨before, behind, rfl, hfirst⟩ := firstOccurrence_of_strstr hpos
    refine ⟨before, behind, _, hfirst, (hseps _ _).mpr rfl, ?_⟩
    rw [List.drop_left]
    exact List.takeWhile_append_dropWhile.symm

/-- What a text that starts with a number is read as. -/
theorem atoi_iff {t : Bytes} (ht : StartsNumber t) (v : ℤ) :
    atoi t = v ↔ NumberAt t v ∨ (∀ w, ¬ NumberAt t w) ∧ v = 0 := by
  have hhead : ∀ b ∈ t.head?, isspace b = false := by
    obtain ⟨b, hb, hstart⟩ := ht
    intro b' hb'
    obtain rfl := Option.some.inj (hb.symm.trans hb')
    rcases hstart with hdigit | rfl
    · exact isspace_of_isdigit hdigit
    · rfl
  have hnumber := strtol10_iff_numberAt hhead
  rw [atoi]
  cases hread : strtol10 t with
  | some w =>
      have hw := (hnumber w).mp hread
      rw [Option.getD_some]
      constructor
      · rintro rfl
        exact Or.inl hw
      · rintro (hv | ⟨hno, -⟩)
        · exact Option.some.inj (hread.symm.trans ((hnumber v).mpr hv))
        · exact absurd hw (hno w)
  | none =>
      have hno : ∀ w, ¬ NumberAt t w := fun w hw => by
        rw [(hnumber w).mpr hw] at hread
        exact absurd hread (by simp)
      rw [Option.getD_none, or_iff_right (hno v), and_iff_right hno]
      exact eq_comm

/-- **The number that a field is read as.** -/
theorem legacyExtractIntField_iff (v : ℤ) :
    legacyExtractIntField src key = some v ↔ FieldInt src key v := by
  rw [legacyExtractIntField_eq_some_iff, FieldInt]
  refine exists_congr fun t => ?_
  rw [fieldAt_iff]
  exact and_congr_right fun _ => and_congr_right fun ht => atoi_iff ht v

/-- The string of a field is what its key reads. -/
theorem strReading_iff (v : Bytes) : strReading src key = some v ↔ FieldStr src key v := by
  rw [strReading, Option.filter_eq_some_iff, FieldStr, fieldValue_iff, bne_iff_ne]

/-- The first value is the one that a search finds. -/
theorem firstOf_iff {κ β : Type*} {keys : List κ} {value : κ → β → Prop} {f : κ → Option β}
    (h : ∀ k v, f k = some v ↔ value k v) (v : β) :
    FirstOf keys value v ↔ keys.findSome? f = some v := by
  have hnone : ∀ k, f k = none ↔ ∀ w, ¬ value k w := by
    intro k
    rw [Option.eq_none_iff_forall_ne_some]
    exact forall_congr' fun w => (h k w).not
  simp only [List.findSome?_eq_some_iff, FirstOf, h, hnone]

/-! ### Packets -/

variable {buf : Bytes}

/-- The names are the keys that the parser looks for. -/
theorem ssidNames_eq : ssidNames = ssidKeys := rfl

theorem passNames_eq : passNames = passKeys := rfl

theorem controlNames_eq (c : Control) :
    controlNames c = [(legacyKeys c).1, (legacyKeys c).2] := by
  cases c <;> rfl

/-- The first name with a string is the one that a search finds. -/
theorem firstOf_fieldStr (keys : List Bytes) (v : Bytes) :
    FirstOf keys (FieldStr buf) v ↔ keys.findSome? (strReading buf) = some v :=
  firstOf_iff (fun _ w => strReading_iff w) v

/-- There is an SSID to read. -/
theorem exists_legacySsid_iff : (MentionsWifi buf ∧ ∃ ssid, FirstOf ssidNames (FieldStr buf) ssid) ↔
    ∃ v, LegacySsid buf v := by
  simp only [LegacySsid, firstOf_fieldStr, ssidNames_eq, exists_and_left]

/-- The password of a text, empty if there is none. -/
theorem legacyPassword_iff (pass : Bytes) :
    (FirstOf passNames (FieldStr buf) pass ∨
      (∀ w, ¬ FirstOf passNames (FieldStr buf) w) ∧ pass = []) ↔ legacyPassword buf = pass := by
  simp only [firstOf_fieldStr]
  rw [legacyPassword, passNames_eq]
  cases passKeys.findSome? (strReading buf) with
  | none => simp [eq_comm]
  | some w => simp

/-- The number that a text has for a control. -/
theorem firstOf_fieldInt (c : Control) (v : ℤ) :
    FirstOf (controlNames c) (FieldInt buf) v ↔
      (legacyExtractIntField buf (legacyKeys c).1).or
        (legacyExtractIntField buf (legacyKeys c).2) = some v := by
  rw [controlNames_eq,
    firstOf_iff (f := legacyExtractIntField buf) fun _ w => legacyExtractIntField_iff w]
  cases h : legacyExtractIntField buf (legacyKeys c).1 <;> simp [h]

/-- The calls of the legacy controls are the numbers that the text has for them. -/
theorem controlCalls_of_number {number : Control → Option ℤ}
    (h : ∀ c v, number c = some v ↔
      FirstOf (controlNames c) (FieldInt buf) v) :
    Control.all.filterMap (fun c => (number c).map (.set c)) =
      legacyControl buf .rpm ++ legacyControl buf .angle ++
        legacyControl buf .light ++ legacyControl buf .power := by
  have hone : ∀ c, ((number c).map (.set c)).toList = legacyControl buf c := by
    intro c
    have hread : number c = (legacyExtractIntField buf (legacyKeys c).1).or
        (legacyExtractIntField buf (legacyKeys c).2) :=
      Option.ext fun v => (h c v).trans (firstOf_fieldInt c v)
    rw [legacyControl, ← hread]
    cases number c <;> rfl
  have hcons : ∀ (f : Control → Option BizCall) (c : Control) (l : List Control),
      (c :: l).filterMap f = (f c).toList ++ l.filterMap f := by
    intro f c l
    cases hc : f c <;> simp [hc]
  rw [Control.all, hcons, hcons, hcons, hcons, List.filterMap_nil, List.append_nil, hone, hone,
    hone, hone]
  simp only [List.append_assoc]

/-- **The legacy pass** makes the calls that a text means. -/
theorem legacyPass_iff (h0 : 0 ∉ buf) (calls : List BizCall) :
    (legacyPass buf).1 = calls ↔ LegacyMeans buf calls := by
  constructor
  · rintro rfl
    by_cases hssid : ∃ v, LegacySsid buf v
    · obtain ⟨v, hv⟩ := hssid
      rw [legacyPass, legacyWifi_eq_some h0 hv]
      exact .network hv.1 ((firstOf_fieldStr _ _).mpr hv.2) ((legacyPassword_iff _).mpr rfl)
    · rw [legacyPass_of_none (legacyWifi_eq_none h0 (not_exists.mp hssid)),
        ← controlCalls_of_number fun c v => (firstOf_fieldInt c v).symm]
      exact .controls _ (exists_legacySsid_iff.not.mpr hssid) fun c v => (firstOf_fieldInt c v).symm
  · intro h
    cases h with
    | network hmentions hssid hpass =>
        rw [legacyPass, legacyWifi_eq_some h0 ⟨hmentions, (firstOf_fieldStr _ _).mp hssid⟩,
          (legacyPassword_iff _).mp hpass]
    | controls number hno hnumber =>
        rw [legacyPass_of_none
          (legacyWifi_eq_none h0 (not_exists.mp (exists_legacySsid_iff.not.mp hno)))]
        exact (controlCalls_of_number hnumber).symm

end AirShifter
