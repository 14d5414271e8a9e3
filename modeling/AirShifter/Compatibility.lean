import AirShifter.OldParser
import AirShifter.PacketMeaning

/-!
# Compatibility with the Old Parser

`parser.c` means to make the setter calls that its predecessor made. Where it reads a packet
as JSON, it takes the numbers of the fields; where it does not, those behind the names, with
fewer separators than the old parser allowed. The two agree on a packet exactly when these are
the numbers that the old parser found, and that is a matter of the text.

## Main results

* `setterCalls_perm_iff`: the same setter calls are the same values for each control.
* `looseNumber_iff`, `strictNumber_iff`: the numbers that both parsers read behind the names.
* `compatible_iff`: exactly when the new parser makes the setter calls of the old one.
-/

open CBytes

namespace AirShifter

/-! ### The specification -/

/-- The control setter calls among the calls. -/
def setterCalls (calls : List BizCall) : List BizCall :=
  calls.filter fun call => !call.isApply

/-- A packet that the old parser accepted as control commands. -/
structure OldCommands (buf : Bytes) : Prop where
  noNul : 0 ∉ buf
  length : 1 ≤ buf.length ∧ buf.length ≤ 128
  handled : (oldParserHandlePacket buf).2 = true
  set : setterCalls (oldParserHandlePacket buf).1 ≠ []

/-- The new parser accepts the packet too, and makes the same setter calls. -/
def Compatible (buf : Bytes) : Prop :=
  (parserHandlePacket buf).handled = true ∧
    (setterCalls (parserHandlePacket buf).calls).Perm (setterCalls (oldParserHandlePacket buf).1)

/-- `v` is the number behind the first occurrence of a key, with the gap between them: colons,
equals signs, whitespace, quotes, braces and commas. A minus sign without digits is 0. -/
def NumberBehind (src key gap : Bytes) (v : ℤ) : Prop :=
  ∃ before behind t, FirstOccurrence src key before behind ∧
    IsLongestPrefix (fun b => b = 58 ∨ b = 61 ∨ isspace b = true ∨ b = 34 ∨ b = 39 ∨ b = 123 ∨
      b = 125 ∨ b = 44) behind gap ∧
    behind = gap ++ t ∧ StartsNumber t ∧ (NumberAt t v ∨ (∀ w, ¬ NumberAt t w) ∧ v = 0)

/-- `p` is the part of a packet that the old parser read: what stands behind the first `},{`,
or everything if there is none. -/
def OldText (buf p : Bytes) : Prop :=
  (∃ before, FirstOccurrence buf (ascii "\x7d,\x7b") before p) ∨
    ¬ ascii "\x7d,\x7b" <:+: buf ∧ p = buf

/-- `v` is the number of a control to the old parser: behind the first of its names that has
one, whatever the gap is. -/
def OldNumber (buf : Bytes) (c : Control) (v : ℤ) : Prop :=
  ∃ p, OldText buf p ∧ FirstOf (controlNames c) (fun key v => ∃ gap, NumberBehind p key gap v) v

/-- `v` is the number of a control in the legacy format: behind the first of its names that has
one in the whole packet, with no quote, brace or comma in the gap. -/
def PlainNumber (buf : Bytes) (c : Control) (v : ℤ) : Prop :=
  FirstOf (controlNames c) (fun key v => ∃ gap, NumberBehind buf key gap v ∧
    ∀ b ∈ gap, b = 58 ∨ b = 61 ∨ isspace b = true) v

/-- The numbers that fields have for a control, in order. -/
inductive FieldNumbers (fs : List Field) (c : Control) : List ℤ → Prop
  | intro (number : Bytes → Option ℤ)
      (hnumber : ∀ text v, number text = some v ↔ ValueNumber text v) :
      FieldNumbers fs c (fs.filterMap fun f =>
        if f.1 = .control c then number f.2.text else none)

/-- **The numbers agree.** The packet is read as JSON, and the fields have one number for each
control that had one to the old parser, the same one, and none for the others; or no field of it
asks for anything, it has no SSID in the legacy format, and the numbers behind the names are
those of the old parser although only some gaps count, and those in the whole packet. -/
inductive NumbersAgree (buf : Bytes) : Prop
  | json {lexs : List Lexeme} (hread : JsonReading buf lexs)
      (h : ∀ c, (∃ v, OldNumber buf c v ∧ FieldNumbers (fieldsOf lexs) c [v]) ∨
        (∀ v, ¬ OldNumber buf c v) ∧ FieldNumbers (fieldsOf lexs) c []) : NumbersAgree buf
  | legacy (hno : ∀ lexs, JsonReading buf lexs → FieldsMean (fieldsOf lexs) [])
      (hssid : ¬ (MentionsWifi buf ∧ ∃ ssid, FirstOf ssidNames (FieldStr buf) ssid))
      (h : ∀ c v, PlainNumber buf c v ↔ OldNumber buf c v) : NumbersAgree buf

/-! ### Setter calls, control by control -/

/-- The values that the calls set a control to, in order. -/
def setValues (c : Control) (calls : List BizCall) : List ℤ :=
  calls.filterMap fun
    | .set d v => if d = c then some v else none
    | .applyWifiCredentials _ => none

/-- The values of two lists of calls. -/
theorem setValues_append (c : Control) (xs ys : List BizCall) :
    setValues c (xs ++ ys) = setValues c xs ++ setValues c ys :=
  List.filterMap_append

/-- A value is set as often as there are calls for it. -/
theorem count_setValues (c : Control) (v : ℤ) (calls : List BizCall) :
    (setValues c calls).count v = calls.count (.set c v) := by
  induction calls with
  | nil => rfl
  | cons call calls ih =>
      rw [setValues, List.filterMap_cons, ← setValues, List.count_cons, ← ih]
      cases call with
      | set d w =>
          by_cases hd : d = c
          · subst hd
            simp [List.count_cons]
          · simp [hd]
      | applyWifiCredentials cred => simp

/-- **The same setter calls** are the same values for each control. -/
theorem setterCalls_perm_iff (xs ys : List BizCall) :
    (setterCalls xs).Perm (setterCalls ys) ↔ ∀ c, (setValues c xs).Perm (setValues c ys) := by
  have hset : ∀ (zs : List BizCall) c v,
      (setterCalls zs).count (.set c v) = (setValues c zs).count v := by
    intro zs c v
    rw [setterCalls, List.count_filter rfl, count_setValues]
  simp only [List.perm_iff_count]
  constructor
  · intro h c v
    rw [← hset, ← hset, h]
  · intro h call
    cases call with
    | set c v => rw [hset, hset, h]
    | applyWifiCredentials cred =>
        have hnone : ∀ zs, (setterCalls zs).count (.applyWifiCredentials cred) = 0 :=
          fun zs => List.count_eq_zero.mpr fun hmem => by
            simpa [BizCall.isApply] using (List.mem_filter.mp hmem).2
        rw [hnone, hnone]

/-- The branches set each control to its number. -/
theorem setValues_controlBranches (number : Control → Option ℤ) (c : Control) :
    setValues c (controlBranches number).1 = (number c).toList := by
  have hone : ∀ d, setValues c ((number d).map (BizCall.set d)).toList =
      if d = c then (number c).toList else [] := by
    intro d
    by_cases hd : d = c
    · subst hd
      cases number d <;> simp [setValues]
    · cases number d <;> simp [setValues, hd]
  rw [controlBranches_fst, setValues_append, setValues_append, setValues_append, hone, hone, hone,
    hone]
  cases c <;> simp

/-! ### Numbers behind names -/

variable {buf src key : Bytes}

/-- The text behind a key is what stands behind its first occurrence. -/
theorem behindKey_iff (behind : Bytes) :
    behindKey src key = some behind ↔ ∃ before, FirstOccurrence src key before behind := by
  rw [behindKey]
  constructor
  · intro h
    obtain ⟨pos, hpos, rfl⟩ := Option.map_eq_some_iff.mp h
    obtain ⟨before, behind, rfl, hfirst⟩ := firstOccurrence_of_strstr hpos
    exact ⟨before, by rwa [List.drop_left]⟩
  · rintro ⟨before, hfirst⟩
    rw [hfirst.strstr_eq, Option.map_some, List.drop_left]

/-- What the integer extractors make of the text at which they stop. -/
theorem numberAt_iff (t : Bytes) (v : ℤ) : numberAt t = some v ↔
    StartsNumber t ∧ (NumberAt t v ∨ (∀ w, ¬ NumberAt t w) ∧ v = 0) := by
  rw [← and_congr_right fun ht => atoi_iff ht v]
  cases t with
  | nil => simp [not_startsNumber_nil, numberAt]
  | cons b rest =>
      rw [startsNumber_cons, numberAt, Option.ite_none_right_eq_some, Bool.or_eq_true,
        beq_iff_eq, Option.some_inj]

/-- The gap of a number is what the old parser skips. -/
theorem numberBehind_iff_takeWhile (gap : Bytes) (v : ℤ) : NumberBehind src key gap v ↔
    ∃ behind, behindKey src key = some behind ∧ gap = behind.takeWhile isSkipped ∧
      numberAt (behind.dropWhile isSkipped) = some v := by
  have hgap : ∀ behind, IsLongestPrefix (fun b => b = 58 ∨ b = 61 ∨ isspace b = true ∨ b = 34 ∨
      b = 39 ∨ b = 123 ∨ b = 125 ∨ b = 44) behind gap ↔ gap = behind.takeWhile isSkipped := by
    refine fun behind => isLongestPrefix_iff fun b => ?_
    simp only [isSkipped, Bool.or_eq_true, beq_iff_eq, or_assoc]
  constructor
  · rintro ⟨before, behind, t, hfirst, hlongest, hsplit, hnumber⟩
    obtain rfl := (hgap behind).mp hlongest
    refine ⟨behind, (behindKey_iff behind).mpr ⟨before, hfirst⟩, rfl, ?_⟩
    have hparts := List.takeWhile_append_dropWhile (p := isSkipped) (l := behind)
    rw [List.append_cancel_left (hparts.trans hsplit)]
    exact (numberAt_iff t v).mpr hnumber
  · rintro ⟨behind, hbehind, rfl, hnumber⟩
    obtain ⟨before, hfirst⟩ := (behindKey_iff behind).mp hbehind
    exact ⟨before, behind, _, hfirst, (hgap behind).mpr rfl,
      List.takeWhile_append_dropWhile.symm, (numberAt_iff _ v).mp hnumber⟩

/-- The loose search finds the numbers behind a key. -/
theorem numberBehind_isSkipped_iff (v : ℤ) :
    numberBehind isSkipped src key = some v ↔ ∃ gap, NumberBehind src key gap v := by
  simp only [numberBehind_iff_takeWhile]
  rw [numberBehind, Option.bind_eq_some_iff]
  constructor
  · rintro ⟨behind, hbehind, hnumber⟩
    exact ⟨_, behind, hbehind, rfl, hnumber⟩
  · rintro ⟨gap, behind, hbehind, -, hnumber⟩
    exact ⟨behind, hbehind, hnumber⟩

/-- The strict search finds those with a plain gap. -/
theorem numberBehind_plain_iff (v : ℤ) : numberBehind isFieldSep src key = some v ↔
    ∃ gap, NumberBehind src key gap v ∧ ∀ b ∈ gap, b = 58 ∨ b = 61 ∨ isspace b = true := by
  have hplain : ∀ b, isFieldSep b = true ↔ b = 58 ∨ b = 61 ∨ isspace b = true := by
    intro b
    rw [isFieldSep, Bool.or_eq_true, Bool.or_eq_true, beq_iff_eq, beq_iff_eq, or_assoc]
  simp only [numberBehind_iff_takeWhile, numberBehind_isFieldSep_iff, hplain]
  constructor
  · rintro ⟨behind, hbehind, hnumber, hgap⟩
    exact ⟨_, ⟨behind, hbehind, rfl, hnumber⟩, hgap⟩
  · rintro ⟨gap, ⟨behind, hbehind, rfl, hnumber⟩, hgap⟩
    exact ⟨behind, hbehind, hnumber, hgap⟩

/-- The first of the two names that has a number decides. -/
theorem controlNumber_iff {sep : UInt8 → Bool} {value : Bytes → ℤ → Prop}
    (h : ∀ key v, numberBehind sep src key = some v ↔ value key v) (c : Control) (v : ℤ) :
    controlNumber sep src c = some v ↔ FirstOf (controlNames c) value v := by
  rw [firstOf_iff h, controlNames_eq, controlNumber]
  cases hcapital : numberBehind sep src (legacyKeys c).1 <;> simp [hcapital]

/-- The part that the old parser reads. -/
theorem oldText_iff (p : Bytes) : OldText buf p ↔ p = payload buf := by
  have hlen : (ascii "\x7d,\x7b").length = 3 := by decide
  have hpayload : payload buf = (behindKey buf (ascii "\x7d,\x7b")).getD buf := by
    rw [payload, behindKey, hlen]
    cases strstr buf (ascii "\x7d,\x7b") <;> rfl
  rw [OldText, ← behindKey_iff, hpayload, ← strstr_eq_none_iff]
  have hnone : strstr buf (ascii "\x7d,\x7b") = none ↔ behindKey buf (ascii "\x7d,\x7b") = none :=
    Option.map_eq_none_iff.symm
  rw [hnone]
  cases behindKey buf (ascii "\x7d,\x7b") with
  | none => simp
  | some t => simp [eq_comm]

/-- The number that the old parser reads for a control: behind its key, with colons, equal
signs, whitespace, quotes, braces and commas in between. -/
def looseNumber (buf : Bytes) (c : Control) : Option ℤ :=
  controlNumber isSkipped (payload buf) c

/-- The number that the legacy pass reads for a control: behind its key, with colons, equal
signs and whitespace in between. -/
def strictNumber (buf : Bytes) (c : Control) : Option ℤ :=
  controlNumber isFieldSep buf c

/-- **The number of the old parser** is the one in the text. -/
theorem looseNumber_iff (c : Control) (v : ℤ) : looseNumber buf c = some v ↔ OldNumber buf c v := by
  rw [looseNumber, controlNumber_iff fun _ w => numberBehind_isSkipped_iff w, OldNumber]
  simp only [oldText_iff, exists_eq_left]

/-- **The number of the legacy pass** is the one in the text, with a plain gap. -/
theorem strictNumber_iff (c : Control) (v : ℤ) :
    strictNumber buf c = some v ↔ PlainNumber buf c v :=
  controlNumber_iff (fun _ w => numberBehind_plain_iff w) c v

/-! ### Numbers of fields -/

/-- The numbers of fields are the values that their calls set. -/
theorem fieldNumbers_iff (fs : List Field) (c : Control) (vs : List ℤ) :
    FieldNumbers fs c vs ↔ vs = setValues c (fieldCalls fs) := by
  have hvalues : ∀ {number : Bytes → Option ℤ},
      (∀ text v, number text = some v ↔ ValueNumber text v) →
        (fs.filterMap fun f => if f.1 = .control c then number f.2.text else none) =
          setValues c (fieldCalls fs) := by
    intro number hnumber
    have hcalls := (fieldsMean_iff fs _).mp (.intro number hnumber)
    rw [← hcalls, callsOf, setValues_append]
    have hnetwork : setValues c (if HasText .ssid fs then
        [.applyWifiCredentials (mkCred ((lastText .ssid fs).take wifiSsidMaxLen)
          ((lastText .pass fs).take wifiPassMaxLen))] else []) = [] := by
      split_ifs <;> rfl
    rw [hnetwork, List.append_nil, setValues, List.filterMap_filterMap]
    refine List.filterMap_congr fun f _ => ?_
    cases f.1 with
    | control d =>
        by_cases hd : d = c
        · subst hd
          cases number f.2.text <;> simp
        · cases number f.2.text <;> simp [hd]
    | ssid | pass | device | time => simp
  constructor
  · rintro ⟨number, hnumber⟩
    exact hvalues hnumber
  · rintro rfl
    obtain ⟨number, hnumber⟩ := exists_number
    rw [← hvalues hnumber]
    exact .intro number hnumber

/-- One number or none for a control. -/
theorem fieldNumbers_toList_iff (fs : List Field) (c : Control) (o : Option ℤ) :
    setValues c (fieldCalls fs) = o.toList ↔
      (∃ v, o = some v ∧ FieldNumbers fs c [v]) ∨ o = none ∧ FieldNumbers fs c [] := by
  simp only [fieldNumbers_iff]
  cases o with
  | none => simp [eq_comm]
  | some v => simp [eq_comm]

/-! ### When the new parser makes the calls of the old one -/

/-- A list of at most one element has no other order. -/
theorem perm_toList_iff {α : Type*} {l : List α} {o : Option α} :
    l.Perm o.toList ↔ l = o.toList := by
  cases o with
  | none => exact List.perm_nil
  | some a => exact List.perm_singleton

theorem toList_eq_iff {α : Type*} {o o' : Option α} : o.toList = o'.toList ↔ o = o' := by
  cases o' with
  | none => exact Option.toList_eq_nil_iff
  | some a => exact Option.toList_eq_singleton_iff

/-- The calls of the old parser, if it read the packet as commands. -/
theorem OldCommands.calls_eq (h : OldCommands buf) :
    (oldParserHandlePacket buf).1 = (controlBranches (looseNumber buf)).1 := by
  have hlen : buf.length < 256 := by
    have := h.length
    omega
  have hnumber : oldNumber (normalizePacket buf 256) = looseNumber buf :=
    funext fun c => oldNumber_normalizePacket buf hlen c
  have hset := h.set
  rw [oldParserHandlePacket] at hset ⊢
  split_ifs at hset ⊢ with hwifi
  · -- the Wi-Fi branch calls no setter
    cases hcred : oldWifi (normalizePacket buf 256) with
    | none =>
        rw [hcred] at hset
        exact absurd rfl hset
    | some cred =>
        rw [hcred] at hset
        exact absurd rfl hset
  · rw [hnumber]

/-- The setter calls of the old parser are those of a list with the loose numbers. -/
theorem OldCommands.perm_iff (h : OldCommands buf) (calls : List BizCall) :
    (setterCalls calls).Perm (setterCalls (oldParserHandlePacket buf).1) ↔
      ∀ c, setValues c calls = (looseNumber buf c).toList := by
  rw [setterCalls_perm_iff, h.calls_eq]
  simp only [setValues_controlBranches, perm_toList_iff]

/-- The old parser read a number. -/
theorem OldCommands.exists_number (h : OldCommands buf) :
    ¬ ∀ c, (looseNumber buf c).toList = [] := by
  intro hnone
  refine h.set ?_
  have hperm := (h.perm_iff []).mpr fun c => (hnone c).symm
  exact List.nil_perm.mp hperm

/-- The new parser is compatible exactly if it sets each control to its loose number. -/
theorem OldCommands.compatible_iff_values (h : OldCommands buf) :
    Compatible buf ↔
      ∀ c, setValues c (parserHandlePacket buf).calls = (looseNumber buf c).toList := by
  refine (and_iff_right_of_imp fun hperm => ?_).trans (h.perm_iff _)
  refine (packet_once buf).1.mpr fun hnil => h.set ?_
  rw [hnil] at hperm
  exact List.nil_perm.mp hperm

/-- A packet with calls as JSON sets the numbers of its fields. -/
theorem setValues_of_reading (h0 : 0 ∉ buf) {lexs : List Lexeme} (hread : JsonReading buf lexs)
    (hjson : (jsonPass buf).1 ≠ []) (c : Control) :
    setValues c (parserHandlePacket buf).calls = setValues c (fieldCalls (fieldsOf lexs)) := by
  rw [parserHandlePacket_of_ne_nil hjson, PacketResult.calls, List.append_nil,
    jsonPass_of_reading h0 hread]

/-- A packet without calls as JSON sets the strict numbers, if no SSID is read from it. -/
theorem setValues_of_nil (h0 : 0 ∉ buf) (hjson : (jsonPass buf).1 = [])
    (hv : ∀ v, ¬ LegacySsid buf v) (c : Control) :
    setValues c (parserHandlePacket buf).calls = (strictNumber buf c).toList := by
  have hnumber : legacyNumber buf = strictNumber buf := funext fun c => legacyNumber_eq buf c
  rw [parserHandlePacket_of_nil hjson, PacketResult.calls, List.nil_append, legacyPass,
    legacyWifi_eq_none h0 hv, hnumber, setValues_controlBranches]

/-- A packet without calls as JSON, with an SSID to read, sets nothing. -/
theorem setValues_of_ssid {v : Bytes} (h0 : 0 ∉ buf) (hjson : (jsonPass buf).1 = [])
    (hv : LegacySsid buf v) (c : Control) : setValues c (parserHandlePacket buf).calls = [] := by
  rw [parserHandlePacket_of_nil hjson, PacketResult.calls, List.nil_append, legacyPass,
    legacyWifi_eq_some h0 hv]
  rfl

/-- The numbers agree as JSON if the fields set each control to its loose number. -/
theorem json_agree_iff (lexs : List Lexeme) :
    (∀ c, setValues c (fieldCalls (fieldsOf lexs)) = (looseNumber buf c).toList) ↔
      ∀ c, (∃ v, OldNumber buf c v ∧ FieldNumbers (fieldsOf lexs) c [v]) ∨
        (∀ v, ¬ OldNumber buf c v) ∧ FieldNumbers (fieldsOf lexs) c [] := by
  refine forall_congr' fun c => ?_
  rw [fieldNumbers_toList_iff, Option.eq_none_iff_forall_ne_some]
  simp only [Ne, looseNumber_iff]

/-- The numbers agree as legacy text if the strict numbers are the loose ones. -/
theorem legacy_agree_iff :
    (∀ c, (strictNumber buf c).toList = (looseNumber buf c).toList) ↔
      ∀ c v, PlainNumber buf c v ↔ OldNumber buf c v := by
  refine forall_congr' fun c => ?_
  rw [toList_eq_iff]
  constructor
  · intro h v
    rw [← strictNumber_iff, ← looseNumber_iff, h]
  · exact fun h => Option.ext fun v =>
      (strictNumber_iff c v).trans ((h v).trans (looseNumber_iff c v).symm)

/-- The calls of a packet that has a reading as JSON with something in it. -/
theorem OldCommands.agree_of_ne_nil (h : OldCommands buf) (hjson : (jsonPass buf).1 ≠ []) :
    Compatible buf ↔ NumbersAgree buf := by
  obtain ⟨lexs, hread⟩ : ∃ lexs, JsonReading buf lexs := by
    by_contra hno
    exact hjson (jsonPass_of_no_reading h.noNul (not_exists.mp hno))
  rw [h.compatible_iff_values]
  simp only [setValues_of_reading h.noNul hread hjson]
  rw [json_agree_iff]
  constructor
  · exact .json hread
  · intro hagree
    cases hagree with
    | json hread' hc => rwa [hread.unique h.noNul hread']
    | legacy hno _ _ =>
        have hnil := (fieldsMean_iff _ _).mp (hno lexs hread)
        exact absurd ((jsonPass_of_reading h.noNul hread).trans hnil.symm) hjson

/-- The calls of a packet that says nothing as JSON. -/
theorem OldCommands.agree_of_nil (h : OldCommands buf) (hjson : (jsonPass buf).1 = []) :
    Compatible buf ↔ NumbersAgree buf := by
  have hno : ∀ lexs, JsonReading buf lexs → fieldCalls (fieldsOf lexs) = [] :=
    fun lexs hread => (jsonPass_of_reading h.noNul hread).symm.trans hjson
  have hagree : NumbersAgree buf ↔
      (∀ v, ¬ LegacySsid buf v) ∧ ∀ c v, PlainNumber buf c v ↔ OldNumber buf c v := by
    rw [← not_exists, ← exists_legacySsid_iff]
    constructor
    · intro hagree
      cases hagree with
      | legacy _ hssid hc => exact ⟨hssid, hc⟩
      | json hread hc =>
          -- the fields have no number, and the old parser read one
          refine absurd (fun c => ?_) h.exists_number
          rw [← (json_agree_iff _).mpr hc c, hno _ hread]
          rfl
    · rintro ⟨hssid, hc⟩
      exact .legacy (fun lexs hread => (fieldsMean_iff _ _).mpr (hno lexs hread).symm) hssid hc
  rw [h.compatible_iff_values, hagree, ← legacy_agree_iff]
  by_cases hv : ∃ v, LegacySsid buf v
  · obtain ⟨v, hv⟩ := hv
    simp only [setValues_of_ssid h.noNul hjson hv]
    refine iff_of_false (fun hset => h.exists_number fun c => (hset c).symm) ?_
    exact fun hnone => hnone.1 v hv
  · have hnone := not_exists.mp hv
    simp only [setValues_of_nil h.noNul hjson hnone]
    exact (and_iff_right hnone).symm

/-- **When the new parser makes the setter calls of the old one**: exactly when the numbers
agree. -/
theorem compatible_iff {buf : Bytes} (h : OldCommands buf) :
    Compatible buf ↔ NumbersAgree buf := by
  by_cases hjson : (jsonPass buf).1 = []
  · exact h.agree_of_nil hjson
  · exact h.agree_of_ne_nil hjson

/-- The packet `Speed:100`. -/
def bareSpeed : Bytes :=
  ascii "Speed:100"

/-- The two parsers agree on it, and so do the numbers. -/
theorem compatible_iff_bare : NumbersAgree bareSpeed :=
  (compatible_iff ⟨by decide, by decide, by decide +kernel, by decide +kernel⟩).mp
    ⟨by decide +kernel, by decide +kernel⟩

/-- The packet `"Speed":100`. -/
def quotedSpeed : Bytes :=
  ascii "\"Speed\":100"

/-- **A quoted key without braces is lost**: the old parser sets the speed, and the new one
reads no JSON and stops at the quote. -/
theorem quoted_key_lost :
    OldCommands quotedSpeed ∧ oldParserHandlePacket quotedSpeed = ([.set .rpm 100], true) ∧
      parserHandlePacket quotedSpeed = ⟨[], [], false⟩ ∧ ¬ Compatible quotedSpeed := by
  have hold : oldParserHandlePacket quotedSpeed = ([.set .rpm 100], true) := by
    decide +kernel
  have hnew : parserHandlePacket quotedSpeed = ⟨[], [], false⟩ := by
    decide +kernel
  refine ⟨⟨by decide, by decide, by rw [hold], by rw [hold]; decide⟩, hold, hnew, fun h => ?_⟩
  have hhandled := h.1
  rw [hnew] at hhandled
  exact absurd hhandled Bool.false_ne_true

end AirShifter
