import AirShifter.Provisioning

/-!
# The Two Formats of Control Commands

A list of control commands can be sent as a flat JSON object or as legacy text. The JSON
pass walks the members in order; the legacy pass looks up the eight spellings of the four
keys, in a fixed order. Commands for different controls commute, so both lead to the same
state.

## Main results

* `calls_json`: the JSON object makes the calls of the list, in order.
* `legacyExtractIntField_text`: the legacy lookup finds the value behind a key.
* `calls_legacy`: the legacy text makes the calls of the list, in the order of the lookups.
* `formats_agree`: both are handled, call the listed setters, and end in the same state.
-/

open CBytes

namespace AirShifter

/-! ### Commands and their spellings -/

/-- The key of a control, in lower case. -/
def controlName : Control → Bytes
  | .rpm => ascii "speed"
  | .angle => ascii "angle"
  | .light => ascii "light"
  | .power => ascii "power"

/-- Blanks around a comma. -/
abbrev Blanks := {b : Bytes // ∀ c ∈ b, isspace c = true}

/-- What stands between a legacy key and its value. -/
abbrev Separator := {s : Bytes // s ≠ [] ∧ ∀ c ∈ s, isFieldSep c = true}

/-- A control command with its spelling in the two formats: whitespace and the letter case
of the name for JSON; the case of the first letter, the separator, and the blanks around
the comma in front for legacy text. -/
structure ControlField where
  control : Control
  value : ℤ
  le_value : -2 ^ 31 ≤ value
  value_le : value ≤ 2 ^ 31 - 1
  spacing : Spacing
  name : PlainStr
  lower_name : lower name.val = controlName control
  capital : Bool
  separator : Separator
  beforeComma : Blanks
  afterComma : Blanks

/-- The call of a command. -/
def ControlField.call (f : ControlField) : BizCall :=
  .set f.control f.value

/-- The member of a command. -/
def ControlField.member (f : ControlField) : FlatMember :=
  f.spacing.member f.name (.int (decimal f.value))

/-- The commands as a JSON object. -/
def jsonCommands (lead trail : Ws) (fs : List ControlField) : FlatObject where
  lead := lead
  members := fs.map ControlField.member
  inner := noWs
  trail := trail

/-- The legacy key of a command. -/
def ControlField.legacyKey (f : ControlField) : Bytes :=
  if f.capital then (legacyKeys f.control).1 else (legacyKeys f.control).2

/-- A command as legacy text. -/
def ControlField.legacyText (f : ControlField) : Bytes :=
  f.legacyKey ++ (f.separator.val ++ (decimal f.value).bytes)

/-- The legacy text of the commands behind the first one. -/
def moreLegacyText : List ControlField → Bytes
  | [] => []
  | f :: fs => f.beforeComma.val ++ 44 :: (f.afterComma.val ++ (f.legacyText ++ moreLegacyText fs))

/-- The commands as legacy text. -/
def legacyCommands : List ControlField → Bytes
  | [] => []
  | f :: fs => f.legacyText ++ moreLegacyText fs

/-! ### The JSON object -/

/-- A number that fits a `long` is not changed. -/
theorem clampLong_of_mem {v : ℤ} (hlo : -2 ^ 31 ≤ v) (hhi : v ≤ 2 ^ 31 - 1) : clampLong v = v := by
  rw [clampLong, min_eq_left hhi, max_eq_right hlo]

/-- The decimal text of a value is short. -/
theorem ControlField.length_decimal_le (f : ControlField) :
    (decimal f.value).bytes.length ≤ 11 := by
  have hlo := f.le_value
  have hhi := f.value_le
  exact CBytes.length_decimal_le (by omega)

/-- A literal starts with a digit or a minus sign. -/
theorem isspace_intLit_start (l : IntLit) :
    ∃ b t, l.bytes = b :: t ∧ isspace b = false ∧ isFieldSep b = false ∧
      (!isdigit b && b != 45) = false := by
  obtain ⟨b, t, hbt, rfl | hb⟩ := l.exists_cons
  · exact ⟨45, t, hbt, by decide, by decide, by decide⟩
  · have hsep : b ≠ 58 ∧ b ≠ 61 := by
      constructor <;> rintro rfl <;> exact absurd hb (by decide)
    refine ⟨b, t, hbt, isspace_of_isdigit hb, ?_, by simp [hb]⟩
    simp [isFieldSep, isspace_of_isdigit hb, hsep.1, hsep.2]

/-- **The value of a literal in a token**: it saturates, and a token of 32 bytes or more has
none. -/
theorem tokenToInt_intLit (l : IntLit) : tokenToInt (FlatValue.int l).lexeme =
    if l.bytes.length < 32 then some (clampLong l.value) else none := by
  obtain ⟨b, t, hbt, hspace, -, -⟩ := isspace_intLit_start l
  have hskip : l.bytes.dropWhile isspace = l.bytes := by
    rw [hbt]
    exact List.dropWhile_cons_of_neg (by rw [hspace]; exact Bool.false_ne_true)
  have hne : l.bytes ≠ [] := by
    rw [hbt]
    exact List.cons_ne_nil _ _
  have hpos := List.length_pos_iff.mpr hne
  have hread := strtol10_append l (s := []) (by simp)
  rw [List.append_nil] at hread
  have htext : (FlatValue.int l).lexeme.text = l.bytes := rfl
  rw [tokenToInt, htext, hskip, if_neg hne, hread]
  split_ifs
  · omega
  · rfl
  · rfl
  · omega

/-- The JSON pass reads the value of a field. -/
theorem ControlField.tokenToInt_member (f : ControlField) :
    tokenToInt f.member.value.lexeme = some f.value := by
  have hlen := f.length_decimal_le
  refine (tokenToInt_intLit (decimal f.value)).trans ?_
  rw [if_pos (by omega), value_decimal, clampLong_of_mem f.le_value f.value_le]

/-- The name of a field is a name of its control. -/
theorem ControlField.keyOfName_name (f : ControlField) :
    keyOfName f.name.val = some (.control f.control) := by
  rw [keyOfName, f.lower_name]
  cases f.control <;> decide

/-- The members call the setters of the fields, in order. -/
theorem controlCalls_members (fs : List ControlField) :
    controlCalls (fs.map ControlField.member) = fs.map ControlField.call := by
  induction fs with
  | nil => rfl
  | cons f fs ih =>
      have hname : keyOfName f.member.name.val = some (.control f.control) := f.keyOfName_name
      rw [controlCalls] at ih ⊢
      rw [List.map_cons, List.flatMap_cons, ih, hname, f.tokenToInt_member]
      rfl

/-- **The JSON object makes the calls of the list**, in order. -/
theorem calls_json {fs : List ControlField} (hne : fs ≠ [])
    (hroom : 1 + 2 * fs.length ≤ jsmnTokenMax) (lead trail : Ws) :
    parserHandlePacket (jsonCommands lead trail fs).bytes =
      ⟨fs.map ControlField.call, [], true⟩ := by
  have hkey : ∀ m ∈ (jsonCommands lead trail fs).members, ∃ c,
      keyOfName m.name.val = some (.control c) := by
    intro m hm
    obtain ⟨f, -, rfl⟩ := List.mem_map.mp hm
    exact ⟨f.control, f.keyOfName_name⟩
  have hnone : ∀ key, key = .ssid ∨ key = .pass →
      ((jsonCommands lead trail fs).members.filter
        fun m => keyOfName m.name.val = some key) = [] := by
    intro key hcred
    rw [List.filter_eq_nil_iff]
    intro m hm
    obtain ⟨c, hc⟩ := hkey m hm
    rcases hcred with rfl | rfl <;> simp [hc]
  have hstray : NoStrayKey (jsonCommands lead trail fs).members := by
    intro m hm hstray
    obtain ⟨c, hc⟩ := hkey m (List.dropLast_subset _ hm)
    exact absurd (hc.symm.trans hstray.1) (by simp)
  have hssid : memberText .ssid (jsonCommands lead trail fs).members = [] := by
    rw [memberText, ← List.head?_filter, hnone _ (Or.inl rfl)]
    rfl
  have hcontrol : controlCalls (jsonCommands lead trail fs).members =
      fs.map ControlField.call := controlCalls_members fs
  have hjson : (jsonPass (jsonCommands lead trail fs).bytes).1 = fs.map ControlField.call := by
    rw [jsonPass_eq_reference (by simpa [jsonCommands] using hroom)
      (by rw [AtMostOne, hnone _ (Or.inl rfl)]; exact Nat.zero_le 1)
      (by rw [AtMostOne, hnone _ (Or.inr rfl)]; exact Nat.zero_le 1) hstray, referenceCalls,
      hcontrol, hssid, if_pos rfl, List.append_nil]
  rw [parserHandlePacket_of_ne_nil (by rw [hjson]; simpa using hne), hjson]

/-! ### The legacy text -/

/-- The keys of the legacy commands, in both spellings. -/
def controlKeys : List Bytes :=
  [ascii "Speed", ascii "speed", ascii "Angle", ascii "angle", ascii "Light", ascii "light",
    ascii "Power", ascii "power"]

/-- The keys of the controls are words. -/
theorem word_of_mem_controlKeys : ∀ key ∈ controlKeys, Word key := by
  decide

/-- No key contains another one. -/
theorem infix_controlKeys : ∀ key ∈ controlKeys, ∀ key' ∈ controlKeys,
    key <:+: key' → key = key' := by
  decide

/-- The legacy key of a field is one of them. -/
theorem ControlField.legacyKey_mem (f : ControlField) : f.legacyKey ∈ controlKeys := by
  rw [ControlField.legacyKey]
  cases f.control <;> split_ifs <;> decide

/-- Blanks have no letters. -/
theorem gap_blanks (b : Blanks) : Gap b.val :=
  fun c hc => isalpha_of_isspace (b.2 c hc)

/-- A separator is no letter. -/
theorem isalpha_of_isFieldSep {b : UInt8} (h : isFieldSep b = true) : isalpha b = false := by
  rw [isFieldSep, Bool.or_eq_true, Bool.or_eq_true, beq_iff_eq, beq_iff_eq] at h
  rcases h with (rfl | rfl) | h
  · rfl
  · rfl
  · exact isalpha_of_isspace h

/-- What stands between two keys has no letter. -/
theorem ControlField.gap_value (f : ControlField) :
    ∃ c g, f.separator.val = c :: g ∧ isalpha c = false ∧ Gap (g ++ (decimal f.value).bytes) := by
  obtain ⟨sep, hne, hsep⟩ := f.separator
  obtain ⟨c, g, rfl⟩ := List.exists_cons_of_ne_nil hne
  refine ⟨c, g, rfl, isalpha_of_isFieldSep (hsep c List.mem_cons_self), fun d hd => ?_⟩
  rcases List.mem_append.mp hd with hd | hd
  · exact isalpha_of_isFieldSep (hsep d (List.mem_cons_of_mem c hd))
  · exact gap_intLit _ d hd

variable {key : Bytes}

/-- A word occurs in a command, or behind it, exactly when it occurs in the key, or
behind. -/
theorem infix_legacyText_iff (h : Word key) (f : ControlField) (b : Bytes) :
    key <:+: f.legacyText ++ b ↔ key <:+: f.legacyKey ∨ key <:+: b := by
  obtain ⟨c, g, hsep, hc, hgap⟩ := f.gap_value
  have htext : f.legacyText ++ b =
      f.legacyKey ++ c :: ((g ++ (decimal f.value).bytes) ++ b) := by
    rw [ControlField.legacyText, hsep]
    simp
  rw [htext, h.infix_append_iff hc, h.infix_gap_iff hgap]

/-- A word stands in the text of the fields exactly if it stands in the key of one. -/
theorem infix_moreLegacyText_iff (h : Word key) (fs : List ControlField) :
    key <:+: moreLegacyText fs ↔ ∃ f ∈ fs, key <:+: f.legacyKey := by
  induction fs with
  | nil => simp [moreLegacyText, h.not_infix_nil]
  | cons f fs ih =>
      rw [moreLegacyText, h.infix_gap_iff (gap_blanks _), h.infix_cons_iff rfl,
        h.infix_gap_iff (gap_blanks _), infix_legacyText_iff h, ih, List.exists_mem_cons_iff]

/-- **A word occurs in the legacy text** exactly when it occurs in a key. -/
theorem infix_legacyCommands_iff (h : Word key) (fs : List ControlField) :
    key <:+: legacyCommands fs ↔ ∃ f ∈ fs, key <:+: f.legacyKey := by
  cases fs with
  | nil => simp [legacyCommands, h.not_infix_nil]
  | cons f fs =>
      rw [legacyCommands, infix_legacyText_iff h, infix_moreLegacyText_iff h,
        List.exists_mem_cons_iff]

/-- Behind a command the text ends, or goes on with a comma or a blank. -/
theorem head_moreLegacyText (fs : List ControlField) :
    ∀ b ∈ (moreLegacyText fs).head?, isdigit b = false := by
  cases fs with
  | nil => simp [moreLegacyText]
  | cons f fs =>
      intro b hb
      rw [moreLegacyText] at hb
      generalize f.beforeComma = before at hb
      obtain ⟨blanks, hblanks⟩ := before
      cases blanks with
      | nil =>
          obtain rfl : 44 = b := Option.some.inj hb
          rfl
      | cons c blanks =>
          obtain rfl : c = b := Option.some.inj hb
          have hspace := hblanks c List.mem_cons_self
          rw [← Bool.not_eq_true]
          intro hdigit
          rw [isspace_of_isdigit hdigit] at hspace
          exact absurd hspace Bool.false_ne_true

/-- **The legacy lookup of a key in front** reads the literal behind it, which saturates. -/
theorem legacyExtractIntField_key (key : Bytes) (sep : Separator) (l : IntLit) {b : Bytes}
    (hb : ∀ c ∈ b.head?, isdigit c = false) :
    legacyExtractIntField (key ++ (sep.val ++ (l.bytes ++ b))) key =
      some (clampLong l.value) := by
  obtain ⟨d, t, hdt, -, hsep, hnum⟩ := isspace_intLit_start l
  have hskip : (sep.val ++ (l.bytes ++ b)).dropWhile isFieldSep = l.bytes ++ b := by
    rw [List.dropWhile_append_of_pos sep.2.2, hdt]
    exact List.dropWhile_cons_of_neg (by rw [hsep]; exact Bool.false_ne_true)
  have hread := strtol10_append l hb
  rw [hdt, List.cons_append] at hread
  rw [legacyExtractIntField_eq, fieldText_key, hskip, hdt, Option.bind_some, List.cons_append]
  dsimp only
  rw [hnum, if_neg Bool.false_ne_true, atoi, hread]
  rfl

/-- **The legacy lookup** of a key finds the value behind it. -/
theorem legacyExtractIntField_field (hkey : key ∈ controlKeys) (f : ControlField) {b : Bytes}
    (hb : ∀ c ∈ b.head?, isdigit c = false) :
    legacyExtractIntField (f.legacyText ++ b) key =
      if f.legacyKey = key then some f.value else legacyExtractIntField b key := by
  have hword := word_of_mem_controlKeys key hkey
  split_ifs with heq
  · have htext : f.legacyText ++ b =
        key ++ (f.separator.val ++ ((decimal f.value).bytes ++ b)) := by
      rw [← heq, ControlField.legacyText]
      simp
    rw [htext, legacyExtractIntField_key key f.separator _ hb, value_decimal,
      clampLong_of_mem f.le_value f.value_le]
  · obtain ⟨c, g, hsep, hc, hgap⟩ := f.gap_value
    have htext : f.legacyText ++ b =
        f.legacyKey ++ c :: ((g ++ (decimal f.value).bytes) ++ b) := by
      rw [ControlField.legacyText, hsep]
      simp
    have hnot : ¬ key <:+: f.legacyKey :=
      fun hin => heq (infix_controlKeys key hkey _ f.legacyKey_mem hin).symm
    rw [legacyExtractIntField_eq, htext, fieldText_append hword hc hnot, fieldText_gap hword hgap,
      ← legacyExtractIntField_eq]

/-- The number behind a key is that of the first field with it. -/
theorem legacyExtractIntField_more (hkey : key ∈ controlKeys) (fs : List ControlField) :
    legacyExtractIntField (moreLegacyText fs) key =
      (fs.find? fun f => f.legacyKey = key).map ControlField.value := by
  have hword := word_of_mem_controlKeys key hkey
  induction fs with
  | nil =>
      have hno : ¬ key <:+: moreLegacyText [] := by simpa [moreLegacyText] using hword.ne_nil
      rw [legacyExtractIntField_eq, fieldText_eq_none hno]
      rfl
  | cons f fs ih =>
      have hskip : fieldText (moreLegacyText (f :: fs)) key =
          fieldText (f.legacyText ++ moreLegacyText fs) key := by
        rw [moreLegacyText, fieldText_gap hword (gap_blanks _),
          ← List.nil_append (44 :: _), fieldText_append hword rfl hword.not_infix_nil,
          fieldText_gap hword (gap_blanks _)]
      rw [legacyExtractIntField_eq, hskip, ← legacyExtractIntField_eq,
        legacyExtractIntField_field hkey f (head_moreLegacyText fs), ih, List.find?_cons]
      by_cases heq : f.legacyKey = key <;> simp [heq]

/-- **The legacy lookup in the text of a list** finds the value of the command with that
spelling of the key. -/
theorem legacyExtractIntField_text (hkey : key ∈ controlKeys) (fs : List ControlField) :
    legacyExtractIntField (legacyCommands fs) key =
      (fs.find? fun f => f.legacyKey = key).map ControlField.value := by
  cases fs with
  | nil => exact legacyExtractIntField_more hkey []
  | cons f fs =>
      rw [legacyCommands, legacyExtractIntField_field hkey f (head_moreLegacyText fs),
        legacyExtractIntField_more hkey, List.find?_cons]
      by_cases heq : f.legacyKey = key <;> simp [heq]

/-! ### The calls of the legacy text -/

/-- A field has one of the two keys of its control. -/
theorem ControlField.legacyKey_eq_iff (f : ControlField) (c : Control) :
    f.legacyKey = (legacyKeys c).1 ∨ f.legacyKey = (legacyKeys c).2 ↔ f.control = c := by
  rw [ControlField.legacyKey]
  cases f.control <;> cases c <;> cases f.capital <;> decide

/-- The command for a control, if the list has one. -/
def commandFor (fs : List ControlField) (c : Control) : Option BizCall :=
  (fs.find? fun f => f.control = c).map ControlField.call

/-- One of the two spellings is found, if the list has a command for the control. -/
theorem find_legacyKey {fs : List ControlField} (hnodup : (fs.map ControlField.control).Nodup)
    (c : Control) : (fs.find? fun f => f.legacyKey = (legacyKeys c).1).or
      (fs.find? fun f => f.legacyKey = (legacyKeys c).2) = fs.find? fun f => f.control = c := by
  induction fs with
  | nil => rfl
  | cons f fs ih =>
      rw [List.map_cons, List.nodup_cons] at hnodup
      rw [List.find?_cons, List.find?_cons, List.find?_cons]
      by_cases hc : f.control = c
      · have hnone : ∀ k, k = (legacyKeys c).1 ∨ k = (legacyKeys c).2 →
            (fs.find? fun f => f.legacyKey = k) = none := by
          intro k hk
          rw [List.find?_eq_none]
          intro g hg hgk
          have hgc : g.control = c := by
            rw [← g.legacyKey_eq_iff]
            rcases hk with rfl | rfl
            · exact Or.inl (of_decide_eq_true hgk)
            · exact Or.inr (of_decide_eq_true hgk)
          exact hnodup.1 (List.mem_map.mpr ⟨g, hg, hgc.trans hc.symm⟩)
        rw [hnone _ (Or.inl rfl), hnone _ (Or.inr rfl)]
        have hne : (legacyKeys c).2 ≠ (legacyKeys c).1 := by
          cases c <;> decide
        rcases (f.legacyKey_eq_iff c).mpr hc with hkey | hkey
        · simp [hkey, hc]
        · simp [hkey, hc, hne]
      · have hkey := (f.legacyKey_eq_iff c).not.mpr hc
        rw [not_or] at hkey
        simp only [hkey.1, hkey.2, hc, decide_false]
        exact ih hnodup.2

/-- A branch makes the call of the one field for its control. -/
theorem legacyControl_text {fs : List ControlField} (hnodup : (fs.map ControlField.control).Nodup)
    (c : Control) : legacyControl (legacyCommands fs) c = (commandFor fs c).toList := by
  have hmem : (legacyKeys c).1 ∈ controlKeys ∧ (legacyKeys c).2 ∈ controlKeys := by
    cases c <;> decide
  rw [legacyControl, legacyExtractIntField_text hmem.1, legacyExtractIntField_text hmem.2,
    ← Option.map_or, find_legacyKey hnodup, commandFor]
  cases hfind : fs.find? fun f => f.control = c with
  | none => rfl
  | some f =>
      have hc : f.control = c := by simpa using List.find?_some hfind
      rw [Option.map_some, Option.map_some, ControlField.call, hc]
      rfl

/-- A text whose words all stand in the keys of the controls mentions no network. -/
theorem not_mentionsWifi_of_keys {buf : Bytes}
    (h : ∀ word, Word word → word <:+: buf → ∃ key ∈ controlKeys, word <:+: key) :
    ¬ MentionsWifi buf := by
  have hwords : ∀ word ∈ [ascii "Wifi", ascii "SSID", ascii "ssid"],
      Word word ∧ ∀ key ∈ controlKeys, ¬ word <:+: key := by decide
  have hnot : ∀ word ∈ [ascii "Wifi", ascii "SSID", ascii "ssid"], ¬ word <:+: buf := by
    intro word hword hin
    obtain ⟨hw, hkeys⟩ := hwords word hword
    obtain ⟨key, hkey, hin⟩ := h word hw hin
    exact hkeys key hkey hin
  rintro (h | h | h)
  · exact hnot _ (by simp) h
  · exact hnot _ (by simp) h
  · exact hnot _ (by simp) h

/-- The text mentions no network. -/
theorem not_mentionsWifi (fs : List ControlField) : ¬ MentionsWifi (legacyCommands fs) := by
  refine not_mentionsWifi_of_keys fun word hw hin => ?_
  obtain ⟨f, -, hin⟩ := (infix_legacyCommands_iff hw fs).mp hin
  exact ⟨_, f.legacyKey_mem, hin⟩

/-- A text that starts with a letter is no JSON. -/
theorem jsonPass_of_isalpha {b : UInt8} (hb : isalpha b = true) (t : Bytes) :
    jsonPass (b :: t) = ([], false) := by
  have hspace : isspace b = false := by
    rw [← Bool.not_eq_true]
    intro hspace
    rw [isalpha_of_isspace hspace] at hb
    exact absurd hb Bool.false_ne_true
  have hbracket : b ≠ 123 ∧ b ≠ 91 := by
    constructor <;> rintro rfl <;> exact absurd hb (by decide)
  rw [jsonPass, List.dropWhile_cons_of_neg (by rw [hspace]; exact Bool.false_ne_true)]
  exact if_neg (by simp [hbracket.1, hbracket.2])

/-- A text that starts with a word is no JSON. -/
theorem jsonPass_of_word {key : Bytes} (hkey : Word key) (t : Bytes) :
    jsonPass (key ++ t) = ([], false) := by
  obtain ⟨b, u, rfl⟩ := List.exists_cons_of_ne_nil hkey.ne_nil
  exact jsonPass_of_isalpha (hkey.isalpha_of_mem b List.mem_cons_self) _

/-- The legacy text opens with no bracket. -/
theorem jsonPass_legacyCommands (fs : List ControlField) :
    jsonPass (legacyCommands fs) = ([], false) := by
  cases fs with
  | nil => rfl
  | cons f fs =>
      rw [legacyCommands, ControlField.legacyText, List.append_assoc]
      exact jsonPass_of_word (word_of_mem_controlKeys _ f.legacyKey_mem) _

/-- **The legacy text makes the calls of the list**, in the order of the lookups. -/
theorem calls_legacy {fs : List ControlField} (hne : fs ≠ [])
    (hnodup : (fs.map ControlField.control).Nodup) :
    parserHandlePacket (legacyCommands fs) =
      ⟨[], Control.all.filterMap (commandFor fs), true⟩ := by
  have hcalls : (legacyPass (legacyCommands fs)).1 = Control.all.filterMap (commandFor fs) := by
    rw [legacyPass_of_none (legacyWifi_of_not_mentions (not_mentionsWifi fs))]
    simp only [legacyControl_text hnodup]
    rw [Control.all, List.filterMap_eq_flatMap_toList]
    simp
  have hsome : (legacyPass (legacyCommands fs)).1 ≠ [] := by
    obtain ⟨f, t, hft⟩ := List.exists_cons_of_ne_nil hne
    rw [hcalls, Ne, List.filterMap_eq_nil_iff, not_forall]
    refine ⟨f.control, ?_⟩
    simp [Control.mem_all, commandFor, hft]
  rw [parserHandlePacket_of_nil (by rw [jsonPass_legacyCommands]),
    (legacyPass_once _).1.mpr hsome, hcalls]

/-! ### Agreement -/

/-- The control variable of a control, as a number. -/
def Controls.ctrl (s : Controls) : Control → ℕ
  | .rpm => s.ctrlRpm.toNat
  | .angle => s.ctrlAngle.toNat
  | .light => s.ctrlLight.toNat
  | .power => s.ctrlPower.toNat

/-- The status variable of a control, as a number. -/
def Controls.stat (s : Controls) : Control → ℕ
  | .rpm => s.statRpm.toNat
  | .angle => s.statAngle.toNat
  | .light => s.statLight.toNat
  | .power => s.statPower.toNat

/-- A setter leaves the variables of the other controls alone. -/
theorem bizSet_of_ne (s : Controls) {c d : Control} (h : d ≠ c) (v : ℤ) :
    (bizSet s c v).ctrl d = s.ctrl d ∧ (bizSet s c v).stat d = s.stat d := by
  cases c <;> cases d <;> first
    | exact absurd rfl h
    | (dsimp only [bizSet, bizSetRpm, bizSetAngle, bizSetLight, bizSetPower]
       split_ifs <;> exact ⟨rfl, rfl⟩)

/-- Setter calls leave the variables of unlisted controls alone. -/
theorem bizCalls_of_notMem (freed : Bool) {c : Control} {fs : List ControlField}
    (h : c ∉ fs.map ControlField.control) (s : BizState) :
    (bizCalls freed s (fs.map ControlField.call)).controls.ctrl c = s.controls.ctrl c ∧
      (bizCalls freed s (fs.map ControlField.call)).controls.stat c = s.controls.stat c := by
  induction fs generalizing s with
  | nil => exact ⟨rfl, rfl⟩
  | cons f fs ih =>
      rw [List.map_cons, List.mem_cons, not_or] at h
      obtain ⟨hctrl, hstat⟩ := ih h.2 (bizCall freed s f.call)
      obtain ⟨hctrl', hstat'⟩ := bizSet_of_ne s.controls h.1 f.value
      exact ⟨hctrl.trans hctrl', hstat.trans hstat'⟩

/-- The calls of the legacy text are those of the list, each once. -/
theorem perm_commandFor {fs : List ControlField} (hnodup : (fs.map ControlField.control).Nodup) :
    (Control.all.filterMap (commandFor fs)).Perm (fs.map ControlField.call) := by
  have hcall : ∀ {c call}, commandFor fs c = some call →
      ∃ f ∈ fs, f.control = c ∧ f.call = call := by
    intro c call h
    obtain ⟨f, hf, rfl⟩ := Option.map_eq_some_iff.mp h
    exact ⟨f, List.mem_of_find?_eq_some hf, by simpa using List.find?_some hf, rfl⟩
  have hfind : ∀ f ∈ fs, commandFor fs f.control = some f.call := by
    intro f hf
    cases h : fs.find? fun g => g.control = f.control with
    | none => exact absurd (List.find?_eq_none.mp h f hf) (by simp)
    | some g =>
        have hg : g.control = f.control := by simpa using List.find?_some h
        obtain rfl : g = f :=
          List.inj_on_of_nodup_map hnodup (List.mem_of_find?_eq_some h) hf hg
        rw [commandFor, h]
        rfl
  refine (List.perm_ext_iff_of_nodup ?_ ?_).mpr fun call => ?_
  · refine List.Nodup.filterMap (fun c d call hc hd => ?_) (by decide)
    obtain ⟨f, -, rfl, hf⟩ := hcall hc
    obtain ⟨g, -, rfl, hg⟩ := hcall hd
    exact (BizCall.set.inj (hf.trans hg.symm)).1
  · rw [List.nodup_map_iff_inj_on (List.Nodup.of_map _ hnodup)]
    intro f hf g hg hcalls
    exact List.inj_on_of_nodup_map hnodup hf hg (BizCall.set.inj hcalls).1
  · rw [List.mem_filterMap, List.mem_map]
    constructor
    · rintro ⟨c, -, hc⟩
      obtain ⟨f, hf, -, hcall⟩ := hcall hc
      exact ⟨f, hf, hcall⟩
    · rintro ⟨f, hf, rfl⟩
      exact ⟨f.control, Control.mem_all _, hfind f hf⟩

/-- Calls of different setters commute. -/
theorem bizCalls_perm {fs : List ControlField} (hnodup : (fs.map ControlField.control).Nodup)
    {calls : List BizCall} (h : calls.Perm (fs.map ControlField.call)) (freed : Bool)
    (s : BizState) : bizCalls freed s (fs.map ControlField.call) = bizCalls freed s calls := by
  refine h.symm.foldl_eq' ?_ s
  intro x hx y hy z
  obtain ⟨f, hf, rfl⟩ := List.mem_map.mp hx
  obtain ⟨g, hg, rfl⟩ := List.mem_map.mp hy
  by_cases hfg : f.control = g.control
  · rw [List.inj_on_of_nodup_map hnodup hf hg hfg]
  · simp only [ControlField.call, bizCall, bizSet_comm z.controls hfg]

/-- **The two formats agree.** A non-empty list of commands for different controls is
handled in both formats, calls each listed setter once with its value, leaves the
variables of unlisted controls alone, and leads to the same state. -/
theorem formats_agree {fs : List ControlField} (hne : fs ≠ [])
    (hnodup : (fs.map ControlField.control).Nodup) (lead trail : Ws) (freed : Bool)
    (s : BizState) :
    let json := parserHandlePacket (jsonCommands lead trail fs).bytes
    let legacy := parserHandlePacket (legacyCommands fs)
    json.handled = true ∧ legacy.handled = true ∧
      json.calls = fs.map ControlField.call ∧
      legacy.calls.Perm (fs.map ControlField.call) ∧
      (∀ c ∉ fs.map ControlField.control,
        (bizCalls freed s json.calls).controls.ctrl c = s.controls.ctrl c ∧
          (bizCalls freed s json.calls).controls.stat c = s.controls.stat c) ∧
      bizCalls freed s json.calls = bizCalls freed s legacy.calls := by
  have hlen : fs.length ≤ 4 := by
    have hsub := (List.subperm_of_subset hnodup fun c _ => Control.mem_all c).length_le
    rwa [List.length_map] at hsub
  have hroom : 1 + 2 * fs.length ≤ 128 := by omega
  have hjson := calls_json hne hroom lead trail
  have hlegacy := calls_legacy hne hnodup
  have hcalls : (parserHandlePacket (jsonCommands lead trail fs).bytes).calls =
      fs.map ControlField.call := by
    rw [hjson, PacketResult.calls, List.append_nil]
  have hperm : (parserHandlePacket (legacyCommands fs)).calls.Perm (fs.map ControlField.call) := by
    rw [hlegacy]
    exact perm_commandFor hnodup
  dsimp only
  rw [hcalls]
  exact ⟨by rw [hjson], by rw [hlegacy], rfl, hperm,
    fun c hc => bizCalls_of_notMem freed hc s, bizCalls_perm hnodup hperm freed s⟩

/-- The commands `Speed = -5` and `light:300`. -/
def sampleCommands : List ControlField :=
  [{ control := .rpm, value := -5, le_value := by decide, value_le := by decide
     spacing := .none, name := ⟨ascii "SPEED", by decide⟩, lower_name := by decide
     capital := true, separator := ⟨ascii " = ", by decide⟩
     beforeComma := ⟨[], by decide⟩, afterComma := ⟨[], by decide⟩ },
   { control := .light, value := 300, le_value := by decide, value_le := by decide
     spacing := .none, name := ⟨ascii "light", by decide⟩, lower_name := by decide
     capital := false, separator := ⟨ascii ":", by decide⟩
     beforeComma := ⟨[], by decide⟩, afterComma := ⟨ascii " ", by decide⟩ }]

/-- The sample commands as a JSON object. -/
def sampleObject : FlatObject :=
  jsonCommands noWs noWs sampleCommands

example : legacyCommands sampleCommands = ascii "Speed = -5, light:300" ∧
    sampleObject.bytes = ascii "\x7b\"SPEED\":-5,\"light\":300\x7d" := by
  decide

/-- Two controls in both formats. -/
theorem formats_agree_sample :
    (parserHandlePacket sampleObject.bytes).handled = true ∧
      (parserHandlePacket (legacyCommands sampleCommands)).handled = true ∧
      bizCalls false {} (parserHandlePacket sampleObject.bytes).calls =
        bizCalls false {} (parserHandlePacket (legacyCommands sampleCommands)).calls := by
  have hne : sampleCommands ≠ [] := by simp [sampleCommands]
  obtain ⟨hjson, hlegacy, -, -, -, hsame⟩ :=
    formats_agree hne (by decide) noWs noWs false {}
  exact ⟨hjson, hlegacy, hsame⟩

end AirShifter
