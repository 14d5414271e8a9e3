import AirShifter.ControlFormats

/-!
# Numbers Out of Range

A control command carries a decimal number of any length. On the way to the variable it is
cut off by a buffer of 32 bytes on the JSON path, saturated to a `long`, handed over as an
`int`, refused if negative, and wrapped to the width of the variable. Only the first and
the last but one of these turn a number away; the others make another number of it.

## Main results

* `calls_command`: what a packet with one command calls, in either format.
* `bizSet_self`: the value that a setter leaves.
* `stored_as_sent_iff`: exactly when the variables end up with the number that was sent, or
  untouched if it is out of range.
-/

open CBytes

namespace AirShifter

/-! ### Packets with one command -/

/-- A key of a control as a JSON name, in one of its two spellings. -/
def controlKey (c : Control) (capital : Bool) : PlainStr :=
  ⟨if capital then (legacyKeys c).1 else (legacyKeys c).2, by
    cases c <;> cases capital <;> decide⟩

/-- The packet `{"key":n}` or `Key:n`. -/
def commandBytes (c : Control) (capital : Bool) (n : IntLit) : PacketFormat → Bytes
  | .json => ascii "\x7b\"" ++ ((controlKey c capital).val ++ (ascii "\":" ++
      (n.bytes ++ ascii "\x7d")))
  | .legacy => (controlKey c capital).val ++ (ascii ":" ++ n.bytes)

/-- The object of the packet in the JSON format. -/
def commandObject (c : Control) (capital : Bool) (n : IntLit) : FlatObject where
  lead := noWs
  members := [Spacing.none.member (controlKey c capital) (.int n)]
  inner := noWs
  trail := noWs

variable (c : Control) (capital : Bool) (n : IntLit)

/-- In the JSON format the packet is a flat object. -/
theorem commandBytes_json : commandBytes c capital n .json = (commandObject c capital n).bytes := by
  have hopen : ascii "\x7b\"" = [123, 34] := by decide
  have hmid : ascii "\":" = [34, 58] := by decide
  have hclose : ascii "\x7d" = [125] := by decide
  rw [commandBytes, hopen, hmid, hclose]
  simp [FlatObject.bytes, FlatObject.core, FlatObject.body, commandObject, moreBytes,
    FlatMember.bytes, Spacing.member, Spacing.none, FlatValue.bytes, noWs]

/-- The key is one of those the parser looks for. -/
theorem controlKey_mem : (controlKey c capital).val ∈ controlKeys := by
  cases c <;> cases capital <;> decide

/-- The key is a name of its control. -/
theorem keyOfName_controlKey : keyOfName (controlKey c capital).val = some (.control c) := by
  cases c <;> cases capital <;> decide

/-- **The JSON pass** makes the call of the command, if the literal fits its buffer. -/
theorem jsonPass_command : (jsonPass (commandBytes c capital n .json)).1 =
    if n.bytes.length < 32 then [.set c (clampLong n.value)] else [] := by
  have hkey : keyOfName (Spacing.none.member (controlKey c capital) (.int n)).name.val =
      some (.control c) := keyOfName_controlKey c capital
  have hroom : 1 + 2 * (commandObject c capital n).members.length ≤ jsmnTokenMax :=
    Nat.le_of_ble_eq_true rfl
  have hone : ∀ key, AtMostOne key (commandObject c capital n).members :=
    fun key => List.length_filter_le _ _
  have hstray : NoStrayKey (commandObject c capital n).members := by
    intro m hm
    exact absurd hm List.not_mem_nil
  have hcalls : controlCalls (commandObject c capital n).members =
      ((tokenToInt (FlatValue.int n).lexeme).map (.set c)).toList := by
    rw [controlCalls, commandObject, List.flatMap_singleton, hkey]
    rfl
  have hssid : memberText .ssid (commandObject c capital n).members = [] := by
    rw [memberText, commandObject, List.find?_singleton, hkey]
    rfl
  rw [commandBytes_json, jsonPass_eq_reference hroom (hone _) (hone _) hstray, referenceCalls,
    hssid, if_pos rfl, List.append_nil, hcalls, tokenToInt_intLit]
  split_ifs <;> rfl

/-! ### The legacy pass -/

/-- A brace and a quote are no letters. -/
theorem gap_open : Gap (ascii "\x7b\"") := by
  rw [Gap]
  decide

/-- Around the key the packet has no letter. -/
theorem commandBytes_eq (f : PacketFormat) : ∃ lead b rest, Gap lead ∧ isalpha b = false ∧
    Gap rest ∧ commandBytes c capital n f = lead ++ ((controlKey c capital).val ++ b :: rest) := by
  have hgap := gap_intLit n
  have hclose : Gap (n.bytes ++ [125]) := by
    intro d hd
    rcases List.mem_append.mp hd with hd | hd
    · exact hgap d hd
    · rw [List.mem_singleton.mp hd]
      rfl
  cases f with
  | json =>
      refine ⟨ascii "\x7b\"", 34, 58 :: (n.bytes ++ [125]), gap_open, rfl, ?_, rfl⟩
      intro d hd
      rcases List.mem_cons.mp hd with rfl | hd
      · rfl
      · exact hclose d hd
  | legacy => exact ⟨[], 58, n.bytes, by simp [Gap], rfl, hgap, rfl⟩

/-- The only key of a control in the packet is its own. -/
theorem infix_commandBytes_iff {key : Bytes} (h : Word key) (f : PacketFormat) :
    key <:+: commandBytes c capital n f ↔ key <:+: (controlKey c capital).val := by
  obtain ⟨lead, b, rest, hlead, hb, hrest, htext⟩ := commandBytes_eq c capital n f
  rw [htext, h.infix_gap_iff hlead, h.infix_append_iff hb, or_iff_left (h.not_infix_gap hrest)]

/-- A command provisions no network. -/
theorem legacyWifi_command (f : PacketFormat) : legacyWifi (commandBytes c capital n f) = none := by
  refine legacyWifi_of_not_mentions (not_mentionsWifi_of_keys fun word hw hin => ?_)
  exact ⟨_, controlKey_mem c capital, (infix_commandBytes_iff c capital n hw f).mp hin⟩

/-- What the legacy lookup finds behind the key of the packet. -/
def legacyValue : PacketFormat → Option ℤ
  | .json => none
  | .legacy => some (clampLong n.value)

/-- **The legacy lookup** in the packet: in the JSON format a quote stands behind the key. -/
theorem legacyExtractIntField_command {key : Bytes} (hkey : key ∈ controlKeys)
    (f : PacketFormat) : legacyExtractIntField (commandBytes c capital n f) key =
      if (controlKey c capital).val = key then legacyValue n f else none := by
  have hword := word_of_mem_controlKeys key hkey
  split_ifs with heq
  · subst heq
    cases f with
    | json =>
        have hmid : ascii "\":" = 34 :: ascii ":" := by decide
        rw [legacyExtractIntField_eq, commandBytes, fieldText_gap hword gap_open, fieldText_key,
          hmid]
        rfl
    | legacy =>
        have hsep : ascii ":" ≠ [] ∧ ∀ d ∈ ascii ":", isFieldSep d = true := by decide
        have hread := legacyExtractIntField_key (controlKey c capital).val ⟨ascii ":", hsep⟩ n
          (b := []) (by simp)
        rwa [List.append_nil] at hread
  · rw [legacyExtractIntField_eq, fieldText_eq_none]
    · rfl
    · rw [infix_commandBytes_iff c capital n hword]
      exact fun hin => heq (infix_controlKeys key hkey _ (controlKey_mem c capital) hin).symm

/-- Two guards on one value are one guard. -/
theorem or_ite_none {α : Type*} {p q r : Prop} [Decidable p] [Decidable q] [Decidable r]
    (h : p ∨ q ↔ r) (v : Option α) :
    (if p then v else none).or (if q then v else none) = if r then v else none := by
  by_cases hp : p <;> by_cases hq : q <;> simp [← h, hp, hq]

/-- The legacy pass over the packet. -/
theorem legacyPass_command (f : PacketFormat) : (legacyPass (commandBytes c capital n f)).1 =
    ((legacyValue n f).map (.set c)).toList := by
  have hcontrol : ∀ d, legacyControl (commandBytes c capital n f) d =
      if d = c then ((legacyValue n f).map (.set c)).toList else [] := by
    intro d
    have hmem : (legacyKeys d).1 ∈ controlKeys ∧ (legacyKeys d).2 ∈ controlKeys := by
      cases d <;> decide
    have hkeys : (controlKey c capital).val = (legacyKeys d).1 ∨
        (controlKey c capital).val = (legacyKeys d).2 ↔ d = c := by
      cases c <;> cases d <;> cases capital <;> decide
    rw [legacyControl, legacyExtractIntField_command c capital n hmem.1,
      legacyExtractIntField_command c capital n hmem.2]
    rw [or_ite_none hkeys]
    split_ifs with hd
    · subst hd
      cases legacyValue n f <;> rfl
    · rfl
  rw [legacyPass_of_none (legacyWifi_command c capital n f), hcontrol, hcontrol, hcontrol, hcontrol]
  cases c <;> simp

/-- **The calls of the packet.** A literal that does not fit the buffer of the JSON pass is
ignored, any other is handed to the setter, saturated. -/
theorem calls_command (f : PacketFormat) :
    (parserHandlePacket (commandBytes c capital n f)).calls =
      match f with
      | .json => if n.bytes.length < 32 then [.set c (clampLong n.value)] else []
      | .legacy => [.set c (clampLong n.value)] := by
  have hlegacy := legacyPass_command c capital n
  have hjson := jsonPass_command c capital n
  cases f with
  | json =>
      dsimp only
      split_ifs at hjson ⊢
      · rw [parserHandlePacket_of_ne_nil (by rw [hjson]; exact List.cons_ne_nil _ _), hjson]
        rfl
      · rw [parserHandlePacket_of_nil hjson, hlegacy]
        rfl
  | legacy =>
      have hnone : jsonPass (commandBytes c capital n .legacy) = ([], false) :=
        jsonPass_of_word (word_of_mem_controlKeys _ (controlKey_mem c capital)) _
      rw [parserHandlePacket_of_nil (by rw [hnone]), hlegacy]
      rfl

/-! ### What a setter leaves -/

/-- The number of values of the variables of a control. -/
def Control.size : Control → ℕ
  | .rpm => 2 ^ 32
  | .angle => 2 ^ 32
  | .light => 2 ^ 8
  | .power => 2 ^ 8

/-- The largest number that a command for a control can mean. -/
def Control.maxValue : Control → ℤ
  | .rpm => 2 ^ 31 - 1
  | .angle => 2 ^ 31 - 1
  | .light => 255
  | .power => 255

/-- Both variables of a control hold the number `v`. -/
def Controls.Hold (s : Controls) (c : Control) (v : ℤ) : Prop :=
  (s.ctrl c : ℤ) = v ∧ (s.stat c : ℤ) = v

/-- A word holds a number modulo 2^32. -/
theorem toNat_ofInt_uint32 (v : ℤ) : ((UInt32.ofInt v).toNat : ℤ) = v % 2 ^ 32 := by
  rw [UInt32.ofInt, UInt32.toNat_ofNat']
  omega

/-- A byte holds a number modulo 2^8. -/
theorem toNat_ofInt_uint8 (v : ℤ) : ((UInt8.ofInt v).toNat : ℤ) = v % 2 ^ 8 := by
  rw [UInt8.ofInt, UInt8.toNat_ofNat']
  omega

/-- **The setter of a control** leaves its variables alone if the argument is negative, and
otherwise the argument wrapped to their width. -/
theorem bizSet_self (s : Controls) (c : Control) (v : ℤ) :
    (v < 0 → bizSet s c v = s) ∧ (0 ≤ v → (bizSet s c v).Hold c (v % c.size)) := by
  refine ⟨fun hv => ?_, fun hv => ?_⟩
  · cases c <;> exact if_pos hv
  · cases c with
    | rpm =>
        rw [bizSet, bizSetRpm, if_neg (by omega)]
        exact ⟨toNat_ofInt_uint32 v, toNat_ofInt_uint32 v⟩
    | angle =>
        rw [bizSet, bizSetAngle, if_neg (by omega)]
        exact ⟨toNat_ofInt_uint32 v, toNat_ofInt_uint32 v⟩
    | light =>
        rw [bizSet, bizSetLight, if_neg (by omega)]
        exact ⟨toNat_ofInt_uint8 v, toNat_ofInt_uint8 v⟩
    | power =>
        rw [bizSet, bizSetPower, if_neg (by omega)]
        exact ⟨toNat_ofInt_uint8 v, toNat_ofInt_uint8 v⟩

/-! ### Stored as sent -/

/-- **Stored as sent**: a number in the range of the control ends up in both of its variables,
any other number leaves them alone; and nothing else changes. -/
def StoredAsSent (s s' : BizState) (c : Control) (v : ℤ) : Prop :=
  (0 ≤ v ∧ v ≤ c.maxValue → s'.controls.Hold c v) ∧
  (¬ (0 ≤ v ∧ v ≤ c.maxValue) →
    s'.controls.ctrl c = s.controls.ctrl c ∧ s'.controls.stat c = s.controls.stat c) ∧
  (∀ d, d ≠ c → s'.controls.ctrl d = s.controls.ctrl d ∧ s'.controls.stat d = s.controls.stat d) ∧
  s'.wifiCredQueue = s.wifiCredQueue ∧ s'.authTable = s.authTable

/-- The packet is not heard, which is right if the number is out of range or there already;
or it is heard, and the number is not too large, or what it wraps to is there already. -/
def NumberKept (s : BizState) (c : Control) (n : IntLit) : PacketFormat → Prop
  | .json =>
    if n.bytes.length < 32 then
      n.value ≤ c.maxValue ∨ s.controls.Hold c (min n.value (2 ^ 31 - 1) % c.size)
    else ¬ (0 ≤ n.value ∧ n.value ≤ c.maxValue) ∨ s.controls.Hold c n.value
  | .legacy => n.value ≤ c.maxValue ∨ s.controls.Hold c (min n.value (2 ^ 31 - 1) % c.size)

/-- A command that is not heard. -/
theorem storedAsSent_self (s : BizState) (c : Control) (v : ℤ) :
    StoredAsSent s s c v ↔ ¬ (0 ≤ v ∧ v ≤ c.maxValue) ∨ s.controls.Hold c v := by
  rw [← imp_iff_not_or]
  exact ⟨fun h => h.1, fun h => ⟨h, fun _ => ⟨rfl, rfl⟩, fun _ _ => ⟨rfl, rfl⟩, rfl, rfl⟩⟩

/-- The largest value of a control fits its variable, and an `int`. -/
theorem Control.maxValue_bounds (c : Control) :
    0 ≤ c.maxValue ∧ c.maxValue ≤ 2 ^ 31 - 1 ∧ c.maxValue < c.size := by
  cases c <;> decide

/-- A command that is heard. -/
theorem storedAsSent_set (freed : Bool) (s : BizState) (c : Control) (v : ℤ) :
    StoredAsSent s (bizCalls freed s [.set c (clampLong v)]) c v ↔
      v ≤ c.maxValue ∨ s.controls.Hold c (min v (2 ^ 31 - 1) % c.size) := by
  obtain ⟨hmax, hlong, hsize⟩ := c.maxValue_bounds
  have hclamp : clampLong v = max (-2 ^ 31) (min v (2 ^ 31 - 1)) := rfl
  have hstate : bizCalls freed s [.set c (clampLong v)] =
      { s with controls := bizSet s.controls c (clampLong v) } := rfl
  obtain ⟨hneg, hpos⟩ := bizSet_self s.controls c (clampLong v)
  have hothers := fun d (hd : d ≠ c) => bizSet_of_ne s.controls hd (clampLong v)
  rw [hstate]
  by_cases hv : v ≤ c.maxValue
  · refine iff_of_true ⟨fun hrange => ?_, fun hrange => ?_, hothers, rfl, rfl⟩ (Or.inl hv)
    · have hsame : clampLong v % c.size = v := by
        rw [hclamp, min_eq_left (by omega), max_eq_right (by omega)]
        exact Int.emod_eq_of_lt hrange.1 (by omega)
      have hheld := hpos (by rw [hclamp]; omega)
      rwa [hsame] at hheld
    · rw [hneg (by rw [hclamp]; omega)]
      exact ⟨rfl, rfl⟩
  · have hlong' : clampLong v = min v (2 ^ 31 - 1) := by
      rw [hclamp]
      omega
    obtain ⟨hctrl, hstat⟩ := hpos (by omega)
    rw [or_iff_right hv, ← hlong']
    constructor
    · rintro ⟨-, hkeep, -⟩
      obtain ⟨hc, hs⟩ := hkeep fun hrange => hv hrange.2
      exact ⟨by rw [← hc]; exact hctrl, by rw [← hs]; exact hstat⟩
    · rintro ⟨hc, hs⟩
      refine ⟨fun hrange => absurd hrange.2 hv, fun _ => ⟨?_, ?_⟩, hothers, rfl, rfl⟩
      · exact_mod_cast hctrl.trans hc.symm
      · exact_mod_cast hstat.trans hs.symm

/-- **Text commands store the number that was sent**, or nothing if it is out of range,
exactly as `NumberKept` says. -/
theorem stored_as_sent_iff (freed : Bool) (s : BizState) (f : PacketFormat) :
    StoredAsSent s (bizCalls freed s (parserHandlePacket (commandBytes c capital n f)).calls) c
      n.value ↔ NumberKept s c n f := by
  rw [calls_command]
  cases f with
  | json =>
      dsimp only
      rw [NumberKept]
      split_ifs
      · exact storedAsSent_set freed s c n.value
      · exact storedAsSent_self s c n.value
  | legacy => exact storedAsSent_set freed s c n.value

/-- The literal `5` behind 31 zeros. -/
def paddedFive : IntLit where
  neg := false
  digits := List.replicate 31 48 ++ [53]
  digits_ne_nil := by simp
  isdigit_of_mem := by decide

/-- The largest value of a byte, and a literal with zeros in front. -/
theorem stored_as_sent_sample :
    StoredAsSent {} (bizCalls false {} (parserHandlePacket
      (commandBytes .light true (decimal 255) .json)).calls) .light 255 ∧
    StoredAsSent {} (bizCalls false {} (parserHandlePacket
      (commandBytes .rpm false paddedFive .legacy)).calls) .rpm 5 := by
  refine ⟨(stored_as_sent_iff .light true (decimal 255) false {} .json).mpr ?_,
    (stored_as_sent_iff .rpm false paddedFive false {} .legacy).mpr (Or.inl (by decide))⟩
  rw [NumberKept, if_pos (by decide)]
  exact Or.inl (by decide)

/-- **A number out of range becomes another one**: the light at 256 is switched off, and a
speed of 2147483648 is one less. A literal of 32 digits is not heard at all. -/
theorem out_of_range_stored :
    commandBytes .light false (decimal 256) .json = ascii "\x7b\"light\":256\x7d" ∧
    (bizCalls false { controls := { ctrlLight := 1, statLight := 1 } } (parserHandlePacket
      (commandBytes .light false (decimal 256) .json)).calls).controls = {} ∧
    ¬ StoredAsSent { controls := { ctrlLight := 1, statLight := 1 } }
      (bizCalls false { controls := { ctrlLight := 1, statLight := 1 } } (parserHandlePacket
        (commandBytes .light false (decimal 256) .json)).calls) .light 256 ∧
    (bizCalls false {} (parserHandlePacket
      (commandBytes .rpm true (decimal 2147483648) .legacy)).calls).controls.ctrlRpm =
        2147483647 ∧
    (bizCalls false {} (parserHandlePacket
      (commandBytes .rpm false paddedFive .json)).calls).controls.ctrlRpm = 0 := by
  refine ⟨by decide, by decide +kernel, fun h => ?_, by decide +kernel, by decide +kernel⟩
  obtain ⟨hctrl, -⟩ := h.2.1 (by decide)
  exact absurd hctrl (by decide +kernel)

end AirShifter
