import AirShifter.LegacyMeaning
import AirShifter.LooseText

/-!
# What a Packet Means

A packet has no mark that says which format it is in. It is read as JSON first, if it opens
with a brace or a bracket, and what counts then is not whether it is JSON, but whether it says
anything: a text that is none, or has too many tokens, or has no field that asks for something,
is read once more in the legacy format.

Both readings are stated on the text, without the tokenizer, the walk over the tokens and the
extractors: the tokens are those of the language that the tokenizer accepts, a field is told by
where its name stands, and numbers and strings are longest runs of the text.

## Main results

* `fieldsOf_eq_taken`: the second pass takes the fields of the text for its keys.
* `jsonPass_of_reading`: the calls of a text that has a reading as JSON.
* `packet_means`: the calls of a packet, whatever a buffer holds.
-/

open CBytes

namespace AirShifter

/-! ### The specification -/

/-- The text from its first byte on that is no whitespace. -/
def coreOf (text : Bytes) : Bytes :=
  text.dropWhile isspace

/-- The text has the tokens `lexs` when it is read as JSON. -/
structure JsonReading (text : Bytes) (lexs : List Lexeme) : Prop where
  opens : (coreOf text).head? = some 123 ∨ (coreOf text).head? = some 91
  loose : LooseText (coreOf text) lexs
  room : lexs.length ≤ jsmnTokenMax

/-- The token is a known name. -/
def Lexeme.IsName (t : Lexeme) : Prop :=
  t.type = .string ∧ keyOfName t.text ≠ none

instance (t : Lexeme) : Decidable t.IsName :=
  inferInstanceAs (Decidable (_ ∧ _))

/-- How many known names there are in a row at the end of a list of tokens. -/
def namesInRow (lexs : List Lexeme) : ℕ :=
  (lexs.reverse.takeWhile fun t => decide t.IsName).length

/-- The field with its name at the position `i`, if there is one: a known name, with any token
behind it as its value. In a row of known names every second one is a value, and the name of no
field. -/
def fieldAt (lexs : List Lexeme) (i : ℕ) : Option Field :=
  match lexs[i]?, lexs[i + 1]? with
  | some t, some value =>
    if t.type = .string ∧ Even (namesInRow (lexs.take i)) then (keyOfName t.text).map (·, value)
    else none
  | _, _ => none

/-- The fields in a list of tokens, in order. -/
def fieldsOf (lexs : List Lexeme) : List Field :=
  (List.range lexs.length).filterMap (fieldAt lexs)

/-- The calls that fields ask for, with `number` for the numbers in their values: the commands in
order, and then one credential if some field names a network. Its strings are those of the last
fields. -/
def callsOf (number : Bytes → Option ℤ) (fs : List Field) : List BizCall :=
  (fs.filterMap fun f =>
    match f.1 with
    | .control c => (number f.2.text).map (.set c)
    | _ => none) ++
    if HasText .ssid fs then
      [.applyWifiCredentials (mkCred ((lastText .ssid fs).take wifiSsidMaxLen)
        ((lastText .pass fs).take wifiPassMaxLen))]
    else []

/-- What fields mean. -/
inductive FieldsMean (fs : List Field) : List BizCall → Prop
  | intro (number : Bytes → Option ℤ)
      (hnumber : ∀ text v, number text = some v ↔ ValueNumber text v) :
      FieldsMean fs (callsOf number fs)

/-- What a text means. A reading as JSON with a field that asks for something comes first, and
the legacy format second. -/
inductive PacketMeans (text : Bytes) : List BizCall → Prop
  | json {lexs : List Lexeme} {calls : List BizCall} (hread : JsonReading text lexs)
      (h : FieldsMean (fieldsOf lexs) calls) (hne : calls ≠ []) : PacketMeans text calls
  | legacy {calls : List BizCall}
      (hno : ∀ lexs, JsonReading text lexs → FieldsMean (fieldsOf lexs) [])
      (h : LegacyMeans text calls) : PacketMeans text calls

/-! ### Fields -/

/-- A token more makes the row longer, or ends it. -/
theorem namesInRow_concat (lexs : List Lexeme) (t : Lexeme) :
    namesInRow (lexs ++ [t]) = if t.IsName then namesInRow lexs + 1 else 0 := by
  rw [namesInRow, List.reverse_append, List.reverse_singleton, List.singleton_append,
    List.takeWhile_cons]
  by_cases ht : t.IsName
  · rw [if_pos ht, if_pos (decide_eq_true ht)]
    rfl
  · rw [if_neg ht, if_neg (by simpa using ht)]
    rfl

/-- A name, with the tokens in front of it and its value. -/
theorem fieldAt_length (before : List Lexeme) (t value : Lexeme) (after : List Lexeme) :
    fieldAt (before ++ t :: value :: after) before.length =
      if t.type = .string ∧ Even (namesInRow before) then (keyOfName t.text).map (·, value)
      else none := by
  simp [fieldAt]

/-- The last token is the name of no field. -/
theorem fieldAt_last (before : List Lexeme) (t : Lexeme) :
    fieldAt (before ++ [t]) before.length = none := by
  simp [fieldAt]

/-- The fields with their names behind the first tokens. -/
def fieldsBehind (before lexs : List Lexeme) : List Field :=
  (List.range lexs.length).filterMap fun j => fieldAt (before ++ lexs) (before.length + j)

/-- The field of the first token comes first. -/
theorem fieldsBehind_cons (before : List Lexeme) (t : Lexeme) (lexs : List Lexeme) :
    fieldsBehind before (t :: lexs) =
      (fieldAt (before ++ t :: lexs) before.length).toList ++
        fieldsBehind (before ++ [t]) lexs := by
  have hrest : ((List.range lexs.length).map (· + 1)).filterMap
      (fun j => fieldAt (before ++ t :: lexs) (before.length + j)) =
        fieldsBehind (before ++ [t]) lexs := by
    rw [List.filterMap_map, fieldsBehind]
    refine List.filterMap_congr fun j _ => ?_
    rw [Function.comp_apply, List.append_assoc, List.singleton_append, List.length_append,
      List.length_singleton, Nat.add_assoc, Nat.add_comm 1 j]
  rw [fieldsBehind, List.length_cons, List.range_succ_eq_map, List.filterMap_cons, Nat.add_zero,
    hrest]
  cases fieldAt (before ++ t :: lexs) before.length <;> rfl

/-- **The walk takes the fields.** Where it stands, an even number of names is in a row. -/
theorem taken_eq_fieldsBehind {before : List Lexeme} (i : ℕ) (lexs : List Lexeme)
    (hrow : Even (namesInRow before)) :
    (taken i lexs).map (fun x => (x.key, x.value)) = fieldsBehind before lexs := by
  fun_induction taken i lexs generalizing before with
  | case1 i t value rest ht ih =>
      have hname : ¬ t.IsName := fun h => ht h.1
      rw [fieldsBehind_cons, fieldAt_length, if_neg fun h => ht h.1]
      exact ih (by rw [namesInRow_concat, if_neg hname]; exact Even.zero)
  | case2 i t value rest ht key hkey ih =>
      rw [packetKey_eq] at hkey
      have hname : t.IsName := ⟨not_not.mp ht, by simp [hkey]⟩
      have hodd : ¬ Even (namesInRow (before ++ [t])) := by
        rw [namesInRow_concat, if_pos hname, Nat.even_add_one]
        exact not_not.mpr hrow
      have heven : Even (namesInRow (before ++ [t] ++ [value])) := by
        rw [namesInRow_concat]
        split_ifs
        · exact Nat.even_add_one.mpr hodd
        · exact Even.zero
      have hvalue : fieldAt (before ++ [t] ++ value :: rest) (before ++ [t]).length = none := by
        cases rest with
        | nil => exact fieldAt_last _ _
        | cons u rest => rw [fieldAt_length, if_neg fun h => hodd h.2]
      rw [fieldsBehind_cons, fieldAt_length, if_pos ⟨not_not.mp ht, hrow⟩, fieldsBehind_cons,
        hvalue, hkey, List.map_cons, ih heven]
      rfl
  | case3 i t value rest ht hkey ih =>
      rw [packetKey_eq] at hkey
      have hname : ¬ t.IsName := fun h => h.2 hkey
      rw [fieldsBehind_cons, fieldAt_length, hkey, Option.map_none, ite_self]
      exact ih (by rw [namesInRow_concat, if_neg hname]; exact Even.zero)
  | case4 lexs i hshort =>
      rcases lexs with - | ⟨t, - | ⟨value, rest⟩⟩
      · rfl
      · rw [fieldsBehind_cons, fieldAt_last]
        rfl
      · exact absurd rfl (hshort t value rest)

/-- **The second pass takes the fields** of a text for its keys. -/
theorem fieldsOf_eq_taken (lexs : List Lexeme) :
    fieldsOf lexs = (taken 0 lexs).map fun x => (x.key, x.value) := by
  have hrow : Even (namesInRow []) := Even.zero
  rw [taken_eq_fieldsBehind 0 lexs hrow, fieldsBehind, fieldsOf]
  simp

/-- The values of fields are read as numbers by a function. -/
theorem exists_number :
    ∃ number : Bytes → Option ℤ, ∀ text v, number text = some v ↔ ValueNumber text v :=
  ⟨fun text => tokenToInt ⟨.string, text⟩, fun text v => tokenToInt_iff ⟨.string, text⟩ v⟩

/-- **What fields mean** is what the second pass makes of them. -/
theorem fieldsMean_iff (fs : List Field) (calls : List BizCall) :
    FieldsMean fs calls ↔ calls = fieldCalls fs := by
  have hcalls : ∀ {number : Bytes → Option ℤ},
      (∀ text v, number text = some v ↔ ValueNumber text v) →
        callsOf number fs = fieldCalls fs := by
    intro number hnumber
    have hread : ∀ tok, number tok.text = tokenToInt tok := fun tok =>
      Option.ext fun v => (hnumber _ v).trans (tokenToInt_iff tok v).symm
    rw [callsOf, fieldCalls, List.filterMap_eq_flatMap_toList]
    congr 1
    refine List.flatMap_congr fun f _ => ?_
    rw [fieldCall]
    cases f.1 with
    | control c => exact congrArg (fun o => (Option.map (BizCall.set c) o).toList) (hread f.2)
    | ssid | pass | device | time => rfl
  constructor
  · rintro ⟨number, hnumber⟩
    exact hcalls hnumber
  · rintro rfl
    obtain ⟨number, hnumber⟩ := exists_number
    rw [← hcalls hnumber]
    exact .intro number hnumber

/-! ### The JSON pass -/

variable {text : Bytes} {lexs : List Lexeme}

/-- The text behind the whitespace has no NUL, either. -/
theorem zero_notMem_coreOf (h0 : 0 ∉ text) : 0 ∉ coreOf text :=
  fun h => h0 ((List.dropWhile_suffix _).subset h)

/-- The fields are gathered one after the other. -/
theorem secondPass_eq_gatherFields (lexs : List Lexeme) (g : Gather) :
    secondPass lexs g = gatherFields g (fieldsOf lexs) := by
  rw [secondPass_eq_foldl 0, gatherFields, fieldsOf_eq_taken, List.foldl_map]

/-- The value of a field is a token. -/
theorem mem_of_mem_fieldsOf {f : Field} (h : f ∈ fieldsOf lexs) : f.2 ∈ lexs := by
  rw [fieldsOf_eq_taken] at h
  obtain ⟨x, hx, rfl⟩ := List.mem_map.mp h
  obtain ⟨before, t, after, hsplit, -⟩ := mem_taken hx
  rw [hsplit]
  simp

/-- The tokens of a text without NUL have none. -/
theorem zero_notMem_of_looseText (h0 : 0 ∉ text) (h : LooseText text lexs) :
    ∀ t ∈ lexs, 0 ∉ t.text := by
  obtain ⟨toks, -, rfl⟩ := (jsmnParse_ok_iff (n := lexs.length) h0 lexs).mpr ⟨h, le_refl _⟩
  intro t ht hz
  obtain ⟨tok, -, rfl⟩ := List.mem_map.mp ht
  exact h0 (List.mem_of_mem_drop (List.mem_of_mem_take hz))

/-- **A text with a reading as JSON** makes the calls of its fields. -/
theorem jsonPass_of_reading (h0 : 0 ∉ text) (h : JsonReading text lexs) :
    (jsonPass text).1 = fieldCalls (fieldsOf lexs) := by
  have h0' := zero_notMem_coreOf h0
  obtain ⟨toks, hparse, hlex⟩ := (jsmnParse_ok_iff h0' lexs).mpr ⟨h.loose, h.room⟩
  have hfields : (finishJson (secondPass lexs {})).1 = fieldCalls (fieldsOf lexs) := by
    rw [secondPass_eq_gatherFields]
    refine finishJson_gathered (gatheredFields fun f hf => ?_)
    exact zero_notMem_of_looseText h0' h.loose _ (mem_of_mem_fieldsOf hf)
  rw [← hfields, jsonPass, ← coreOf, if_pos h.opens, parserHandlePacketJson, hparse]
  dsimp only
  rw [List.take_length, hlex]
  split_ifs with hnone
  · obtain rfl := List.length_eq_zero_iff.mp hnone
    rw [← hlex]
    rfl
  · rfl

/-- **A text without a reading as JSON** makes no call as JSON. -/
theorem jsonPass_of_no_reading (h0 : 0 ∉ text) (h : ∀ lexs, ¬ JsonReading text lexs) :
    (jsonPass text).1 = [] := by
  rw [jsonPass, ← coreOf]
  split_ifs with hopens
  · rw [parserHandlePacketJson]
    cases hparse : jsmnParse (coreOf text) jsmnTokenMax with
    | error e => rfl
    | ok rt =>
        obtain ⟨r, toks⟩ := rt
        have hcount := count_jsmnParse hparse
        rw [hcount] at hparse
        obtain ⟨hloose, hroom⟩ :=
          (jsmnParse_ok_iff (zero_notMem_coreOf h0) _).mp ⟨toks, hparse, rfl⟩
        exact absurd ⟨hopens, hloose, hroom⟩ (h _)
  · rfl

/-- A text has no more than one reading as JSON. -/
theorem JsonReading.unique (h0 : 0 ∉ text) {lexs' : List Lexeme} (h : JsonReading text lexs)
    (h' : JsonReading text lexs') : lexs = lexs' := by
  have h0' := zero_notMem_coreOf h0
  obtain ⟨toks, hparse, rfl⟩ := (jsmnParse_ok_iff h0' lexs).mpr ⟨h.loose, h.room⟩
  obtain ⟨toks', hparse', rfl⟩ := (jsmnParse_ok_iff h0' lexs').mpr ⟨h'.loose, h'.room⟩
  rw [(Prod.mk.inj (Except.ok.inj (hparse.symm.trans hparse'))).2]

/-! ### The meaning -/

/-- **What a packet means.** Whatever a buffer holds, in whatever format: the parser makes the
calls that the text in it means, in that order, and no others. -/
theorem packet_means {n : ℕ} (buf : Vector UInt8 n) (calls : List BizCall) :
    (parserHandlePacket (cstr buf)).calls = calls ↔ PacketMeans (cstr buf) calls := by
  have h0 := zero_notMem_cstr buf
  generalize cstr buf = text at h0
  by_cases hcalls : (jsonPass text).1 = []
  · rw [parserHandlePacket_of_nil hcalls, PacketResult.calls, List.nil_append, legacyPass_iff h0]
    have hno : ∀ lexs, JsonReading text lexs → fieldCalls (fieldsOf lexs) = [] :=
      fun lexs hread => (jsonPass_of_reading h0 hread).symm.trans hcalls
    constructor
    · exact .legacy fun lexs hread => (fieldsMean_iff _ _).mpr (hno lexs hread).symm
    · intro h
      cases h with
      | json hread h hne => exact absurd (((fieldsMean_iff _ _).mp h).trans (hno _ hread)) hne
      | legacy _ h => exact h
  · rw [parserHandlePacket_of_ne_nil hcalls, PacketResult.calls, List.append_nil]
    obtain ⟨lexs, hread⟩ : ∃ lexs, JsonReading text lexs := by
      by_contra hno
      exact hcalls (jsonPass_of_no_reading h0 (not_exists.mp hno))
    have hjson := jsonPass_of_reading h0 hread
    rw [hjson] at hcalls ⊢
    constructor
    · rintro rfl
      exact .json hread ((fieldsMean_iff _ _).mpr rfl) hcalls
    · intro h
      cases h with
      | json hread' h _ => rw [hread.unique h0 hread', (fieldsMean_iff _ _).mp h]
      | legacy hno _ => exact absurd ((fieldsMean_iff _ _).mp (hno lexs hread)).symm hcalls

/-- A command that is too large, behind one without digits. -/
example : (parserHandlePacket (ascii "Angle:- Speed = 99999999999")).calls =
    [.set .rpm (2 ^ 31 - 1), .set .angle 0] := by
  decide +kernel

/-- An object that says nothing is read once more. -/
example : (parserHandlePacket (ascii "[Speed:7]")).calls = [.set .rpm 7] := by
  decide +kernel

end AirShifter
