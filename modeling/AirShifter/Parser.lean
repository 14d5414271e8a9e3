import AirShifter.BizLogix
import AirShifter.Jsmn

/-!
# The Packet Parser

The packet parser `parser.c`: a packet that starts with a bracket is tokenized as JSON and
its members are walked; if that makes no call, the same text is searched for the fields
of the older text format. The parser acts through calls into the business logic, and the
model returns these calls in order, those of the JSON pass and those of the legacy pass
apart.

The helpers read a token only through its type and its text, so they get a `Lexeme`. The
first pass over the tokens has no effect and is left out, as are the two fields the second
pass stores and nobody reads (`parsed_device` and `parsed_ts`); their keys stay, since the
pass skips their values. The connection handle is not used by the parser.

## Main results

* `packet_once`: a packet is interpreted by one of the two passes, with at most one
  credential, and the returned flag tells whether it made a call.
* `fitting_of_packet`: the credentials of a packet are made from strings that fit.
-/

open CBytes

namespace AirShifter

/-! ### Token helpers -/

/-- `token_equals_key`: equality up to letter case. -/
def tokenEqualsKey (tok : Lexeme) (key : Bytes) : Bool :=
  if tok.text.length ≠ key.length then false
  else (tok.text.zip key).all fun p => tolower p.1 == tolower p.2

/-- `token_to_cstr`. -/
def tokenToCstr {n : ℕ} (tok : Lexeme) (out : Vector UInt8 n) : Vector UInt8 n :=
  let len := tok.text.length
  let len := if len ≥ n then n - 1 else len
  memcpy (memcpy out 0 (tok.text.take len)) len [0]

/-- `token_to_int`; `none` is the return value 0. -/
def tokenToInt (tok : Lexeme) : Option ℤ :=
  let len := tok.text.length
  if len = 0 ∨ len ≥ 32 then none
  else
    let p := tok.text.dropWhile isspace
    if p = [] then none else strtol10 p

/-! ### The JSON pass -/

/-- `JSMN_TOKEN_MAX`. -/
abbrev jsmnTokenMax : ℕ := 128

/-- What a key of the second pass stands for. -/
inductive PacketKey
  | ssid
  | pass
  | control (c : Control)
  | device
  | time
  deriving DecidableEq

/-- The comparisons of the second pass, in order. -/
def packetKey (tok : Lexeme) : Option PacketKey :=
  if tokenEqualsKey tok (ascii "ssid") || tokenEqualsKey tok (ascii "SSID") ||
      tokenEqualsKey tok (ascii "wifi") || tokenEqualsKey tok (ascii "Wifi") then some .ssid
  else if tokenEqualsKey tok (ascii "pass") || tokenEqualsKey tok (ascii "PASS") ||
      tokenEqualsKey tok (ascii "password") || tokenEqualsKey tok (ascii "pwd") then some .pass
  else if tokenEqualsKey tok (ascii "speed") || tokenEqualsKey tok (ascii "Speed") then
    some (.control .rpm)
  else if tokenEqualsKey tok (ascii "angle") || tokenEqualsKey tok (ascii "Angle") then
    some (.control .angle)
  else if tokenEqualsKey tok (ascii "light") || tokenEqualsKey tok (ascii "Light") then
    some (.control .light)
  else if tokenEqualsKey tok (ascii "power") || tokenEqualsKey tok (ascii "Power") then
    some (.control .power)
  else if tokenEqualsKey tok (ascii "device") || tokenEqualsKey tok (ascii "device_id") ||
      tokenEqualsKey tok (ascii "id") then some .device
  else if tokenEqualsKey tok (ascii "ts") || tokenEqualsKey tok (ascii "time") ||
      tokenEqualsKey tok (ascii "epoch") then some .time
  else none

/-- The local variables of the second pass, and the calls it has made. -/
structure Gather where
  foundSsid : Vector UInt8 (wifiSsidMaxLen + 1) := Vector.replicate _ 0
  foundPass : Vector UInt8 (wifiPassMaxLen + 1) := Vector.replicate _ 0
  gotSsid : Bool := false
  gotPass : Bool := false
  handled : Bool := false
  calls : List BizCall := []
  deriving DecidableEq

/-- What the second pass does with the value of a key it knows. -/
def gatherValue (g : Gather) (key : PacketKey) (val : Lexeme) : Gather :=
  match key with
  | .ssid =>
    let found := tokenToCstr val g.foundSsid
    { g with foundSsid := found, gotSsid := if found[0] ≠ 0 then true else g.gotSsid }
  | .pass =>
    let found := tokenToCstr val g.foundPass
    { g with foundPass := found, gotPass := if found[0] ≠ 0 then true else g.gotPass }
  | .control c =>
    match tokenToInt val with
    | none => g
    | some v => { g with calls := g.calls ++ [.set c v], handled := true }
  | .device | .time => g

/-- The second pass over the tokens. Any string that is not the last token is tried as a
key; the value behind a known key is skipped, the token behind an unknown one is not. -/
def secondPass : List Lexeme → Gather → Gather
  | t :: val :: rest, g =>
    if t.type ≠ .string then secondPass (val :: rest) g
    else
      match packetKey t with
      | some key => secondPass rest (gatherValue g key val)
      | none => secondPass (val :: rest) g
  | _, g => g

/-- The credential built at the end of the JSON pass. -/
def jsonCred (g : Gather) : WifiCredentials :=
  let cred : WifiCredentials := {}
  let cred := { cred with ssid := strncpy cred.ssid (cstr g.foundSsid) wifiSsidMaxLen }
  let cred := { cred with ssidLen := UInt8.ofNat (cstr cred.ssid).length }
  if g.gotPass then
    let cred := { cred with pass := strncpy cred.pass (cstr g.foundPass) wifiPassMaxLen }
    { cred with passLen := UInt8.ofNat (cstr cred.pass).length }
  else { cred with passLen := 0, pass := memcpy cred.pass 0 [0] }

/-- The end of the JSON pass: one credential if an SSID was found. -/
def finishJson (g : Gather) : List BizCall × Bool :=
  if g.gotSsid then (g.calls ++ [.applyWifiCredentials (jsonCred g)], true)
  else (g.calls, g.handled)

/-- `parser_handle_packet_json`: the calls it makes and the value it returns. -/
def parserHandlePacketJson (buf : Bytes) : List BizCall × Bool :=
  match jsmnParse buf jsmnTokenMax with
  | .error _ => ([], false)
  | .ok (r, toks) =>
    if r = 0 then ([], false)
    else finishJson (secondPass ((toks.take r).map fun t => t.span.lexeme buf) {})

/-! ### The legacy pass -/

/-- The bytes between a legacy key and its value. -/
def isFieldSep (b : UInt8) : Bool :=
  b == 58 || b == 61 || isspace b

/-- The copy at the end of `legacy_extract_str_field`, for the text from the value on: up
to the closing quote of a quoted value, up to a comma or whitespace otherwise. -/
def legacyCopyValue {n : ℕ} (pos : Bytes) (out : Vector UInt8 n) : Vector UInt8 n × ℕ :=
  match pos with
  | [] => copyLoop (fun b => b != 44 && !isspace b) [] 0 out
  | q :: rest =>
    if q = 34 ∨ q = 39 then copyLoop (fun b => b != q) rest 0 out
    else copyLoop (fun b => b != 44 && !isspace b) (q :: rest) 0 out

/-- `legacy_extract_str_field`: the buffer it leaves and the value it returns. -/
def legacyExtractStrField {n : ℕ} (src key : Bytes) (out : Vector UInt8 n) :
    Vector UInt8 n × Bool :=
  match strstr src key with
  | none => (out, false)
  | some pos =>
    let r := legacyCopyValue ((pos.drop key.length).dropWhile isFieldSep) out
    (r.1, decide (r.2 > 0))

/-- `legacy_extract_int_field`; `none` is the return value `false`. -/
def legacyExtractIntField (src key : Bytes) : Option ℤ :=
  match strstr src key with
  | none => none
  | some pos =>
    match (pos.drop key.length).dropWhile isFieldSep with
    | [] => none
    | b :: rest => if !isdigit b && b != 45 then none else some (atoi (b :: rest))

/-- Extraction under the first of several keys that yields a value, into one buffer. -/
def legacyExtractFirst {n : ℕ} (src : Bytes) :
    List Bytes → Vector UInt8 n → Vector UInt8 n × Bool
  | [], out => (out, false)
  | key :: keys, out =>
    let r := legacyExtractStrField src key out
    if r.2 then r else legacyExtractFirst src keys r.1

/-- The keys of the SSID, in the order they are tried. -/
def ssidKeys : List Bytes :=
  [ascii "SSID", ascii "ssid", ascii "Wifi", ascii "wifi"]

/-- The keys of the password, in the order they are tried. -/
def passKeys : List Bytes :=
  [ascii "PASS", ascii "Pass", ascii "pass", ascii "password"]

/-- The legacy Wi-Fi branch: the credential it applies, if it finds an SSID. -/
def legacyWifi (buf : Bytes) : Option WifiCredentials :=
  if (strstr buf (ascii "Wifi")).isSome || (strstr buf (ascii "SSID")).isSome ||
      (strstr buf (ascii "ssid")).isSome then
    let cred : WifiCredentials := {}
    let ssid := legacyExtractFirst buf ssidKeys (Vector.replicate (wifiSsidMaxLen + 1) 0)
    let pass := legacyExtractFirst buf passKeys (Vector.replicate (wifiPassMaxLen + 1) 0)
    if ssid.2 then
      let cred := { cred with ssid := strncpy cred.ssid (cstr ssid.1) wifiSsidMaxLen }
      let cred := { cred with ssidLen := UInt8.ofNat (cstr cred.ssid).length }
      if pass.2 then
        let cred := { cred with pass := strncpy cred.pass (cstr pass.1) wifiPassMaxLen }
        some { cred with passLen := UInt8.ofNat (cstr cred.pass).length }
      else some cred
    else none
  else none

/-- The two spellings of a legacy control key. -/
def legacyKeys : Control → Bytes × Bytes
  | .rpm => (ascii "Speed", ascii "speed")
  | .angle => (ascii "Angle", ascii "angle")
  | .light => (ascii "Light", ascii "light")
  | .power => (ascii "Power", ascii "power")

/-- The number that the legacy pass reads for a control, under the first spelling that has
one. -/
def legacyNumber (buf : Bytes) (c : Control) : Option ℤ :=
  (legacyExtractIntField buf (legacyKeys c).1).or (legacyExtractIntField buf (legacyKeys c).2)

/-- The calls of one legacy control branch. -/
def legacyControl (buf : Bytes) (c : Control) : List BizCall :=
  match (legacyExtractIntField buf (legacyKeys c).1).or
      (legacyExtractIntField buf (legacyKeys c).2) with
  | none => []
  | some val => [.set c val]

/-- One control branch, with the calls and the flag of the branches before it: if there is a
number, the setter is called and the packet is handled. -/
def controlBranch (number : Control → Option ℤ) (done : List BizCall × Bool) (c : Control) :
    List BizCall × Bool :=
  match number c with
  | none => done
  | some val => (done.1 ++ [.set c val], true)

/-- The control branches, one after the other. -/
def controlBranches (number : Control → Option ℤ) : List BizCall × Bool :=
  let done := controlBranch number ([], false) .rpm
  let done := controlBranch number done .angle
  let done := controlBranch number done .light
  controlBranch number done .power

/-! ### The entry point -/

/-- The two formats of a packet. -/
inductive PacketFormat
  | json | legacy

/-- What handling a packet does: the calls of the two passes and the returned flag. -/
structure PacketResult where
  jsonCalls : List BizCall
  legacyCalls : List BizCall
  handled : Bool
  deriving DecidableEq

/-- All calls a packet causes, in order. -/
def PacketResult.calls (r : PacketResult) : List BizCall :=
  r.jsonCalls ++ r.legacyCalls

/-- The JSON part of `parser_handle_packet`: skip leading whitespace, and parse as JSON what
looks like it. -/
def jsonPass (buf : Bytes) : List BizCall × Bool :=
  let p := buf.dropWhile isspace
  if p.head? = some 123 ∨ p.head? = some 91 then parserHandlePacketJson p
  else ([], false)

/-- The legacy part of `parser_handle_packet`: credentials, or else control commands. -/
def legacyPass (buf : Bytes) : List BizCall × Bool :=
  match legacyWifi buf with
  | some cred => ([.applyWifiCredentials cred], true)
  | none => controlBranches (legacyNumber buf)

/-- `parser_handle_packet`. -/
def parserHandlePacket (buf : Bytes) : PacketResult :=
  let json := jsonPass buf
  if json.2 then ⟨json.1, [], true⟩
  else
    let legacy := legacyPass buf
    ⟨json.1, legacy.1, legacy.2⟩

/-! ### Each packet is interpreted once -/

/-- The call applies a credential. -/
def BizCall.isApply : BizCall → Bool
  | .set _ _ => false
  | .applyWifiCredentials _ => true

/-- The calls of the second pass set controls, and its flag tells whether there are any. -/
structure Gather.Ok (g : Gather) : Prop where
  handled : g.handled = true ↔ g.calls ≠ []
  set : ∀ call ∈ g.calls, call.isApply = false

/-- At the start there are no calls. -/
theorem Gather.ok_empty : Gather.Ok {} :=
  ⟨by simp, by simp⟩

/-- **One key** keeps the flag honest. -/
theorem Gather.Ok.gatherValue {g : Gather} (hg : g.Ok) (key : PacketKey) (val : Lexeme) :
    (gatherValue g key val).Ok := by
  cases key with
  | ssid =>
      dsimp only [AirShifter.gatherValue]
      exact ⟨hg.handled, hg.set⟩
  | pass =>
      dsimp only [AirShifter.gatherValue]
      exact ⟨hg.handled, hg.set⟩
  | device | time => exact hg
  | control c =>
      rw [AirShifter.gatherValue]
      cases tokenToInt val with
      | none => exact hg
      | some v =>
          refine ⟨by simp, fun call hcall => ?_⟩
          rcases List.mem_append.mp hcall with hcall | hcall
          · exact hg.set call hcall
          · rw [List.mem_singleton.mp hcall]
            rfl

/-- **The second pass** keeps the flag honest. -/
theorem Gather.Ok.secondPass {g : Gather} (hg : g.Ok) (toks : List Lexeme) :
    (secondPass toks g).Ok := by
  fun_induction AirShifter.secondPass toks g with
  | case1 t val rest g ht ih => exact ih hg
  | case2 t val rest g ht key hkey ih => exact ih (hg.gatherValue key val)
  | case3 t val rest g ht hkey ih => exact ih hg
  | case4 toks g hshort => exact hg

/-- Control commands apply no credential. -/
theorem countP_isApply_eq_zero {calls : List BizCall} (h : ∀ call ∈ calls, call.isApply = false) :
    calls.countP BizCall.isApply = 0 := by
  rw [List.countP_eq_zero]
  intro call hcall
  rw [h call hcall]
  exact Bool.false_ne_true

/-- The JSON pass returns whether it made a call, and applies at most one credential. -/
theorem parserHandlePacketJson_once (buf : Bytes) :
    ((parserHandlePacketJson buf).2 = true ↔ (parserHandlePacketJson buf).1 ≠ []) ∧
      (parserHandlePacketJson buf).1.countP BizCall.isApply ≤ 1 := by
  rw [parserHandlePacketJson]
  cases jsmnParse buf jsmnTokenMax with
  | error e => exact ⟨by simp, by simp⟩
  | ok rt =>
      obtain ⟨r, toks⟩ := rt
      dsimp only
      split_ifs with hr
      · exact ⟨by simp, by simp⟩
      · have hok := Gather.ok_empty.secondPass ((toks.take r).map fun t => t.span.lexeme buf)
        generalize secondPass _ {} = g at hok
        have hcount := countP_isApply_eq_zero hok.set
        rw [finishJson]
        split_ifs
        · refine ⟨by simp, ?_⟩
          rw [List.countP_append, hcount]
          exact le_refl 1
        · exact ⟨hok.handled, by rw [hcount]; exact Nat.zero_le 1⟩

/-- The JSON part returns whether it made a call, and applies at most one credential. -/
theorem jsonPass_once (buf : Bytes) :
    ((jsonPass buf).2 = true ↔ (jsonPass buf).1 ≠ []) ∧
      (jsonPass buf).1.countP BizCall.isApply ≤ 1 := by
  rw [jsonPass]
  split_ifs
  · exact parserHandlePacketJson_once _
  · exact ⟨by simp, by simp⟩

/-- A packet with calls of the JSON pass is not read as legacy text. -/
theorem parserHandlePacket_of_ne_nil {buf : Bytes} (h : (jsonPass buf).1 ≠ []) :
    parserHandlePacket buf = ⟨(jsonPass buf).1, [], true⟩ := by
  rw [parserHandlePacket]
  exact if_pos ((jsonPass_once buf).1.mpr h)

/-- A packet without calls of the JSON pass is read as legacy text. -/
theorem parserHandlePacket_of_nil {buf : Bytes} (h : (jsonPass buf).1 = []) :
    parserHandlePacket buf = ⟨[], (legacyPass buf).1, (legacyPass buf).2⟩ := by
  rw [parserHandlePacket, h]
  exact if_neg fun hflag => (jsonPass_once buf).1.mp hflag h

/-- A branch adds its call, if it has a number. -/
theorem controlBranch_fst (number : Control → Option ℤ) (done : List BizCall × Bool)
    (c : Control) : (controlBranch number done c).1 =
      done.1 ++ ((number c).map (BizCall.set c)).toList := by
  rw [controlBranch]
  cases number c with
  | none => exact (List.append_nil _).symm
  | some val => rfl

/-- **A branch keeps the flag honest**: it is set exactly if there is a call. -/
theorem controlBranch_flag {number : Control → Option ℤ} {done : List BizCall × Bool}
    (h : done.2 = true ↔ done.1 ≠ []) (c : Control) :
    (controlBranch number done c).2 = true ↔ (controlBranch number done c).1 ≠ [] := by
  rw [controlBranch]
  cases number c with
  | none => exact h
  | some val => exact iff_of_true rfl (by simp)

/-- The flag of the branches tells whether one of them made a call. -/
theorem controlBranches_flag (number : Control → Option ℤ) :
    (controlBranches number).2 = true ↔ (controlBranches number).1 ≠ [] :=
  controlBranch_flag
    (controlBranch_flag (controlBranch_flag (controlBranch_flag (by simp) .rpm) .angle) .light)
    .power

/-- The calls of the branches, in order. -/
theorem controlBranches_fst (number : Control → Option ℤ) : (controlBranches number).1 =
    ((number .rpm).map (BizCall.set .rpm)).toList ++
      ((number .angle).map (BizCall.set .angle)).toList ++
      ((number .light).map (BizCall.set .light)).toList ++
      ((number .power).map (BizCall.set .power)).toList := by
  simp only [controlBranches, controlBranch_fst, List.nil_append]

/-- The call of a branch is that of its number. -/
theorem legacyControl_eq_toList (buf : Bytes) (c : Control) :
    legacyControl buf c = ((legacyNumber buf c).map (BizCall.set c)).toList := by
  rw [legacyControl, ← legacyNumber]
  cases legacyNumber buf c <;> rfl

/-- A control branch applies no credential. -/
theorem isApply_legacyControl {buf : Bytes} {c : Control} :
    ∀ call ∈ legacyControl buf c, call.isApply = false := by
  intro call hcall
  rw [legacyControl] at hcall
  split at hcall
  · exact absurd hcall List.not_mem_nil
  · rw [List.mem_singleton.mp hcall]
    rfl

/-- Without a credential the legacy part makes the calls of the control branches. -/
theorem legacyPass_of_none {buf : Bytes} (h : legacyWifi buf = none) : (legacyPass buf).1 =
    legacyControl buf .rpm ++ legacyControl buf .angle ++ legacyControl buf .light ++
      legacyControl buf .power := by
  rw [legacyPass, h]
  dsimp only
  simp only [controlBranches_fst, legacyControl_eq_toList]

/-- The legacy part returns whether it made a call, and its calls are one credential or
only control commands. -/
theorem legacyPass_once (buf : Bytes) :
    ((legacyPass buf).2 = true ↔ (legacyPass buf).1 ≠ []) ∧
      ((∃ cred, (legacyPass buf).1 = [.applyWifiCredentials cred]) ∨
        ∀ call ∈ (legacyPass buf).1, call.isApply = false) := by
  cases hwifi : legacyWifi buf with
  | some cred =>
      rw [legacyPass, hwifi]
      exact ⟨by simp, Or.inl ⟨cred, rfl⟩⟩
  | none =>
      refine ⟨?_, Or.inr ?_⟩
      · rw [legacyPass, hwifi]
        exact controlBranches_flag _
      · rw [legacyPass_of_none hwifi]
        simp only [List.mem_append]
        rintro call (((hcall | hcall) | hcall) | hcall) <;> exact isApply_legacyControl call hcall

/-- **Each packet is interpreted once, and the flag tells the truth.** The flag is the
presence of a call; the legacy pass is silent if the JSON pass made a call; at most one
credential is applied; and a credential of the legacy pass comes alone. -/
theorem packet_once (buf : Bytes) :
    ((parserHandlePacket buf).handled = true ↔ (parserHandlePacket buf).calls ≠ []) ∧
      ((parserHandlePacket buf).jsonCalls ≠ [] → (parserHandlePacket buf).legacyCalls = []) ∧
      (parserHandlePacket buf).calls.countP BizCall.isApply ≤ 1 ∧
      ((∃ call ∈ (parserHandlePacket buf).legacyCalls, call.isApply = true) →
        ∀ call ∈ (parserHandlePacket buf).calls, call.isApply = true) := by
  obtain ⟨hjson, hcount⟩ := jsonPass_once buf
  obtain ⟨hlegacy, hcalls⟩ := legacyPass_once buf
  rw [parserHandlePacket]
  generalize jsonPass buf = json at hjson hcount
  generalize legacyPass buf = legacy at hlegacy hcalls
  obtain ⟨calls, flag⟩ := json
  cases flag with
  | true =>
      have hne : calls ≠ [] := hjson.mp rfl
      simp only [PacketResult.calls, if_true, List.append_nil, List.not_mem_nil, false_and,
        exists_false, false_implies, and_true]
      exact ⟨⟨fun _ => hne, fun _ => trivial⟩, fun _ => trivial, hcount⟩
  | false =>
      obtain rfl : calls = [] := by
        by_contra hne
        exact absurd (hjson.mpr hne) Bool.false_ne_true
      simp only [PacketResult.calls, Bool.false_eq_true, if_false, List.nil_append]
      refine ⟨hlegacy, fun h => absurd rfl h, ?_, ?_⟩
      · rcases hcalls with ⟨cred, hcred⟩ | hset
        · rw [hcred]
          exact le_refl 1
        · rw [countP_isApply_eq_zero hset]
          exact Nat.zero_le 1
      · rintro ⟨call, hcall, happly⟩
        rcases hcalls with ⟨cred, hcred⟩ | hset
        · rw [hcred]
          intro call hcall
          rw [List.mem_singleton.mp hcall]
          rfl
        · rw [hset call hcall] at happly
          exact absurd happly Bool.false_ne_true

/-! ### The credential of a packet -/

/-- **The credential of the JSON pass** is made from the strings in its buffers. -/
theorem jsonCred_eq_mkCred (g : Gather) :
    jsonCred g = mkCred ((cstr g.foundSsid).take wifiSsidMaxLen)
      ((if g.gotPass then cstr g.foundPass else []).take wifiPassMaxLen) := by
  have hs := zero_notMem_cstr g.foundSsid
  have hp := zero_notMem_cstr g.foundPass
  rw [jsonCred]
  split_ifs
  · rw [mkCred_take_eq hs hp]
  · rw [mkCred_take_eq hs List.not_mem_nil]
    rfl

/-- **The credential of the legacy pass** is made from the strings in its buffers, the
password empty if there is none. -/
theorem legacyWifi_eq_mkCred {buf : Bytes} {cred : WifiCredentials}
    (h : legacyWifi buf = some cred) :
    cred = mkCred
      ((cstr (legacyExtractFirst buf ssidKeys
        (Vector.replicate (wifiSsidMaxLen + 1) 0)).1).take wifiSsidMaxLen)
      ((if (legacyExtractFirst buf passKeys (Vector.replicate (wifiPassMaxLen + 1) 0)).2 then
        cstr (legacyExtractFirst buf passKeys (Vector.replicate (wifiPassMaxLen + 1) 0)).1
        else []).take wifiPassMaxLen) := by
  rw [legacyWifi] at h
  dsimp only at h
  split_ifs at h with hmentions hssid hpass
  · rw [if_pos hpass, mkCred_take_eq (zero_notMem_cstr _) (zero_notMem_cstr _)]
    exact (Option.some.inj h).symm
  · rw [if_neg hpass, mkCred_take_eq (zero_notMem_cstr _) List.not_mem_nil]
    exact (Option.some.inj h).symm

/-- The credentials applied by a list of calls. -/
def appliedCreds (calls : List BizCall) : List WifiCredentials :=
  calls.filterMap fun
    | .set _ _ => none
    | .applyWifiCredentials cred => some cred

/-- The credentials that are applied are those of the calls. -/
theorem mem_appliedCreds {calls : List BizCall} {cred : WifiCredentials} :
    cred ∈ appliedCreds calls ↔ .applyWifiCredentials cred ∈ calls := by
  rw [appliedCreds, List.mem_filterMap]
  constructor
  · rintro ⟨call, hcall, heq⟩
    cases call with
    | set c v => exact absurd heq (by simp)
    | applyWifiCredentials cred' =>
        obtain rfl := Option.some.inj heq
        exact hcall
  · exact fun h => ⟨_, h, rfl⟩

/-- Control commands have none. -/
theorem appliedCreds_eq_nil {calls : List BizCall} (h : ∀ call ∈ calls, call.isApply = false) :
    appliedCreds calls = [] := by
  rw [List.eq_nil_iff_forall_not_mem]
  intro cred hcred
  exact absurd (h _ (mem_appliedCreds.mp hcred)) (by simp [BizCall.isApply])

/-- They are counted by the calls that apply one. -/
theorem length_appliedCreds (calls : List BizCall) :
    (appliedCreds calls).length = calls.countP BizCall.isApply := by
  rw [appliedCreds, List.length_filterMap_eq_countP]
  refine List.countP_congr fun call _ => ?_
  cases call <;> simp [BizCall.isApply]

/-- The JSON pass applies the credential that was gathered. -/
theorem applied_jsonPass {buf : Bytes} {cred : WifiCredentials}
    (h : cred ∈ appliedCreds (jsonPass buf).1) : ∃ g, cred = jsonCred g := by
  have hnil : ∀ {calls : List BizCall}, calls = [] → cred ∉ appliedCreds calls := by
    rintro calls rfl
    exact List.not_mem_nil
  rw [jsonPass] at h
  split_ifs at h
  · rw [parserHandlePacketJson] at h
    cases hparse : jsmnParse (buf.dropWhile isspace) jsmnTokenMax with
    | error e =>
        rw [hparse] at h
        exact absurd h (hnil rfl)
    | ok rt =>
        obtain ⟨r, toks⟩ := rt
        rw [hparse] at h
        dsimp only at h
        split_ifs at h with hr
        · exact absurd h (hnil rfl)
        · have hok := Gather.ok_empty.secondPass
            ((toks.take r).map fun t => t.span.lexeme (buf.dropWhile isspace))
          generalize secondPass _ {} = g at hok h
          have hset := appliedCreds_eq_nil hok.set
          rw [finishJson] at h
          split_ifs at h
          · refine ⟨g, ?_⟩
            rw [appliedCreds, List.filterMap_append, ← appliedCreds, hset] at h
            exact List.mem_singleton.mp h
          · rw [hset] at h
            exact absurd h List.not_mem_nil
  · exact absurd h (hnil rfl)

/-- The legacy pass applies the credential of its Wi-Fi branch. -/
theorem appliedCreds_legacyPass (buf : Bytes) :
    appliedCreds (legacyPass buf).1 = (legacyWifi buf).toList := by
  cases hwifi : legacyWifi buf with
  | some cred =>
      rw [legacyPass, hwifi]
      rfl
  | none =>
      refine appliedCreds_eq_nil fun call hcall => ?_
      rw [legacyPass_of_none hwifi] at hcall
      simp only [List.mem_append] at hcall
      rcases hcall with ((hcall | hcall) | hcall) | hcall <;> exact isApply_legacyControl call hcall

/-- A packet in which the JSON pass finds nothing applies the credential of the legacy
Wi-Fi branch. -/
theorem appliedCreds_of_nil {buf : Bytes} (h : (jsonPass buf).1 = []) :
    appliedCreds (parserHandlePacket buf).calls = (legacyWifi buf).toList := by
  rw [parserHandlePacket_of_nil h, PacketResult.calls, List.nil_append, appliedCreds_legacyPass]

/-- **The credentials of a packet fit**, whatever the packet is. -/
theorem fitting_of_packet {buf : Bytes} {cred : WifiCredentials}
    (h : cred ∈ appliedCreds (parserHandlePacket buf).calls) : cred.Fitting := by
  have hp : ∀ {n : ℕ} (got : Bool) (v : Vector UInt8 n), 0 ∉ if got then cstr v else [] := by
    intro n got v
    cases got
    · exact List.not_mem_nil
    · exact zero_notMem_cstr v
  by_cases hjson : (jsonPass buf).1 = []
  · rw [appliedCreds_of_nil hjson, Option.mem_toList] at h
    rw [legacyWifi_eq_mkCred h]
    exact fitting_mkCred (zero_notMem_cstr _) (hp _ _)
  · rw [parserHandlePacket_of_ne_nil hjson, PacketResult.calls, List.append_nil] at h
    obtain ⟨g, rfl⟩ := applied_jsonPass h
    rw [jsonCred_eq_mkCred]
    exact fitting_mkCred (zero_notMem_cstr _) (hp _ _)

end AirShifter
