import AirShifter.CMemory
import AirShifter.TokenPool

/-!
# The Token Walk in Memory

The two passes of `parser_handle_packet_json` over the tokens once more, with the indices
they count by hand and with every access to the token array, to the text and to the local
buffers checked. A token gives its length by a conversion to `size_t`, which turns an end
before the start into a length of almost `2 ^ 32`.

The tokens of a text that is accepted lie in it, so the walk stays in range, and it does
what the passes over lexemes do.

## Main results

* `Checked.tokenEqualsKey_eq`, `Checked.tokenToCstr_eq`, `Checked.tokenToInt_eq`: the helpers
  stay in range on a token that lies in the text.
* `Checked.parserHandlePacketJson_eq`: the walk, access by access, is the walk over lexemes.
* `token_walk_in_bounds`: on every packet that is accepted all accesses are in range.
-/

open CBytes

namespace AirShifter

/-- `(size_t)(tok->end - tok->start)`. -/
def JsmnTok.len (t : JsmnTok) : ℕ :=
  ((t.stop - t.start) % 2 ^ 32).toNat

/-- The type of a token and the text its readers see. -/
def JsmnTok.lexeme (buf : Bytes) (t : JsmnTok) : Lexeme :=
  ⟨t.type, (buf.drop t.start.toNat).take t.len⟩

/-- Local arrays that are not initialised: `ssid` of the first pass and `tmp` of
`token_to_int`. -/
structure Scratch where
  ssid : Vector UInt8 (wifiSsidMaxLen + 1)
  tmp : Vector UInt8 32

/-- The local variables of the second pass. -/
structure WalkLocals extends Gather where
  parsedDevice : Vector UInt8 64 := Vector.replicate _ 0
  gotDevice : Bool := false
  parsedTs : ℤ := 0
  gotTs : Bool := false

namespace Checked

/-! ### The helpers -/

variable {n : ℕ}

/-- The loop of `token_equals_key` from index `i` on, with the rest of the key. -/
def equalsFrom (buf : Bytes) (tok : JsmnTok) : Bytes → ℕ → Option Bool
  | [], _ => some true
  | b :: key, i =>
    (load buf (tok.start + i)).bind fun a =>
      if tolower a ≠ tolower b then some false else equalsFrom buf tok key (i + 1)

/-- `token_equals_key`. -/
def tokenEqualsKey (buf : Bytes) (tok : JsmnTok) (key : Bytes) : Option Bool :=
  if tok.len ≠ key.length then some false else equalsFrom buf tok key 0

/-- `token_to_cstr`. -/
def tokenToCstr (buf : Bytes) (tok : JsmnTok) (out : Vector UInt8 n) :
    Option (Vector UInt8 n) :=
  let len := if tok.len ≥ n then n - 1 else tok.len
  let copied :=
    if len > 0 then (loadRange buf tok.start len).bind (storeRange out 0) else some out
  copied.bind fun out => store out len 0

/-- `token_to_int`; the inner `none` is the return value 0. -/
def tokenToInt (buf : Bytes) (tok : JsmnTok) (tmp : Vector UInt8 32) : Option (Option ℤ) :=
  let len := tok.len
  if len = 0 ∨ len ≥ 32 then some none
  else
    (loadRange buf tok.start len).bind fun src =>
    (storeRange tmp 0 src).bind fun tmp =>
    (store tmp len 0).bind fun tmp =>
    (loadStr tmp).bind fun s =>
      let p := s.dropWhile isspace
      if p = [] then some none else some (strtol10 p)

/-- Comparisons with several keys, up to the first one that succeeds. -/
def equalsAny (buf : Bytes) (tok : JsmnTok) : List Bytes → Option Bool
  | [] => some false
  | key :: keys =>
    (tokenEqualsKey buf tok key).bind fun hit =>
      if hit then some true else equalsAny buf tok keys

/-! ### The first pass -/

/-- What the first pass does with the value of an SSID: a credential that is dropped. -/
def gatherSsid (buf : Bytes) (val : JsmnTok) (ssid : Vector UInt8 (wifiSsidMaxLen + 1)) :
    Option Unit :=
  (tokenToCstr buf val ssid).bind fun ssid =>
    if ssid.get 0 ≠ 0 then
      let cred : WifiCredentials := {}
      (Checked.strncpy cred.ssid ssid wifiSsidMaxLen).bind fun ssid =>
      (loadStr ssid).bind fun _ => some ()
    else some ()

/-- The first pass from index `i` on. It skips the token behind every string. -/
def firstPass (buf : Bytes) (toks : List JsmnTok) (r : ℕ)
    (ssid : Vector UInt8 (wifiSsidMaxLen + 1)) (i : ℕ) : Option Unit :=
  if i < r then
    (toks[i]?).bind fun t =>
      if t.type = .string then
        if i + 1 ≥ r then firstPass buf toks r ssid (i + 1)
        else
          (toks[i + 1]?).bind fun val =>
          (equalsAny buf t [ascii "ssid", ascii "SSID"]).bind fun hit =>
          (if hit then gatherSsid buf val ssid else some ()).bind fun _ =>
            firstPass buf toks r ssid (i + 2)
      else firstPass buf toks r ssid (i + 1)
  else some ()
termination_by r - i

/-! ### The second pass -/

/-- The keys of the second pass in the order of the comparisons. -/
def keyTable : List (List Bytes × PacketKey) :=
  [([ascii "ssid", ascii "SSID", ascii "wifi", ascii "Wifi"], .ssid),
    ([ascii "pass", ascii "PASS", ascii "password", ascii "pwd"], .pass),
    ([ascii "speed", ascii "Speed"], .control .rpm),
    ([ascii "angle", ascii "Angle"], .control .angle),
    ([ascii "light", ascii "Light"], .control .light),
    ([ascii "power", ascii "Power"], .control .power),
    ([ascii "device", ascii "device_id", ascii "id"], .device),
    ([ascii "ts", ascii "time", ascii "epoch"], .time)]

/-- The first entry of a table with a key that equals the token. -/
def findKey (buf : Bytes) (tok : JsmnTok) : List (List Bytes × PacketKey) →
    Option (Option PacketKey)
  | [] => some none
  | (keys, key) :: table =>
    (equalsAny buf tok keys).bind fun hit =>
      if hit then some (some key) else findKey buf tok table

/-- What the second pass does with the value of a key it knows. -/
def gatherValue (buf : Bytes) (scratch : Scratch) (g : WalkLocals) (key : PacketKey)
    (val : JsmnTok) : Option WalkLocals :=
  match key with
  | .ssid => (tokenToCstr buf val g.foundSsid).map fun found =>
      { g with foundSsid := found, gotSsid := if found.get 0 ≠ 0 then true else g.gotSsid }
  | .pass => (tokenToCstr buf val g.foundPass).map fun found =>
      { g with foundPass := found, gotPass := if found.get 0 ≠ 0 then true else g.gotPass }
  | .control c => (tokenToInt buf val scratch.tmp).map fun
      | none => g
      | some v => { g with calls := g.calls ++ [.set c v], handled := true }
  | .device => (tokenToCstr buf val g.parsedDevice).map fun parsed =>
      { g with parsedDevice := parsed, gotDevice := if parsed.get 0 ≠ 0 then true else g.gotDevice }
  | .time => (tokenToInt buf val scratch.tmp).map fun
      | none => g
      | some v => { g with parsedTs := v, gotTs := true }

/-- The second pass from index `i` on. -/
def secondPass (buf : Bytes) (toks : List JsmnTok) (r : ℕ) (scratch : Scratch)
    (g : WalkLocals) (i : ℕ) : Option WalkLocals :=
  if i < r then
    (toks[i]?).bind fun t =>
      if t.type ≠ .string then secondPass buf toks r scratch g (i + 1)
      else if i + 1 ≥ r then secondPass buf toks r scratch g (i + 1)
      else
        (toks[i + 1]?).bind fun val =>
        (findKey buf t keyTable).bind fun
          | some key => (gatherValue buf scratch g key val).bind fun g =>
              secondPass buf toks r scratch g (i + 2)
          | none => secondPass buf toks r scratch g (i + 1)
  else some g
termination_by r - i

/-- The credential built at the end of the JSON pass. -/
def jsonCred (g : WalkLocals) : Option WifiCredentials :=
  let cred : WifiCredentials := {}
  (Checked.strncpy cred.ssid g.foundSsid wifiSsidMaxLen).bind fun ssid =>
  (loadStr ssid).bind fun ssidStr =>
    let cred := { cred with ssid := ssid, ssidLen := UInt8.ofNat ssidStr.length }
    if g.gotPass then
      (Checked.strncpy cred.pass g.foundPass wifiPassMaxLen).bind fun pass =>
      (loadStr pass).map fun passStr =>
        { cred with pass := pass, passLen := UInt8.ofNat passStr.length }
    else (store cred.pass 0 0).map fun pass => { cred with passLen := 0, pass := pass }

/-- `parser_handle_packet_json`: the calls it makes and the value it returns. -/
def parserHandlePacketJson (scratch : Scratch) (buf : Bytes) : Option (List BizCall × Bool) :=
  match jsmnParse buf jsmnTokenMax with
  | .error _ => some ([], false)
  | .ok (r, toks) =>
    if r = 0 then some ([], false)
    else
      (firstPass buf toks r scratch.ssid 0).bind fun _ =>
      (secondPass buf toks r scratch {} 0).bind fun g =>
        if g.gotSsid then
          (jsonCred g).map fun cred => (g.calls ++ [.applyWifiCredentials cred], true)
        else some (g.calls, g.handled)

/-! ### The helpers stay in range -/

end Checked

/-- A token lies in the text. -/
structure JsmnTok.Inside (buf : Bytes) (t : JsmnTok) : Prop where
  zero_le_start : 0 ≤ t.start
  start_le_stop : t.start ≤ t.stop
  stop_le : t.stop ≤ buf.length

/-- The bytes that a token reads are bytes of the text, whatever its conversions do. -/
theorem JsmnTok.Inside.range {buf : Bytes} {t : JsmnTok} (h : t.Inside buf) :
    ∃ s : ℕ, t.start = s ∧ s + t.len ≤ buf.length := by
  obtain ⟨hzero, hle, hstop⟩ := h
  refine ⟨t.start.toNat, by omega, ?_⟩
  rw [JsmnTok.len]
  omega

/-- The text of a token has the length of its range. -/
theorem JsmnTok.Inside.length_text {buf : Bytes} {t : JsmnTok} (h : t.Inside buf) :
    (t.lexeme buf).text.length = t.len := by
  obtain ⟨s, hs, hlen⟩ := h.range
  rw [JsmnTok.lexeme, hs, Int.toNat_natCast, List.length_take, List.length_drop]
  omega

/-- The text of a token has no NUL, as the packet has none. -/
theorem JsmnTok.zero_notMem_text {buf : Bytes} (h0 : 0 ∉ buf) (t : JsmnTok) :
    0 ∉ (t.lexeme buf).text :=
  fun h => h0 ((List.drop_suffix _ _).subset (List.mem_of_mem_take h))

/-- The bytes of a token can be copied. -/
theorem JsmnTok.Inside.loadRange_eq {buf : Bytes} {t : JsmnTok} (h : t.Inside buf) {len : ℕ}
    (hlen : len ≤ t.len) : loadRange buf t.start len = some ((t.lexeme buf).text.take len) := by
  obtain ⟨s, hs, hrange⟩ := h.range
  rw [JsmnTok.lexeme, hs, CBytes.loadRange_eq (by omega), Int.toNat_natCast, List.take_take,
    min_eq_left hlen]

namespace Checked

section Helpers

variable {n : ℕ} {buf : Bytes} {t : JsmnTok}

/-- The comparison stays inside the token, and ignores letter case. -/
theorem equalsFrom_eq (ht : t.Inside buf) (key : Bytes) {i : ℕ} (hi : i + key.length ≤ t.len) :
    equalsFrom buf t key i =
      some ((((t.lexeme buf).text.drop i).zip key).all fun p => tolower p.1 == tolower p.2) := by
  induction key generalizing i with
  | nil => simp [equalsFrom]
  | cons b key ih =>
      rw [List.length_cons] at hi
      obtain ⟨s, hs, hrange⟩ := ht.range
      have hlt : i < (t.lexeme buf).text.length := by
        rw [ht.length_text]
        omega
      have hbyte : load buf (t.start + i) = some (t.lexeme buf).text[i] := by
        have hcast : t.start + i = ((s + i : ℕ) : ℤ) := by
          rw [hs]
          push_cast
          rfl
        rw [hcast, load_eq (by omega)]
        simp [JsmnTok.lexeme, hs]
      rw [equalsFrom, hbyte, Option.bind_some, ih (by omega), List.drop_eq_getElem_cons hlt,
        List.zip_cons_cons, List.all_cons]
      by_cases heq : tolower (t.lexeme buf).text[i] = tolower b
      · simp [heq]
      · simp [heq]

/-- **A comparison stays in the token.** -/
theorem tokenEqualsKey_eq (ht : t.Inside buf) (key : Bytes) :
    tokenEqualsKey buf t key = some (AirShifter.tokenEqualsKey (t.lexeme buf) key) := by
  rw [tokenEqualsKey, AirShifter.tokenEqualsKey, ht.length_text]
  split_ifs with hlen
  · rfl
  · rw [equalsFrom_eq ht key (by omega), List.drop_zero]

/-- **A copy of a token** stays in the token and in the buffer. -/
theorem tokenToCstr_eq (ht : t.Inside buf) (hn : 0 < n) (out : Vector UInt8 n) :
    tokenToCstr buf t out = some (AirShifter.tokenToCstr (t.lexeme buf) out) := by
  rw [tokenToCstr, AirShifter.tokenToCstr, ht.length_text]
  generalize hlen : (if t.len ≥ n then n - 1 else t.len) = len
  have hle : len ≤ t.len ∧ len < n := by
    rw [← hlen]
    split_ifs <;> omega
  have htake : ((t.lexeme buf).text.take len).length = len := by
    rw [List.length_take, ht.length_text]
    omega
  have hcopied : (if len > 0 then (loadRange buf t.start len).bind (storeRange out 0)
      else some out) = some (memcpy out 0 ((t.lexeme buf).text.take len)) := by
    split_ifs with hpos
    · rw [ht.loadRange_eq hle.1, Option.bind_some, storeRange_eq (by omega)]
    · have hzero : len = 0 := by omega
      rw [hzero, List.take_zero, memcpy_nil]
  rw [hcopied, Option.bind_some, store_eq hle.2]

/-- The copy of a token is terminated. -/
theorem zero_mem_tokenToCstr (tok : Lexeme) (hn : 0 < n) (out : Vector UInt8 n) :
    0 ∈ (AirShifter.tokenToCstr tok out).toList := by
  rw [AirShifter.tokenToCstr]
  exact zero_mem_memcpy_nul _ (by split_ifs <;> omega)

/-- **The conversion of a token** stays in the token and in its buffer. -/
theorem tokenToInt_eq (h0 : 0 ∉ buf) (ht : t.Inside buf) (tmp : Vector UInt8 32) :
    tokenToInt buf t tmp = some (AirShifter.tokenToInt (t.lexeme buf)) := by
  rw [tokenToInt, AirShifter.tokenToInt, ht.length_text]
  dsimp only
  split_ifs with hlen hp
  · rfl
  all_goals
    have htext := ht.length_text
    have hload : loadRange buf t.start t.len = some (t.lexeme buf).text := by
      rw [ht.loadRange_eq le_rfl, List.take_of_length_le htext.le]
    have hread := loadStr_terminated tmp (t.zero_notMem_text h0) (by omega)
    rw [htext] at hread
    rw [hload, Option.bind_some, storeRange_eq (by omega), Option.bind_some, store_eq (by omega),
      Option.bind_some, hread, Option.bind_some]
  · exact if_pos hp
  · exact if_neg hp

/-- So do the comparisons with several keys. -/
theorem equalsAny_eq (ht : t.Inside buf) (keys : List Bytes) :
    equalsAny buf t keys = some (keys.any (AirShifter.tokenEqualsKey (t.lexeme buf))) := by
  induction keys with
  | nil => rfl
  | cons key keys ih =>
      rw [equalsAny, tokenEqualsKey_eq ht, Option.bind_some, ih, List.any_cons]
      cases AirShifter.tokenEqualsKey (t.lexeme buf) key <;> rfl

/-- So does the search for the key. -/
theorem findKey_eq (ht : t.Inside buf) (table : List (List Bytes × PacketKey)) :
    findKey buf t table = some ((table.find? fun e =>
      e.1.any (AirShifter.tokenEqualsKey (t.lexeme buf))).map Prod.snd) := by
  induction table with
  | nil => rfl
  | cons e table ih =>
      obtain ⟨keys, key⟩ := e
      rw [findKey, equalsAny_eq ht, Option.bind_some, ih, List.find?_cons]
      cases keys.any (AirShifter.tokenEqualsKey (t.lexeme buf)) <;> rfl

/-- The comparisons of the second pass, from the table. -/
theorem packetKey_eq_find (tok : Lexeme) : packetKey tok =
    (keyTable.find? fun e => e.1.any (AirShifter.tokenEqualsKey tok)).map Prod.snd := by
  have hcons : ∀ (e : List Bytes × PacketKey) (table : List (List Bytes × PacketKey)),
      ((e :: table).find? fun e => e.1.any (AirShifter.tokenEqualsKey tok)).map Prod.snd =
        if e.1.any (AirShifter.tokenEqualsKey tok) then some e.2
        else (table.find? fun e => e.1.any (AirShifter.tokenEqualsKey tok)).map Prod.snd := by
    intro e table
    rw [List.find?_cons]
    cases e.1.any (AirShifter.tokenEqualsKey tok) <;> rfl
  simp only [keyTable, hcons, List.any_cons, List.any_nil, Bool.or_false, List.find?_nil,
    Option.map_none, packetKey, Bool.or_assoc]

end Helpers

/-! ### The passes stay in range -/

section Passes

variable {buf : Bytes} {toks : List JsmnTok}

/-- The first pass drops its credential. -/
theorem gatherSsid_eq {val : JsmnTok} (hval : val.Inside buf)
    (ssid : Vector UInt8 (wifiSsidMaxLen + 1)) : gatherSsid buf val ssid = some () := by
  rw [gatherSsid, tokenToCstr_eq hval (Nat.succ_pos _), Option.bind_some]
  dsimp only
  split_ifs
  · have hnul := zero_mem_tokenToCstr (val.lexeme buf) (Nat.succ_pos wifiSsidMaxLen) ssid
    rw [Checked.strncpy_eq _ hnul (Nat.le_succ _), Option.bind_some, loadStr_strncpy]
    rfl
  · rfl

/-- **The first pass stays in range.** -/
theorem firstPass_eq (hin : ∀ t ∈ toks, t.Inside buf)
    (ssid : Vector UInt8 (wifiSsidMaxLen + 1)) (i : ℕ) :
    firstPass buf toks toks.length ssid i = some () := by
  induction hk : toks.length - i using Nat.strong_induction_on generalizing i with
  | _ k ih =>
      rw [firstPass]
      by_cases hi : i < toks.length
      · have hnext : ∀ j, i < j → firstPass buf toks toks.length ssid j = some () :=
          fun j hj => ih (toks.length - j) (by omega) j rfl
        rw [if_pos hi, List.getElem?_eq_getElem hi, Option.bind_some]
        by_cases htype : toks[i].type = .string
        · rw [if_pos htype]
          by_cases hlast : i + 1 ≥ toks.length
          · rw [if_pos hlast]
            exact hnext (i + 1) (by omega)
          · have hi' : i + 1 < toks.length := by omega
            rw [if_neg hlast, List.getElem?_eq_getElem hi', Option.bind_some,
              equalsAny_eq (hin _ (List.getElem_mem hi)), Option.bind_some,
              gatherSsid_eq (hin _ (List.getElem_mem hi')), ite_self, Option.bind_some]
            exact hnext (i + 2) (by omega)
        · rw [if_neg htype]
          exact hnext (i + 1) (by omega)
      · rw [if_neg hi]

/-- The two strings that the credential is made from are terminated. -/
structure Terminated (g : WalkLocals) : Prop where
  ssid : 0 ∈ g.foundSsid.toList
  pass : 0 ∈ g.foundPass.toList

/-- The buffers are cleared at the start. -/
theorem terminated_init : Terminated {} :=
  ⟨by decide, by decide⟩

/-- **Gathering a value stays in range**, and does to the variables what the pass over
lexemes does. -/
theorem gatherValue_eq (h0 : 0 ∉ buf) {val : JsmnTok} (hval : val.Inside buf) (scratch : Scratch)
    {g : WalkLocals} (hg : Terminated g) (key : PacketKey) :
    ∃ g', gatherValue buf scratch g key val = some g' ∧
      g'.toGather = AirShifter.gatherValue g.toGather key (val.lexeme buf) ∧ Terminated g' := by
  have hnul : ∀ {n} (out : Vector UInt8 (n + 1)),
      0 ∈ (AirShifter.tokenToCstr (val.lexeme buf) out).toList :=
    fun out => zero_mem_tokenToCstr (val.lexeme buf) (Nat.succ_pos _) out
  cases key with
  | ssid =>
      rw [gatherValue, tokenToCstr_eq hval (Nat.succ_pos _)]
      exact ⟨_, rfl, rfl, hnul _, hg.pass⟩
  | pass =>
      rw [gatherValue, tokenToCstr_eq hval (Nat.succ_pos _)]
      exact ⟨_, rfl, rfl, hg.ssid, hnul _⟩
  | control c =>
      rw [gatherValue, tokenToInt_eq h0 hval, AirShifter.gatherValue]
      cases AirShifter.tokenToInt (val.lexeme buf) with
      | none => exact ⟨g, rfl, rfl, hg⟩
      | some v => exact ⟨_, rfl, rfl, hg.ssid, hg.pass⟩
  | device =>
      rw [gatherValue, tokenToCstr_eq hval (Nat.succ_pos _)]
      exact ⟨_, rfl, rfl, hg.ssid, hg.pass⟩
  | time =>
      rw [gatherValue, tokenToInt_eq h0 hval]
      cases AirShifter.tokenToInt (val.lexeme buf) with
      | none => exact ⟨g, rfl, rfl, hg⟩
      | some v => exact ⟨_, rfl, rfl, hg.ssid, hg.pass⟩

/-- **The second pass stays in range**, and gathers what the pass over lexemes does. -/
theorem secondPass_eq (h0 : 0 ∉ buf) (hin : ∀ t ∈ toks, t.Inside buf) (scratch : Scratch)
    {g : WalkLocals} (hg : Terminated g) (i : ℕ) :
    ∃ g', secondPass buf toks toks.length scratch g i = some g' ∧
      g'.toGather = AirShifter.secondPass ((toks.drop i).map fun t => t.lexeme buf) g.toGather ∧
      Terminated g' := by
  induction hk : toks.length - i using Nat.strong_induction_on generalizing i g with
  | _ k ih =>
      rw [secondPass]
      by_cases hi : i < toks.length
      · have hnext : ∀ {g}, Terminated g → ∀ j, i < j → ∃ g',
            secondPass buf toks toks.length scratch g j = some g' ∧ g'.toGather =
              AirShifter.secondPass ((toks.drop j).map fun t => t.lexeme buf) g.toGather ∧
            Terminated g' := fun hg j hj => ih (toks.length - j) (by omega) hg j rfl
        rw [if_pos hi, List.getElem?_eq_getElem hi, Option.bind_some]
        by_cases hlast : i + 1 ≥ toks.length
        · -- a last token is not tried as a key
          obtain ⟨g', hrun, hgather, hg'⟩ := hnext hg (i + 1) (by omega)
          rw [if_pos hlast, ite_self]
          refine ⟨g', hrun, hgather.trans ?_, hg'⟩
          rw [List.drop_eq_getElem_cons hi, List.drop_eq_nil_of_le hlast]
          rfl
        · have hi' : i + 1 < toks.length := by omega
          have hval := hin _ (List.getElem_mem hi')
          have hrest : (toks.drop (i + 1)).map (fun t => t.lexeme buf) =
              toks[i + 1].lexeme buf :: (toks.drop (i + 2)).map fun t => t.lexeme buf := by
            rw [List.drop_eq_getElem_cons hi', List.map_cons]
          have htype : (toks[i].lexeme buf).type = toks[i].type := rfl
          rw [if_neg hlast, List.drop_eq_getElem_cons hi, List.map_cons, hrest,
            AirShifter.secondPass, ← hrest, htype]
          by_cases hstring : toks[i].type ≠ .string
          · rw [if_pos hstring, if_pos hstring]
            exact hnext hg (i + 1) (by omega)
          · rw [if_neg hstring, if_neg hstring, List.getElem?_eq_getElem hi', Option.bind_some,
              findKey_eq (hin _ (List.getElem_mem hi)), ← packetKey_eq_find, Option.bind_some]
            cases packetKey (toks[i].lexeme buf) with
            | none => exact hnext hg (i + 1) (by omega)
            | some key =>
                obtain ⟨g', hvalue, hgather, hg'⟩ := gatherValue_eq h0 hval scratch hg key
                dsimp only
                rw [hvalue, Option.bind_some, ← hgather]
                exact hnext hg' (i + 2) (by omega)
      · rw [if_neg hi]
        refine ⟨g, rfl, ?_, hg⟩
        rw [List.drop_eq_nil_of_le (by omega)]
        rfl

/-- The credential is built from strings that can be read. -/
theorem jsonCred_eq {g : WalkLocals} (hg : Terminated g) :
    jsonCred g = some (AirShifter.jsonCred g.toGather) := by
  rw [jsonCred, AirShifter.jsonCred, Checked.strncpy_eq _ hg.ssid (Nat.le_succ _),
    Option.bind_some, loadStr_strncpy, Option.bind_some]
  dsimp only
  split_ifs
  · rw [Checked.strncpy_eq _ hg.pass (Nat.le_succ _), Option.bind_some, loadStr_strncpy]
    rfl
  · rw [store_eq (Nat.succ_pos _)]
    rfl

/-- **The walk stays in range**, and does what the walk over lexemes does. -/
theorem parserHandlePacketJson_eq (h0 : 0 ∉ buf) (scratch : Scratch) {r : ℕ}
    (h : jsmnParse buf jsmnTokenMax = .ok (r, toks)) :
    parserHandlePacketJson scratch buf =
      some (if r = 0 then ([], false)
        else finishJson (AirShifter.secondPass (toks.map fun t => t.lexeme buf) {})) := by
  obtain ⟨rfl, -, hrange⟩ := jsmnParse_tokens h
  have hin : ∀ t ∈ toks, t.Inside buf := by
    intro t ht
    obtain ⟨hzero, hle, hstop⟩ := hrange t ht
    exact ⟨hzero, hle, hstop⟩
  rw [parserHandlePacketJson, h]
  dsimp only
  split_ifs
  · rfl
  · obtain ⟨g, hrun, hgather, hg⟩ := secondPass_eq h0 hin scratch terminated_init 0
    rw [firstPass_eq hin, Option.bind_some, hrun, Option.bind_some, jsonCred_eq hg]
    rw [List.drop_zero] at hgather
    have hinit : ({} : WalkLocals).toGather = {} := rfl
    rw [← hinit, ← hgather, finishJson]
    split_ifs <;> rfl

end Passes

end Checked

/-- On a text of less than `2 ^ 32` bytes the conversion to `size_t` gives the length. -/
theorem JsmnTok.Inside.lexeme_eq {buf : Bytes} {t : JsmnTok} (h : t.Inside buf)
    (hlen : buf.length < 2 ^ 32) : t.lexeme buf = t.span.lexeme buf := by
  obtain ⟨hzero, hle, hstop⟩ := h
  have hmod : (t.stop - t.start) % 2 ^ 32 = t.stop - t.start := by omega
  rw [JsmnTok.lexeme, JsmnTok.len, hmod]
  rfl

/-- **The walk in memory is the JSON pass of the parser.** -/
theorem Checked.parserHandlePacketJson_refines {buf : Bytes} (h0 : 0 ∉ buf)
    (hlen : buf.length < 2 ^ 32) (scratch : Scratch) :
    Checked.parserHandlePacketJson scratch buf = some (AirShifter.parserHandlePacketJson buf) := by
  cases h : jsmnParse buf jsmnTokenMax with
  | error e => rw [Checked.parserHandlePacketJson, AirShifter.parserHandlePacketJson, h]
  | ok rt =>
      obtain ⟨r, toks⟩ := rt
      obtain ⟨hcount, -, hrange⟩ := jsmnParse_tokens h
      have hlexemes : (toks.map fun t => t.lexeme buf) =
          (toks.take r).map fun t => t.span.lexeme buf := by
        rw [hcount, List.take_length]
        refine List.map_congr_left fun t ht => ?_
        obtain ⟨hzero, hle, hstop⟩ := hrange t ht
        exact JsmnTok.Inside.lexeme_eq ⟨hzero, hle, hstop⟩ hlen
      rw [Checked.parserHandlePacketJson_eq h0 scratch h, AirShifter.parserHandlePacketJson, h,
        hlexemes]

/-- **The token walk stays in bounds** on every packet that the tokenizer accepts: the count
is that of the tokens, which fit the pool and lie in the text, and no access of the walk is out
of range. -/
theorem token_walk_in_bounds {buf : Bytes} (h0 : 0 ∉ buf) {r : ℕ} {toks : List JsmnTok}
    (h : jsmnParse buf jsmnTokenMax = .ok (r, toks)) :
    (r = toks.length ∧ r ≤ jsmnTokenMax) ∧
      (∀ t ∈ toks, 0 ≤ t.start ∧ t.start ≤ t.stop ∧ t.stop ≤ buf.length) ∧
      ∀ scratch, (Checked.parserHandlePacketJson scratch buf).isSome = true := by
  obtain ⟨hcount, hroom, hrange⟩ := jsmnParse_tokens h
  refine ⟨⟨hcount, by omega⟩, hrange, fun scratch => ?_⟩
  rw [Checked.parserHandlePacketJson_eq h0 scratch h]
  rfl

/-- A packet with an SSID, its key in another letter case. -/
theorem token_walk_in_bounds_sample :
    ∃ r toks, jsmnParse (ascii "\x7b\"Ssid\":\"home\"\x7d") jsmnTokenMax = .ok (r, toks) ∧
      (r = toks.length ∧ r ≤ jsmnTokenMax) ∧
      (Checked.parserHandlePacketJson ⟨Vector.replicate _ 1, Vector.replicate _ 1⟩
        (ascii "\x7b\"Ssid\":\"home\"\x7d")).isSome = true := by
  have hparse : jsmnParse (ascii "\x7b\"Ssid\":\"home\"\x7d") jsmnTokenMax =
      .ok (3, [⟨.object, 0, 15, 1⟩, ⟨.string, 2, 6, 1⟩, ⟨.string, 9, 13, 0⟩]) := by
    decide +kernel
  obtain ⟨hcount, -, hwalk⟩ := token_walk_in_bounds (by decide) hparse
  exact ⟨_, _, hparse, hcount, hwalk _⟩

end AirShifter
