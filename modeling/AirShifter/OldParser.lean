import AirShifter.FlatMeaning

/-!
# The Parser Before

The packet parser `parser-oldbitch1.c`, which `parser.c` replaced and means to stay
compatible with. It knows no JSON: it searches the text behind the first `},{` for the
keys, and skips quotes, braces and commas like any other separator. `parser.c` reads a
packet as JSON members first, and as legacy text, with fewer separators, only if that is
silent.

Whether the two agree on a packet is a matter of the numbers behind the names of the controls;
this module finds out which numbers the old parser reads.

## Main results

* `numberBehind_isFieldSep_iff`: when the strict search finds the number that the loose one
  finds.
* `extractIntField_normalizePacket`: what the normalization leaves out does not matter to a
  number.
* `oldNumber_normalizePacket`: the number that is read for a control.
-/

open CBytes

namespace AirShifter

/-! ### The functions -/

/-- `extract_str_field`: the buffer it leaves and the value it returns. -/
def extractStrField {n : ℕ} (src key : Bytes) (out : Vector UInt8 n) : Vector UInt8 n × Bool :=
  match strstr src key with
  | none => (out, false)
  | some pos =>
    let pos := (pos.drop key.length).dropWhile isFieldSep
    let value :=
      match pos with
      | [] => []
      | q :: rest =>
        if q = 39 ∨ q = 34 then rest.takeWhile (· != q)
        else (q :: rest).takeWhile fun b => b != 44 && !isspace b
    let len := if value.length ≥ n then n - 1 else value.length
    (memcpy (memcpy out 0 (value.take len)) len [0], true)

/-- The bytes that `extract_int_field` skips between a key and its value. -/
def isSkipped (b : UInt8) : Bool :=
  b == 58 || b == 61 || isspace b || b == 34 || b == 39 || b == 123 || b == 125 || b == 44

/-- `extract_int_field`; `none` is the return value `false`. -/
def extractIntField (src key : Bytes) : Option ℤ :=
  match strstr src key with
  | none => none
  | some pos =>
    match (pos.drop key.length).dropWhile isSkipped with
    | [] => none
    | b :: rest =>
      let pos := if b = 34 ∨ b = 39 then rest else b :: rest
      if !isdigit (pos.headD 0) && pos.headD 0 != 45 then none else some (atoi pos)

/-- `normalize_packet`: the string it leaves in a buffer of `outLen` bytes. -/
def normalizePacket (src : Bytes) (outLen : ℕ) : Bytes :=
  let p :=
    match strstr src (ascii "\x7d,\x7b") with
    | some p => p.drop 3
    | none => src
  let p := p.dropWhile isspace
  let total := p.length
  if total = 0 then []
  else
    let trailing := (p.reverse.takeWhile (· == 125)).length
    let copyLen := if trailing > 1 then total - (trailing - 1) else total
    let copyLen := if copyLen ≥ outLen then outLen - 1 else copyLen
    p.take copyLen

/-- Extraction under the first of several keys that yields a value, into one buffer. -/
def extractFirst {n : ℕ} (src : Bytes) : List Bytes → Vector UInt8 n → Vector UInt8 n × Bool
  | [], out => (out, false)
  | key :: keys, out =>
    let r := extractStrField src key out
    if r.2 then r else extractFirst src keys r.1

/-- The credential of the Wi-Fi branch, if it finds an SSID. -/
def oldWifi (p : Bytes) : Option WifiCredentials :=
  let cred : WifiCredentials := {}
  let ssid := extractFirst p [ascii "SSID", ascii "ssid"]
    (Vector.replicate (wifiSsidMaxLen + 1) 0)
  let pass := extractFirst p [ascii "PASS", ascii "Pass", ascii "pass"]
    (Vector.replicate (wifiPassMaxLen + 1) 0)
  if ssid.2 then
    let cred := { cred with ssid := strncpy cred.ssid (cstr ssid.1) wifiSsidMaxLen }
    let cred := { cred with ssidLen := UInt8.ofNat (cstr cred.ssid).length }
    if pass.2 then
      let cred := { cred with pass := strncpy cred.pass (cstr pass.1) wifiPassMaxLen }
      some { cred with passLen := UInt8.ofNat (cstr cred.pass).length }
    else some cred
  else none

/-- The number that the old parser reads for a control, under the first spelling that has
one. -/
def oldNumber (p : Bytes) (c : Control) : Option ℤ :=
  (extractIntField p (legacyKeys c).1).or (extractIntField p (legacyKeys c).2)

/-- `parser_handle_packet` of the old parser: the calls it makes and the value it
returns. -/
def oldParserHandlePacket (buf : Bytes) : List BizCall × Bool :=
  let p := normalizePacket buf 256
  if (strstr p (ascii "Wifi")).isSome || (strstr p (ascii "SSID")).isSome ||
      (strstr p (ascii "ssid")).isSome then
    match oldWifi p with
    | some cred => ([.applyWifiCredentials cred], true)
    | none => ([], false)
  else controlBranches (oldNumber p)

/-! ### Numbers behind keys -/

/-- The text behind the first occurrence of a key. -/
def behindKey (src key : Bytes) : Option Bytes :=
  (strstr src key).map fun pos => pos.drop key.length

/-- The number at the start of a text. -/
def numberAt : Bytes → Option ℤ
  | [] => none
  | b :: rest => if isdigit b || b == 45 then some (atoi (b :: rest)) else none

/-- The number that stands behind the first occurrence of a key, with separators in between
as `sep` says. -/
def numberBehind (sep : UInt8 → Bool) (src key : Bytes) : Option ℤ :=
  (behindKey src key).bind fun t => numberAt (t.dropWhile sep)

/-- The number that stands behind a key of a control: behind the capital spelling, or else
behind the other one. -/
def controlNumber (sep : UInt8 → Bool) (src : Bytes) (c : Control) : Option ℤ :=
  (numberBehind sep src (legacyKeys c).1).or (numberBehind sep src (legacyKeys c).2)

/-- The test that both integer extractors make on the first byte of a value. -/
theorem ite_not_digit {α : Type*} (b : UInt8) (x y : α) :
    (if (!isdigit b && b != 45) = true then x else y) =
      if (isdigit b || b == 45) = true then y else x := by
  rw [bne, ← Bool.not_or]
  cases isdigit b || b == 45 <;> rfl

/-- Both integer extractors look for a number behind a key; they differ in the separators. -/
theorem legacyExtractIntField_eq_numberBehind (src key : Bytes) :
    legacyExtractIntField src key = numberBehind isFieldSep src key := by
  rw [legacyExtractIntField, numberBehind, behindKey]
  cases strstr src key with
  | none => rfl
  | some pos =>
      rw [Option.map_some, Option.bind_some]
      dsimp only
      cases (pos.drop key.length).dropWhile isFieldSep with
      | nil => rfl
      | cons b rest => exact ite_not_digit b _ _

/-- The old extractor skips more. -/
theorem extractIntField_eq_numberBehind (src key : Bytes) :
    extractIntField src key = numberBehind isSkipped src key := by
  rw [extractIntField, numberBehind, behindKey]
  cases strstr src key with
  | none => rfl
  | some pos =>
      rw [Option.map_some, Option.bind_some]
      dsimp only
      cases hskip : (pos.drop key.length).dropWhile isSkipped with
      | nil => rfl
      | cons b rest =>
          -- the loop has skipped all quotes, so the check behind it never fires
          have hb : ¬ (b = 34 ∨ b = 39) := by
            have hhead : isSkipped b = false := by
              have h := List.head?_dropWhile_not isSkipped (pos.drop key.length)
              rw [hskip] at h
              simpa using h
            rintro (rfl | rfl) <;> exact absurd hhead (by decide)
          dsimp only
          rw [if_neg hb]
          exact ite_not_digit b _ _

/-- The separators of `parser.c` are separators of the old parser. -/
theorem isSkipped_of_isFieldSep {b : UInt8} (h : isFieldSep b = true) : isSkipped b = true := by
  simp only [isFieldSep, isSkipped, Bool.or_eq_true] at h ⊢
  tauto

/-- A separator of the old parser starts no number. -/
theorem not_number_of_isSkipped {b : UInt8} (hb : isSkipped b = true) :
    (isdigit b || b == 45) = false := by
  rw [Bool.eq_false_iff]
  intro h
  simp only [isSkipped, isspace, isdigit, Bool.or_eq_true, beq_iff_eq, Bool.and_eq_true,
    decide_eq_true_eq, ← UInt8.toNat_inj, UInt8.le_iff_toNat_le, UInt8.reduceToNat] at hb h
  omega

/-- A strict search that stops at a byte which the loose one skips finds no number. -/
theorem numberAt_dropWhile_iff (t : Bytes) (v : ℤ) :
    numberAt (t.dropWhile isFieldSep) = some v ↔
      numberAt (t.dropWhile isSkipped) = some v ∧
        ∀ b ∈ t.takeWhile isSkipped, isFieldSep b = true := by
  induction t with
  | nil => simp
  | cons b t ih =>
      by_cases hsep : isFieldSep b = true
      · have hskip := isSkipped_of_isFieldSep hsep
        rw [List.dropWhile_cons_of_pos hsep, List.dropWhile_cons_of_pos hskip, ih,
          List.takeWhile_cons_of_pos hskip, List.forall_mem_cons, and_iff_right hsep]
      · rw [List.dropWhile_cons_of_neg hsep]
        by_cases hskip : isSkipped b = true
        · rw [numberAt, not_number_of_isSkipped hskip, if_neg Bool.false_ne_true,
            List.takeWhile_cons_of_pos hskip, List.forall_mem_cons]
          exact iff_of_false (by simp) fun h => hsep h.2.1
        · rw [List.dropWhile_cons_of_neg hskip, List.takeWhile_cons_of_neg hskip]
          simp

/-- **When the strict search finds a number**: it finds the one that the loose search finds, if
there is no quote, brace or comma between the key and the number. -/
theorem numberBehind_isFieldSep_iff (src key : Bytes) (v : ℤ) :
    numberBehind isFieldSep src key = some v ↔
      ∃ t, behindKey src key = some t ∧ numberAt (t.dropWhile isSkipped) = some v ∧
        ∀ b ∈ t.takeWhile isSkipped, isFieldSep b = true := by
  rw [numberBehind, Option.bind_eq_some_iff]
  exact exists_congr fun t => and_congr_right fun _ => numberAt_dropWhile_iff t v

/-! ### Text around a number -/

/-- A word is not looked for in a gap in front. -/
theorem numberBehind_gap {key : Bytes} (h : Word key) {g : Bytes} (hg : Gap g)
    (sep : UInt8 → Bool) (s : Bytes) : numberBehind sep (g ++ s) key = numberBehind sep s key := by
  rw [numberBehind, behindKey, h.strstr_gap hg, ← behindKey, numberBehind]

/-- Separators at the end do not matter to a number. -/
theorem numberBehind_append {key : Bytes} (h : Word key) {sep : UInt8 → Bool} {g : Bytes}
    (hg : ∀ b ∈ g, isalpha b = false ∧ sep b = true ∧ isdigit b = false) (s : Bytes) :
    numberBehind sep (s ++ g) key = numberBehind sep s key := by
  rcases g with - | ⟨x, g⟩
  · rw [List.append_nil]
  have hx := hg x List.mem_cons_self
  have hnone : strstr g key = none := strstr_eq_none_iff.mpr
    (h.not_infix_gap fun b hb => (hg b (List.mem_cons_of_mem x hb)).1)
  have hstrstr : strstr (s ++ x :: g) key = (strstr s key).map (· ++ x :: g) := by
    rw [strstr_append_cons h.ne_nil (h.notMem hx.1), hnone, Option.or_none]
  rw [numberBehind, numberBehind, behindKey, behindKey, hstrstr]
  cases hpos : strstr s key with
  | none => rfl
  | some pos =>
      obtain ⟨⟨t, rfl⟩, -⟩ := strstr_eq_some hpos
      simp only [Option.map_some, Option.bind_some, List.append_assoc, List.drop_left]
      have hall : (x :: g).dropWhile sep = [] :=
        List.dropWhile_eq_nil_iff.mpr fun b hb => (hg b hb).2.1
      cases hskip : t.dropWhile sep with
      | nil =>
          have hskip' : (t ++ x :: g).dropWhile sep = [] := by
            rw [List.dropWhile_append, hskip, List.isEmpty_nil, if_pos rfl, hall]
          rw [hskip']
      | cons b rest =>
          have hskip' : (t ++ x :: g).dropWhile sep = b :: (rest ++ x :: g) := by
            rw [List.dropWhile_append, hskip]
            rfl
          rw [hskip', numberAt, numberAt]
          split_ifs with hb
          · rw [atoi_append hb]
            intro y hy
            rw [← Option.some.inj hy]
            exact hx.2.2
          · rfl

/-! ### The normalization -/

/-- The part of a packet that the old parser reads: what stands behind the first `},{`, if
there is one. -/
def payload (buf : Bytes) : Bytes :=
  match strstr buf (ascii "\x7d,\x7b") with
  | some p => p.drop 3
  | none => buf

/-- The part that is read is no longer than the packet. -/
theorem length_payload_le (buf : Bytes) : (payload buf).length ≤ buf.length := by
  rw [payload]
  cases hpos : strstr buf (ascii "\x7d,\x7b") with
  | none => exact le_refl _
  | some pos =>
      exact ((List.drop_suffix 3 pos).trans (strstr_eq_some hpos).2).length_le

/-- The bytes at the end of a text that a count of trailing braces covers are braces. -/
theorem eq_of_mem_drop {s : Bytes} {m : ℕ} {x b : UInt8}
    (hm : s.length - m ≤ (s.reverse.takeWhile (· == x)).length) (hb : b ∈ s.drop m) : b = x := by
  have hpre : s.reverse.takeWhile (· == x) =
      s.reverse.take (s.reverse.takeWhile (· == x)).length :=
    List.prefix_iff_eq_take.mp (List.takeWhile_prefix _)
  have hmem : b ∈ s.reverse.take (s.length - m) := by
    rw [← List.reverse_drop]
    exact List.mem_reverse.mpr hb
  have htake : b ∈ s.reverse.takeWhile (· == x) := by
    rw [hpre]
    exact List.take_subset_take_left _ hm hmem
  simpa using List.mem_takeWhile_imp htake

/-- A text that fits the buffer is cut within its trailing braces. -/
theorem normalizePacket_eq_take (buf : Bytes) {outLen : ℕ} (hlen : buf.length < outLen) :
    ∃ m, normalizePacket buf outLen = ((payload buf).dropWhile isspace).take m ∧
      ((payload buf).dropWhile isspace).length - m ≤
        (((payload buf).dropWhile isspace).reverse.takeWhile (· == 125)).length := by
  have hp : ((payload buf).dropWhile isspace).length < outLen :=
    ((List.dropWhile_suffix _).length_le.trans (length_payload_le buf)).trans_lt hlen
  rw [normalizePacket]
  dsimp only
  rw [← payload]
  generalize (payload buf).dropWhile isspace = p at hp ⊢
  generalize htrail : (p.reverse.takeWhile (· == 125)).length = trailing
  split_ifs with hnil hmany hfull hfull
  · refine ⟨0, ?_, by omega⟩
    rw [List.take_zero]
  · omega
  · exact ⟨_, rfl, by omega⟩
  · omega
  · exact ⟨_, rfl, by omega⟩

/-- The normalization leaves out whitespace in front and braces behind. -/
theorem payload_eq (buf : Bytes) {outLen : ℕ} (hlen : buf.length < outLen) :
    ∃ ws braces, (∀ b ∈ ws, isspace b = true) ∧ (∀ b ∈ braces, b = 125) ∧
      payload buf = ws ++ (normalizePacket buf outLen ++ braces) := by
  obtain ⟨m, hm, hcut⟩ := normalizePacket_eq_take buf hlen
  refine ⟨(payload buf).takeWhile isspace, ((payload buf).dropWhile isspace).drop m,
    fun b hb => List.mem_takeWhile_imp hb, fun b hb => eq_of_mem_drop hcut hb, ?_⟩
  rw [hm, List.take_append_drop, List.takeWhile_append_dropWhile]

/-- **What the normalization leaves out does not matter** to a number behind a key. -/
theorem extractIntField_normalizePacket {key : Bytes} (h : Word key) (buf : Bytes) {outLen : ℕ}
    (hlen : buf.length < outLen) : extractIntField (normalizePacket buf outLen) key =
      numberBehind isSkipped (payload buf) key := by
  obtain ⟨ws, braces, hws, hbraces, hbuf⟩ := payload_eq buf hlen
  have hgap : Gap ws := fun b hb => isalpha_of_isspace (hws b hb)
  rw [extractIntField_eq_numberBehind, hbuf, numberBehind_gap h hgap, numberBehind_append h]
  intro b hb
  rw [hbraces b hb]
  decide

/-- The number that the old parser reads for a control. -/
theorem oldNumber_normalizePacket (buf : Bytes) {outLen : ℕ} (hlen : buf.length < outLen)
    (c : Control) :
    oldNumber (normalizePacket buf outLen) c = controlNumber isSkipped (payload buf) c := by
  have hword : Word (legacyKeys c).1 ∧ Word (legacyKeys c).2 := by
    cases c <;> decide
  rw [oldNumber, extractIntField_normalizePacket hword.1 buf hlen,
    extractIntField_normalizePacket hword.2 buf hlen, ← controlNumber]

/-- The number that the legacy pass reads for a control. -/
theorem legacyNumber_eq (buf : Bytes) (c : Control) :
    legacyNumber buf c = controlNumber isFieldSep buf c := by
  rw [legacyNumber, legacyExtractIntField_eq_numberBehind, legacyExtractIntField_eq_numberBehind,
    controlNumber]

end AirShifter
