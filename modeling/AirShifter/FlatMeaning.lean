import AirShifter.FlatJson
import AirShifter.LegacyText

/-!
# What a Flat JSON Packet Means

The reference reading of a flat object takes each member by itself: a control name with a
numeric value is a command, and an SSID member with a non-empty value is a credential.
The second pass of `parser.c` reads the tokens in one sweep instead, in which any string
may be taken for a key, and a packet that made no call is read again as legacy text. The
two readings agree exactly when neither of these gets in the way.

## Main results

* `secondPass_eq_foldl`: the second pass applies the keys it takes, in order.
* `taken_flat`: without stray keys, the keys taken are the known names.
* `jsonPass_eq_reference`: then the JSON pass makes the calls of the reference reading.
* `flat_meaning_iff`: exactly when a flat packet means what its members say.
-/

open CBytes

namespace AirShifter

/-! ### Names -/

/-- A name with its letters in lower case. -/
def lower (name : Bytes) : Bytes :=
  name.map tolower

/-- The key that a name stands for, compared without letter case. -/
def keyOfName (name : Bytes) : Option PacketKey :=
  let name := lower name
  if name = ascii "ssid" ∨ name = ascii "wifi" then some .ssid
  else if name = ascii "pass" ∨ name = ascii "password" ∨ name = ascii "pwd" then some .pass
  else if name = ascii "speed" then some (.control .rpm)
  else if name = ascii "angle" then some (.control .angle)
  else if name = ascii "light" then some (.control .light)
  else if name = ascii "power" then some (.control .power)
  else if name = ascii "device" ∨ name = ascii "device_id" ∨ name = ascii "id" then some .device
  else if name = ascii "ts" ∨ name = ascii "time" ∨ name = ascii "epoch" then some .time
  else none

/-- The comparison of a token with a key ignores letter case, and nothing else. -/
theorem tokenEqualsKey_eq (tok : Lexeme) (key : Bytes) :
    tokenEqualsKey tok key = decide (lower tok.text = lower key) := by
  rw [tokenEqualsKey, Bool.eq_iff_iff, decide_eq_true_eq]
  generalize tok.text = text
  split_ifs with hlen
  · simp only [false_iff]
    intro h
    exact hlen (by simpa [lower] using congrArg List.length h)
  · rw [not_not] at hlen
    induction text generalizing key with
    | nil =>
        obtain rfl := List.length_eq_zero_iff.mp hlen.symm
        simp
    | cons a text ih =>
        cases key with
        | nil => exact absurd hlen (by simp)
        | cons b key =>
            have hrest := ih key (by simpa using hlen)
            simp only [List.zip_cons_cons, List.all_cons, Bool.and_eq_true, beq_iff_eq, hrest]
            simp [lower]

/-- The keys in small letters. -/
theorem lower_eq_self {key : String}
    (h : key ∈ ["ssid", "wifi", "pass", "password", "pwd", "speed", "angle", "light", "power",
      "device", "device_id", "id", "ts", "time", "epoch"]) :
    lower (ascii key) = ascii key := by
  revert key
  decide

/-- The comparisons of the second pass look a name up. -/
theorem packetKey_eq (tok : Lexeme) : packetKey tok = keyOfName tok.text := by
  have hSSID : lower (ascii "SSID") = ascii "ssid" := by decide
  have hWifi : lower (ascii "Wifi") = ascii "wifi" := by decide
  have hPASS : lower (ascii "PASS") = ascii "pass" := by decide
  have hSpeed : lower (ascii "Speed") = ascii "speed" := by decide
  have hAngle : lower (ascii "Angle") = ascii "angle" := by decide
  have hLight : lower (ascii "Light") = ascii "light" := by decide
  have hPower : lower (ascii "Power") = ascii "power" := by decide
  simp only [packetKey, keyOfName, tokenEqualsKey_eq, hSSID, hWifi, hPASS, hSpeed, hAngle, hLight,
    hPower, lower_eq_self, List.mem_cons, true_or, or_true, Bool.or_eq_true, decide_eq_true_eq,
    or_assoc, or_self]

/-! ### The keys the second pass takes -/

/-- A key the second pass takes: the position of its token, what it stands for, and the
token that is its value. -/
structure TakenKey where
  pos : ℕ
  key : PacketKey
  value : Lexeme
  deriving DecidableEq

/-- The keys taken in a walk over the tokens, the first of them at position `i`. -/
def taken : ℕ → List Lexeme → List TakenKey
  | i, t :: val :: rest =>
    if t.type ≠ .string then taken (i + 1) (val :: rest)
    else
      match packetKey t with
      | some key => ⟨i, key, val⟩ :: taken (i + 2) rest
      | none => taken (i + 1) (val :: rest)
  | _, _ => []

/-- **The second pass applies the keys it takes**, in order. -/
theorem secondPass_eq_foldl (i : ℕ) (toks : List Lexeme) (g : Gather) :
    secondPass toks g = (taken i toks).foldl (fun g x => gatherValue g x.key x.value) g := by
  fun_induction taken i toks generalizing g with
  | case1 i t val rest ht ih => rw [secondPass, if_pos ht, ih]
  | case2 i t val rest ht key hkey ih =>
      rw [secondPass, if_neg ht, hkey, List.foldl_cons]
      exact ih _
  | case3 i t val rest ht hkey ih =>
      rw [secondPass, if_neg ht, hkey]
      exact ih g
  | case4 i toks hshort =>
      rw [secondPass.eq_def]
      split
      · exact absurd rfl (hshort _ _ _)
      · rfl

/-- The tokens that the second pass walks over for a packet. -/
def packetTokens (buf : Bytes) : List Lexeme :=
  let p := buf.dropWhile isspace
  if p.head? = some 123 ∨ p.head? = some 91 then
    match jsmnParse p jsmnTokenMax with
    | .error _ => []
    | .ok (r, toks) => (toks.take r).map fun t => t.span.lexeme p
  else []

/-! ### Reference reading -/

/-- The commands of the control members, each read by itself. -/
def controlCalls (ms : List FlatMember) : List BizCall :=
  ms.flatMap fun m =>
    match keyOfName m.name.val with
    | some (.control c) => ((tokenToInt m.value.lexeme).map (.set c)).toList
    | _ => []

/-- The text of the first member that stands for `key`, empty if there is none. -/
def memberText (key : PacketKey) (ms : List FlatMember) : Bytes :=
  ((ms.find? fun m => keyOfName m.name.val = some key).map fun m => m.value.lexeme.text).getD []

/-- **The reference reading**: the commands in order, then one credential if there is an
SSID. -/
def referenceCalls (ms : List FlatMember) : List BizCall :=
  controlCalls ms ++
    if memberText .ssid ms = [] then []
    else [.applyWifiCredentials (mkCred ((memberText .ssid ms).take wifiSsidMaxLen)
      ((memberText .pass ms).take wifiPassMaxLen))]

/-- At most one member stands for `key`. -/
def AtMostOne (key : PacketKey) (ms : List FlatMember) : Prop :=
  (ms.filter fun m => keyOfName m.name.val = some key).length ≤ 1

instance (key : PacketKey) (ms : List FlatMember) : Decidable (AtMostOne key ms) :=
  inferInstanceAs (Decidable (_ ≤ _))

/-- A stray key: the member is unknown, but its value is a string that is a known name. -/
def FlatMember.StrayKey (m : FlatMember) : Prop :=
  keyOfName m.name.val = none ∧
    m.value.lexeme.type = .string ∧ keyOfName m.value.lexeme.text ≠ none

instance (m : FlatMember) : Decidable m.StrayKey :=
  inferInstanceAs (Decidable (_ ∧ _ ∧ _))

/-- No member but the last one is a stray key. -/
def NoStrayKey (ms : List FlatMember) : Prop :=
  ∀ m ∈ ms.dropLast, ¬ m.StrayKey

instance (ms : List FlatMember) : Decidable (NoStrayKey ms) :=
  inferInstanceAs (Decidable (∀ _ ∈ _, _))

/-! ### Walking over the members -/

/-- A member with a known name is taken. -/
theorem taken_member_of_some (i : ℕ) {m : FlatMember} {key : PacketKey}
    (hkey : keyOfName m.name.val = some key) (rest : List Lexeme) :
    taken i (m.lexemes ++ rest) = ⟨i, key, m.value.lexeme⟩ :: taken (i + 2) rest := by
  rw [FlatMember.lexemes, List.cons_append, List.singleton_append, taken, if_neg (by simp),
    packetKey_eq, hkey]

/-- The name of an unknown member is passed over. -/
theorem taken_member_of_none (i : ℕ) {m : FlatMember} (hkey : keyOfName m.name.val = none)
    (rest : List Lexeme) :
    taken i (m.lexemes ++ rest) = taken (i + 1) (m.value.lexeme :: rest) := by
  rw [FlatMember.lexemes, List.cons_append, List.singleton_append, taken, if_neg (by simp),
    packetKey_eq, hkey]

/-- The value of an unknown member is passed over unless it is a stray key with a token
behind it. -/
theorem taken_value (i : ℕ) {m : FlatMember} (hkey : keyOfName m.name.val = none)
    {rest : List Lexeme} (h : rest = [] ∨ ¬ m.StrayKey) :
    taken i (m.value.lexeme :: rest) = taken (i + 1) rest := by
  cases rest with
  | nil => rfl
  | cons t rest =>
      have hstray : ¬ m.StrayKey := h.resolve_left (List.cons_ne_nil t rest)
      rw [taken]
      split_ifs with htype
      · rfl
      · rw [packetKey_eq]
        cases hval : keyOfName m.value.lexeme.text with
        | none => rfl
        | some key => exact absurd ⟨hkey, not_not.mp htype, by simp [hval]⟩ hstray

/-- The tokens of the first member come first. -/
theorem memberLexemes_cons (m : FlatMember) (ms : List FlatMember) :
    memberLexemes (m :: ms) = m.lexemes ++ memberLexemes ms := rfl

/-- Only no members have no tokens. -/
theorem memberLexemes_eq_nil_iff {ms : List FlatMember} : memberLexemes ms = [] ↔ ms = [] := by
  rw [← List.length_eq_zero_iff, length_memberLexemes, ← List.length_eq_zero_iff]
  omega

/-- The members behind the first have no stray key, either. -/
theorem NoStrayKey.tail {m : FlatMember} {ms : List FlatMember} (h : NoStrayKey (m :: ms)) :
    NoStrayKey ms := by
  cases ms with
  | nil => exact fun x hx => absurd hx List.not_mem_nil
  | cons m' ms => exact fun x hx => h x (List.mem_cons_of_mem m hx)

/-- The first member is the last one, or no stray key. -/
theorem NoStrayKey.head {m : FlatMember} {ms : List FlatMember} (h : NoStrayKey (m :: ms)) :
    memberLexemes ms = [] ∨ ¬ m.StrayKey := by
  cases ms with
  | nil => exact Or.inl rfl
  | cons m' ms => exact Or.inr (h m List.mem_cons_self)

/-- **Without stray keys** the keys taken are the known names, each with its own value, at
every second position. -/
theorem taken_flat {ms : List FlatMember} (h : NoStrayKey ms) (i : ℕ) :
    (taken i (memberLexemes ms)).map (fun x => (x.key, x.value)) =
        (ms.filterMap fun m => (keyOfName m.name.val).map (·, m.value.lexeme)) ∧
      ∀ x ∈ taken i (memberLexemes ms), x.pos % 2 = i % 2 := by
  induction ms generalizing i with
  | nil => exact ⟨rfl, fun x hx => absurd hx List.not_mem_nil⟩
  | cons m ms ih =>
      obtain ⟨hkeys, hpos⟩ := ih h.tail (i + 2)
      rw [memberLexemes_cons]
      cases hkey : keyOfName m.name.val with
      | some key =>
          rw [taken_member_of_some i hkey, List.filterMap_cons, hkey]
          refine ⟨congrArg _ hkeys, fun x hx => ?_⟩
          rcases List.mem_cons.mp hx with rfl | hx
          · rfl
          · rw [hpos x hx]
            omega
      | none =>
          rw [taken_member_of_none i hkey, taken_value (i + 1) hkey h.head, List.filterMap_cons,
            hkey]
          refine ⟨hkeys, fun x hx => ?_⟩
          rw [hpos x hx]
          omega

/-- **A stray key is taken**, at the position of a value. -/
theorem exists_taken_of_stray {ms : List FlatMember} (h : ¬ NoStrayKey ms) (i : ℕ) :
    ∃ x ∈ taken i (memberLexemes ms), x.pos % 2 ≠ i % 2 := by
  induction ms generalizing i with
  | nil => exact absurd (fun x hx => absurd hx List.not_mem_nil) h
  | cons m ms ih =>
      rw [memberLexemes_cons]
      by_cases hm : memberLexemes ms = [] ∨ ¬ m.StrayKey
      · -- the first member is no stray key, so one of the others is
        have htail : ¬ NoStrayKey ms := by
          intro htail
          refine h fun x hx => ?_
          rcases ms with - | ⟨m', ms⟩
          · exact absurd hx List.not_mem_nil
          · rcases List.mem_cons.mp hx with rfl | hx
            · exact hm.resolve_left (memberLexemes_eq_nil_iff.not.mpr (List.cons_ne_nil _ _))
            · exact htail x hx
        obtain ⟨x, hx, hpos⟩ := ih htail (i + 2)
        cases hkey : keyOfName m.name.val with
        | some key =>
            rw [taken_member_of_some i hkey]
            exact ⟨x, List.mem_cons_of_mem _ hx, by omega⟩
        | none =>
            rw [taken_member_of_none i hkey, taken_value (i + 1) hkey hm]
            exact ⟨x, hx, by omega⟩
      · rw [not_or, not_not] at hm
        obtain ⟨hne, hkey, htype, hval⟩ := hm
        obtain ⟨key, hval⟩ := Option.ne_none_iff_exists'.mp hval
        obtain ⟨t, rest, hrest⟩ := List.exists_cons_of_ne_nil hne
        rw [taken_member_of_none i hkey, hrest, taken, if_neg (not_not.mpr htype), packetKey_eq,
          hval]
        exact ⟨_, List.mem_cons_self, by dsimp only; omega⟩

/-! ### The values the second pass gathers -/

/-- A token is copied as far as it fits. -/
theorem cstr_tokenToCstr {n : ℕ} (hn : 0 < n) {tok : Lexeme} (h0 : 0 ∉ tok.text)
    (out : Vector UInt8 n) : cstr (tokenToCstr tok out) = tok.text.take (n - 1) := by
  have hlen : (if tok.text.length ≥ n then n - 1 else tok.text.length) =
      (tok.text.take (n - 1)).length := by
    rw [List.length_take]
    split_ifs <;> omega
  rw [tokenToCstr, hlen]
  have htake : tok.text.take (tok.text.take (n - 1)).length = tok.text.take (n - 1) := by
    rw [List.length_take, ← List.take_take, List.take_length]
  rw [htake]
  generalize htext : tok.text.take (n - 1) = text
  have hlt : text.length < n := by
    rw [← htext, List.length_take]
    omega
  exact cstr_terminated out (fun h => h0 (List.mem_of_mem_take (htext ▸ h))) hlt

/-- The first byte of a buffer tells whether its string is empty. -/
theorem getElem_zero_ne_iff {n : ℕ} (v : Vector UInt8 (n + 1)) : v[0] ≠ 0 ↔ cstr v ≠ [] := by
  have hv : v.toList ≠ [] := by
    rw [← List.length_pos_iff, Vector.length_toList]
    exact Nat.succ_pos n
  obtain ⟨b, t, hbt⟩ := List.exists_cons_of_ne_nil hv
  have hhead : v[0] = b := by
    have hget : v.toList[0]? = some b := by rw [hbt, List.getElem?_cons_zero]
    simpa using hget
  rw [cstr, hbt, hhead, List.takeWhile_cons]
  by_cases hb : b = 0
  · simp [hb]
  · simp [hb]

/-- The string values of flat members have no NUL. -/
theorem FlatValue.zero_notMem (v : FlatValue) : 0 ∉ v.lexeme.text := by
  intro h
  cases v with
  | str s => exact (s.2 0 h).2.2 rfl
  | int l =>
      have hprint := (printable_intLit l 0 h).2.1
      exact absurd hprint (by decide)

/-- A buffer and its flag hold a string, cut to what fits. -/
def Holds {n : ℕ} (found : Vector UInt8 (n + 1)) (got : Bool) (text : Bytes) : Prop :=
  cstr found = text.take n ∧ (got = true ↔ text ≠ [])

/-- The first byte of the buffer tells whether the token had a text. -/
theorem tokenToCstr_zero_ne_iff {n : ℕ} (hn : 0 < n) {tok : Lexeme} (h0 : 0 ∉ tok.text)
    (out : Vector UInt8 (n + 1)) : (tokenToCstr tok out)[0] ≠ 0 ↔ tok.text ≠ [] := by
  rw [getElem_zero_ne_iff, cstr_tokenToCstr (Nat.succ_pos n) h0, ← List.length_pos_iff,
    ← List.length_pos_iff, List.length_take]
  omega

/-- A token that is copied into an empty buffer is held by it. -/
theorem holds_tokenToCstr {n : ℕ} (hn : 0 < n) {tok : Lexeme} (h0 : 0 ∉ tok.text)
    {found : Vector UInt8 (n + 1)} {got : Bool} (h : Holds found got []) :
    Holds (tokenToCstr tok found) (if (tokenToCstr tok found)[0] ≠ 0 then true else got)
      tok.text := by
  have hgot : got = false := by simpa using h.2
  refine ⟨cstr_tokenToCstr (Nat.succ_pos n) h0 found, ?_⟩
  rw [hgot, ← tokenToCstr_zero_ne_iff hn h0 found]
  split_ifs with h
  · exact ⟨fun _ => h, fun _ => rfl⟩
  · exact ⟨False.elim, fun h' => absurd h' h⟩

/-- What the second pass has gathered after the members `ms`. -/
structure Gathered (g : Gather) (ms : List FlatMember) : Prop where
  calls : g.calls = controlCalls ms
  ssid : Holds g.foundSsid g.gotSsid (memberText .ssid ms)
  pass : Holds g.foundPass g.gotPass (memberText .pass ms)

/-- Nothing has been gathered from no members. -/
theorem gathered_nil : Gathered {} [] :=
  ⟨rfl, ⟨cstr_replicate_zero, by simp [memberText]⟩, ⟨cstr_replicate_zero, by simp [memberText]⟩⟩

/-- A member for another key does not matter. -/
theorem memberText_concat_of_ne {key : PacketKey} {m : FlatMember}
    (h : keyOfName m.name.val ≠ some key) (ms : List FlatMember) :
    memberText key (ms ++ [m]) = memberText key ms := by
  rw [memberText, List.find?_append, List.find?_cons_of_neg (by simpa using h), List.find?_nil,
    Option.or_none]
  rfl

/-- If the last member is for a key, no other one is. -/
theorem find_eq_none_of_concat {key : PacketKey} {m : FlatMember} {ms : List FlatMember}
    (h : keyOfName m.name.val = some key) (hone : AtMostOne key (ms ++ [m])) :
    ms.find? (fun m => decide (keyOfName m.name.val = some key)) = none := by
  rw [AtMostOne, List.filter_append, List.length_append,
    List.filter_cons_of_pos (by simpa using h), List.filter_nil, List.length_singleton] at hone
  rw [List.find?_eq_none]
  intro x hx hxk
  have hmem : x ∈ ms.filter fun m => decide (keyOfName m.name.val = some key) :=
    List.mem_filter.mpr ⟨hx, hxk⟩
  have hpos := List.length_pos_of_mem hmem
  omega

/-- The only member for `key` is the last one. -/
theorem memberText_concat_of_eq {key : PacketKey} {m : FlatMember} {ms : List FlatMember}
    (h : keyOfName m.name.val = some key) (hone : AtMostOne key (ms ++ [m])) :
    memberText key ms = [] ∧ memberText key (ms ++ [m]) = m.value.lexeme.text := by
  have hnone := find_eq_none_of_concat h hone
  constructor
  · rw [memberText, hnone]
    rfl
  · rw [memberText, List.find?_append, hnone, Option.none_or,
      List.find?_cons_of_pos (by simpa using h)]
    rfl

/-- Fewer members have no more for a key. -/
theorem AtMostOne.of_append {key : PacketKey} {ms ns : List FlatMember}
    (h : AtMostOne key (ms ++ ns)) : AtMostOne key ms := by
  rw [AtMostOne, List.filter_append, List.length_append] at h
  rw [AtMostOne]
  omega

/-- The effect of one member on what has been gathered. -/
def gatherMember (g : Gather) (m : FlatMember) : Gather :=
  match keyOfName m.name.val with
  | some key => gatherValue g key m.value.lexeme
  | none => g

/-- The commands of the last member come last. -/
theorem controlCalls_concat (ms : List FlatMember) (m : FlatMember) :
    controlCalls (ms ++ [m]) = controlCalls ms ++ controlCalls [m] := by
  rw [controlCalls, List.flatMap_append]
  rfl

/-- A member with no name for a network adds at most a call. -/
theorem Gathered.frame {g g' : Gather} {ms : List FlatMember} {m : FlatMember}
    (h : Gathered g ms) (hs : keyOfName m.name.val ≠ some .ssid)
    (hp : keyOfName m.name.val ≠ some .pass) (hcalls : g'.calls = g.calls ++ controlCalls [m])
    (hssid : g'.foundSsid = g.foundSsid ∧ g'.gotSsid = g.gotSsid)
    (hpass : g'.foundPass = g.foundPass ∧ g'.gotPass = g.gotPass) :
    Gathered g' (ms ++ [m]) where
  calls := by rw [hcalls, controlCalls_concat, h.calls]
  ssid := by
    rw [hssid.1, hssid.2, memberText_concat_of_ne hs]
    exact h.ssid
  pass := by
    rw [hpass.1, hpass.2, memberText_concat_of_ne hp]
    exact h.pass

/-- The member with the SSID fills the first buffer. -/
theorem Gathered.ssidValue {g : Gather} {ms : List FlatMember} {m : FlatMember}
    (h : Gathered g ms) (hkey : keyOfName m.name.val = some .ssid)
    (hs : AtMostOne .ssid (ms ++ [m])) :
    Gathered (gatherValue g .ssid m.value.lexeme) (ms ++ [m]) where
  calls := by
    have hcalls : controlCalls [m] = [] := by simp [controlCalls, hkey]
    rw [controlCalls_concat, hcalls, List.append_nil, ← h.calls, gatherValue]
  ssid := by
    obtain ⟨hnil, htext⟩ := memberText_concat_of_eq hkey hs
    have hssid := h.ssid
    rw [hnil] at hssid
    dsimp only [gatherValue]
    rw [htext]
    exact holds_tokenToCstr (n := wifiSsidMaxLen) (by decide) m.value.zero_notMem hssid
  pass := by
    dsimp only [gatherValue]
    rw [memberText_concat_of_ne (by simp [hkey])]
    exact h.pass

/-- The member with the password fills the second buffer. -/
theorem Gathered.passValue {g : Gather} {ms : List FlatMember} {m : FlatMember}
    (h : Gathered g ms) (hkey : keyOfName m.name.val = some .pass)
    (hp : AtMostOne .pass (ms ++ [m])) :
    Gathered (gatherValue g .pass m.value.lexeme) (ms ++ [m]) where
  calls := by
    have hcalls : controlCalls [m] = [] := by simp [controlCalls, hkey]
    rw [controlCalls_concat, hcalls, List.append_nil, ← h.calls, gatherValue]
  ssid := by
    dsimp only [gatherValue]
    rw [memberText_concat_of_ne (by simp [hkey])]
    exact h.ssid
  pass := by
    obtain ⟨hnil, htext⟩ := memberText_concat_of_eq hkey hp
    have hpass := h.pass
    rw [hnil] at hpass
    dsimp only [gatherValue]
    rw [htext]
    exact holds_tokenToCstr (n := wifiPassMaxLen) (by decide) m.value.zero_notMem hpass

/-- **One member** is gathered under its own name. -/
theorem Gathered.concat {g : Gather} {ms : List FlatMember} {m : FlatMember}
    (h : Gathered g ms) (hs : AtMostOne .ssid (ms ++ [m])) (hp : AtMostOne .pass (ms ++ [m])) :
    Gathered (gatherMember g m) (ms ++ [m]) := by
  cases hkey : keyOfName m.name.val with
  | none =>
      simp only [gatherMember, hkey]
      refine h.frame (by simp [hkey]) (by simp [hkey]) ?_ ⟨rfl, rfl⟩ ⟨rfl, rfl⟩
      simp [controlCalls, hkey]
  | some key =>
      simp only [gatherMember, hkey]
      cases key with
      | device | time =>
          refine h.frame (by simp [hkey]) (by simp [hkey]) ?_ ⟨rfl, rfl⟩ ⟨rfl, rfl⟩
          simp [controlCalls, hkey, gatherValue]
      | control c =>
          cases hval : tokenToInt m.value.lexeme with
          | none =>
              simp only [gatherValue, hval]
              refine h.frame (by simp [hkey]) (by simp [hkey]) ?_ ⟨rfl, rfl⟩ ⟨rfl, rfl⟩
              simp [controlCalls, hkey, hval]
          | some v =>
              simp only [gatherValue, hval]
              refine h.frame (by simp [hkey]) (by simp [hkey]) ?_ ⟨rfl, rfl⟩ ⟨rfl, rfl⟩
              simp [controlCalls, hkey, hval]
      | ssid => exact h.ssidValue hkey hs
      | pass => exact h.passValue hkey hp

/-- All members are gathered under their own names. -/
theorem gathered_foldl {ms : List FlatMember} (hs : AtMostOne .ssid ms)
    (hp : AtMostOne .pass ms) : Gathered (ms.foldl gatherMember {}) ms := by
  induction ms using List.reverseRecOn with
  | nil => exact gathered_nil
  | append_singleton ms m ih =>
      rw [List.foldl_append]
      exact (ih hs.of_append hp.of_append).concat hs hp

/-- **The credential of the JSON pass** holds the gathered strings. -/
theorem Gathered.jsonCred_eq {g : Gather} {ms : List FlatMember} (h : Gathered g ms) :
    jsonCred g = mkCred ((memberText .ssid ms).take wifiSsidMaxLen)
      ((memberText .pass ms).take wifiPassMaxLen) := by
  obtain ⟨hssid, -⟩ := h.ssid
  obtain ⟨hpass, hgot⟩ := h.pass
  rw [jsonCred_eq_mkCred, hssid, hpass, List.take_take, min_self]
  split_ifs with hflag
  · rw [List.take_take, min_self]
  · have hnil : memberText .pass ms = [] := by
      by_contra hne
      exact hflag (hgot.mpr hne)
    rw [hnil]

/-- **Without stray keys the JSON pass makes the calls of the reference reading.** -/
theorem jsonPass_eq_reference {o : FlatObject}
    (hroom : 1 + 2 * o.members.length ≤ jsmnTokenMax) (hs : AtMostOne .ssid o.members)
    (hp : AtMostOne .pass o.members) (hstray : NoStrayKey o.members) :
    (jsonPass o.bytes).1 = referenceCalls o.members := by
  have hfold : secondPass (memberLexemes o.members) {} = o.members.foldl gatherMember {} := by
    rw [secondPass_eq_foldl 0]
    have htaken := (taken_flat hstray 0).1
    have hmap : ∀ (xs : List TakenKey) (g : Gather),
        xs.foldl (fun g x => gatherValue g x.key x.value) g =
          (xs.map fun x => (x.key, x.value)).foldl (fun g x => gatherValue g x.1 x.2) g := by
      intro xs g
      rw [List.foldl_map]
    rw [hmap, htaken, List.foldl_filterMap]
    congr 1
    funext g m
    rw [gatherMember]
    cases keyOfName m.name.val <;> rfl
  have hg := gathered_foldl hs hp
  rw [jsonPass_flat o hroom, hfold, finishJson, referenceCalls]
  split_ifs with hgot hnil hnil
  · exact absurd hnil (hg.ssid.2.mp hgot)
  · dsimp only
    rw [hg.calls, hg.jsonCred_eq]
  · dsimp only
    rw [hg.calls, List.append_nil]
  · exact absurd (hg.ssid.2.mpr hnil) hgot

/-! ### When a flat packet means what its members say -/

/-- A flat packet has no NUL. -/
theorem notMem_zero_bytes (o : FlatObject) : 0 ∉ o.bytes := by
  have hws : ∀ w : Ws, 0 ∉ w.val := by
    intro w h
    rcases w.2 0 h with h | h | h | h <;> exact absurd h (by decide)
  have hstr : ∀ s : PlainStr, 0 ∉ s.val := fun s h => (s.2 0 h).2.2 rfl
  have hvalue : ∀ v : FlatValue, 0 ∉ v.bytes := by
    intro v
    have h0 := v.zero_notMem
    cases v with
    | str s => simpa [FlatValue.bytes] using hstr s
    | int l => exact h0
  have hmember : ∀ m : FlatMember, 0 ∉ m.bytes := by
    intro m
    simp [FlatMember.bytes, hws, hstr, hvalue]
  have hmore : ∀ ms, 0 ∉ moreBytes ms := by
    intro ms
    induction ms with
    | nil => exact List.not_mem_nil
    | cons m ms ih => simpa [moreBytes, hmember] using ih
  have hbody : 0 ∉ o.body := by
    rw [FlatObject.body]
    cases o.members with
    | nil => exact hws _
    | cons m ms => simp [hmember, hmore]
  simp [FlatObject.bytes, FlatObject.core, hws, hbody]

/-- The keys taken in the tokens of a flat packet. -/
theorem taken_packetTokens (o : FlatObject)
    (hroom : 1 + 2 * o.members.length ≤ jsmnTokenMax) :
    taken 0 (packetTokens o.bytes) = taken 1 (memberLexemes o.members) := by
  obtain ⟨toks, text, hparse, hlex⟩ := jsmnParse_flat o hroom
  have hbrace : o.core.head? = some 123 ∨ o.core.head? = some 91 := Or.inl rfl
  rw [packetTokens, dropWhile_bytes, if_pos hbrace, hparse]
  dsimp only
  rw [List.take_length, hlex]
  cases memberLexemes o.members with
  | nil => rfl
  | cons t rest => rw [taken, if_pos (by simp)]

/-- **A flat packet means exactly its members**: its calls are those of the reference
reading, and no key is taken but at the odd positions, where the names stand. -/
def MeansItsMembers (o : FlatObject) : Prop :=
  (parserHandlePacket o.bytes).calls = referenceCalls o.members ∧
    ∀ x ∈ taken 0 (packetTokens o.bytes), x.pos % 2 = 1

/-- **When a flat packet means its members**: exactly when no unknown member but the last
has a known name for a value, and the packet has a call to make or nothing to read as
legacy text. -/
theorem flat_meaning_iff (o : FlatObject) (hroom : 1 + 2 * o.members.length < jsmnTokenMax)
    (hs : AtMostOne .ssid o.members) (hp : AtMostOne .pass o.members) :
    MeansItsMembers o ↔
      NoStrayKey o.members ∧ (referenceCalls o.members ≠ [] ∨ ¬ LegacyField o.bytes) := by
  rw [MeansItsMembers, taken_packetTokens o hroom.le]
  by_cases hstray : NoStrayKey o.members
  · have hjson := jsonPass_eq_reference hroom.le hs hp hstray
    have hodd : ∀ x ∈ taken 1 (memberLexemes o.members), x.pos % 2 = 1 :=
      (taken_flat hstray 1).2
    have hcalls : (parserHandlePacket o.bytes).calls =
        if referenceCalls o.members = [] then (legacyPass o.bytes).1
        else referenceCalls o.members := by
      split_ifs with hnil
      · rw [parserHandlePacket_of_nil (hjson.trans hnil)]
        rfl
      · rw [parserHandlePacket_of_ne_nil (hjson ▸ hnil), hjson]
        exact List.append_nil _
    rw [hcalls, ← legacyPass_eq_nil_iff (notMem_zero_bytes o)]
    constructor
    · rintro ⟨hcalls, -⟩
      refine ⟨hstray, ?_⟩
      by_cases hnil : referenceCalls o.members = []
      · rw [if_pos hnil, hnil] at hcalls
        exact Or.inr hcalls
      · exact Or.inl hnil
    · rintro ⟨-, hne | hlegacy⟩
      · exact ⟨if_neg hne, hodd⟩
      · refine ⟨?_, hodd⟩
        split_ifs with hnil
        · rw [hlegacy, hnil]
        · rfl
  · obtain ⟨x, hx, hpos⟩ := exists_taken_of_stray hstray 1
    exact ⟨fun h => absurd (h.2 x hx) hpos, fun h => absurd h.1 hstray⟩

/-- The string `speed`. -/
def speedName : PlainStr := ⟨ascii "speed", by decide⟩

/-- The packet `{"mode":"fast","speed":120,"note":"speed"}`. -/
def speedPacket : FlatObject :=
  .compact [.compact ⟨ascii "mode", by decide⟩ (.str ⟨ascii "fast", by decide⟩),
    .compact speedName (.int ⟨false, ascii "120", by decide, by decide⟩),
    .compact ⟨ascii "note", by decide⟩ (.str speedName)]

/-- Neither of the unknown members is in the way: one has no name for its value, and behind the
other there is no token. -/
theorem flat_meaning_iff_speed : MeansItsMembers speedPacket :=
  (flat_meaning_iff speedPacket (by decide) (by decide) (by decide)).mpr
    ⟨by decide, Or.inl (by decide +kernel)⟩

/-- The packet `{"mode":"speed","7":"x"}`. -/
def strayPacket : FlatObject :=
  .compact [.compact ⟨ascii "mode", by decide⟩ (.str speedName),
    .compact ⟨ascii "7", by decide⟩ (.str ⟨ascii "x", by decide⟩)]

/-- **A value is taken for a key**: the packet has no known name, but sets the speed. -/
theorem stray_value_misread :
    1 + 2 * strayPacket.members.length < jsmnTokenMax ∧ AtMostOne .ssid strayPacket.members ∧
      AtMostOne .pass strayPacket.members ∧
      (parserHandlePacket strayPacket.bytes).calls = [.set .rpm 7] ∧
      referenceCalls strayPacket.members = [] ∧ ¬ MeansItsMembers strayPacket := by
  have hcalls : (parserHandlePacket strayPacket.bytes).calls = [.set .rpm 7] := by
    decide +kernel
  have href : referenceCalls strayPacket.members = [] := by decide +kernel
  refine ⟨by decide, by decide, by decide, hcalls, href, fun h => ?_⟩
  have hsame := h.1
  rw [hcalls, href] at hsame
  exact absurd hsame (by simp)

end AirShifter
