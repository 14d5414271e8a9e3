import AirShifter.LegacyText
import AirShifter.TokenNesting
import AirShifter.WifiManager

/-!
# What a Packet Says

Whatever a packet makes the parser do stands in its text. For any text at all, cut off,
malformed or nested, each call of a setter has a name of its control in the packet, and the
number behind it; and the credential has an SSID and a password that stand behind a name of
theirs, cut to what fits.

The JSON pass takes the token behind a name for its value. That this token is text behind
the name, and not text around it, is the nesting of the tokens: a string is no container.

## Main results

* `mem_taken`: a key that the second pass takes is a string in front of its value.
* `standsFor_of_taken`: the value of such a key stands behind it in the text.
* `standsFor_of_strReading`: so does what the legacy format reads.
* `packet_says`: every call of a packet stands in its text.
-/

open CBytes

namespace AirShifter

/-! ### Text behind a name -/

/-- The text `val` stands in `buf` behind a name of `key`. -/
def StandsFor (buf : Bytes) (key : PacketKey) (val : Bytes) : Prop :=
  ∃ pre name mid post, buf = pre ++ (name ++ (mid ++ (val ++ post))) ∧ keyOfName name = some key

/-- The text `val` is read as the number `v`. A minus sign without digits is read as 0. -/
def ReadAs (val : Bytes) (v : ℤ) : Prop :=
  strtol10 val = some v ∨ strtol10 val = none ∧ val.head? = some 45 ∧ v = 0

/-- A call stands in a text. -/
def BizCall.StandsIn (buf : Bytes) : BizCall → Prop
  | .set c v => ∃ val, StandsFor buf (.control c) val ∧ ReadAs val v
  | .applyWifiCredentials cred => ∃ ssid pass,
      cred = mkCred (ssid.take wifiSsidMaxLen) (pass.take wifiPassMaxLen) ∧
        StandsFor buf .ssid ssid ∧ (pass = [] ∨ StandsFor buf .pass pass)

variable {buf : Bytes} {key : PacketKey} {val : Bytes}

/-- What stands for a key stands in the text. -/
theorem StandsFor.isInfix (h : StandsFor buf key val) : val <:+: buf := by
  obtain ⟨pre, name, mid, post, rfl, -⟩ := h
  exact ⟨pre ++ (name ++ mid), post, by simp only [List.append_assoc]⟩

/-- It stays there with more text in front. -/
theorem StandsFor.append_left (h : StandsFor buf key val) (lead : Bytes) :
    StandsFor (lead ++ buf) key val := by
  obtain ⟨pre, name, mid, post, rfl, hname⟩ := h
  exact ⟨lead ++ pre, name, mid, post, by rw [List.append_assoc], hname⟩

/-- It stays there with more text behind. -/
theorem StandsFor.append_right (h : StandsFor buf key val) (trail : Bytes) :
    StandsFor (buf ++ trail) key val := by
  obtain ⟨pre, name, mid, post, rfl, hname⟩ := h
  exact ⟨pre, name, mid, post ++ trail, by simp only [List.append_assoc], hname⟩

/-- A front of what stands behind a name stands there, too. -/
theorem StandsFor.front {t : Bytes} (h : StandsFor buf key t) (hval : val <+: t) :
    StandsFor buf key val := by
  obtain ⟨pre, name, mid, post, rfl, hname⟩ := h
  obtain ⟨rest, rfl⟩ := hval
  exact ⟨pre, name, mid, rest ++ post, by rw [List.append_assoc val], hname⟩

/-- So does a back of it. -/
theorem StandsFor.back {t : Bytes} (h : StandsFor buf key t) (hval : val <:+ t) :
    StandsFor buf key val := by
  obtain ⟨pre, name, mid, post, rfl, hname⟩ := h
  obtain ⟨lead, rfl⟩ := hval
  exact ⟨pre, name, mid ++ lead, post, by simp only [List.append_assoc], hname⟩

/-! ### The JSON pass -/

/-- **A key that the second pass takes** is a string, and its value is the next token. -/
theorem mem_taken {i : ℕ} {toks : List Lexeme} {x : TakenKey} (h : x ∈ taken i toks) :
    ∃ before t after, toks = before ++ t :: x.value :: after ∧ t.type = .string ∧
      keyOfName t.text = some x.key := by
  fun_induction taken i toks with
  | case1 i t val rest ht ih =>
      obtain ⟨before, u, after, hsplit, hu⟩ := ih h
      exact ⟨t :: before, u, after, by rw [hsplit]; rfl, hu⟩
  | case2 i t val rest ht key hkey ih =>
      rcases List.mem_cons.mp h with rfl | h
      · exact ⟨[], t, rest, rfl, not_not.mp ht, by rw [← packetKey_eq, hkey]⟩
      · obtain ⟨before, u, after, hsplit, hu⟩ := ih h
        exact ⟨t :: val :: before, u, after, by rw [hsplit]; rfl, hu⟩
  | case3 i t val rest ht hkey ih =>
      obtain ⟨before, u, after, hsplit, hu⟩ := ih h
      exact ⟨t :: before, u, after, by rw [hsplit]; rfl, hu⟩
  | case4 i toks hshort => exact absurd h List.not_mem_nil

/-- Two ranges of a text, the second behind the first. -/
theorem split_ranges (js : Bytes) {a b c d : ℕ} (hab : a ≤ b) (hbc : b ≤ c) (hcd : c ≤ d) :
    js = js.take a ++ ((js.drop a).take (b - a) ++ ((js.drop b).take (c - b) ++
      ((js.drop c).take (d - c) ++ js.drop d))) := by
  have hstep : ∀ {m k : ℕ}, m ≤ k → (js.drop m).take (k - m) ++ js.drop k = js.drop m := by
    intro m k hmk
    have hdrop : (js.drop m).drop (k - m) = js.drop k := by
      rw [List.drop_drop]
      congr 1
      omega
    rw [← hdrop, List.take_append_drop]
  rw [hstep hcd, hstep hbc, hstep hab, List.take_append_drop]

/-- A list that is mapped to one with two neighbours has them as neighbours. -/
theorem exists_of_map_eq_append_cons_cons {α β : Type*} {f : α → β} {l : List α}
    {before after : List β} {x y : β} (h : l.map f = before ++ x :: y :: after) :
    ∃ as a b bs, l = as ++ a :: b :: bs ∧ f a = x ∧ f b = y := by
  obtain ⟨as, tail, rfl, -, htail⟩ := List.map_eq_append_iff.mp h
  obtain ⟨a, tail, rfl, ha, htail⟩ := List.map_eq_cons_iff.mp htail
  obtain ⟨b, bs, rfl, hb, -⟩ := List.map_eq_cons_iff.mp htail
  exact ⟨as, a, b, bs, rfl, ha, hb⟩

/-- **The value of a taken key** stands behind the key. -/
theorem standsFor_of_taken {js : Bytes} {n r i : ℕ} {toks : List JsmnTok} {x : TakenKey}
    (h : jsmnParse js n = .ok (r, toks))
    (hx : x ∈ taken i ((toks.take r).map fun t => t.span.lexeme js)) :
    StandsFor js x.key x.value.text := by
  obtain ⟨hr, -, hbounds⟩ := jsmnParse_tokens h
  obtain ⟨hnested, hclosed⟩ := nestedAt_of_jsmnParse h
  rw [List.take_of_length_le (le_of_eq hr.symm)] at hx
  obtain ⟨before, t, after, hsplit, htype, hkey⟩ := mem_taken hx
  obtain ⟨as, a, b, bs, rfl, rfl, hb⟩ := exists_of_map_eq_append_cons_cons hsplit
  have hab : a.span.Before b.span := by
    have hpair := (List.pairwise_append.mp (List.pairwise_map.mp hnested.pairwise)).2.1
    exact (List.pairwise_cons.mp hpair).1 b List.mem_cons_self
  -- the name is a string, so its value cannot stand inside it
  have hbehind : a.stop ≤ b.start := by
    rcases (hab.of_closed (hclosed a (by simp))).2 with hstop | ⟨htype' | htype', -⟩
    · exact hstop
    · exact absurd (htype.symm.trans htype') (by simp)
    · exact absurd (htype.symm.trans htype') (by simp)
  obtain ⟨ha0, hastop, -⟩ := hbounds a (by simp)
  obtain ⟨hb0, hbstop, -⟩ := hbounds b (by simp)
  have hsize : ∀ {u v : ℤ}, 0 ≤ u → (v - u).toNat = v.toNat - u.toNat := by omega
  rw [← hb]
  refine ⟨js.take a.start.toNat, a.span.text js, (js.drop a.stop.toNat).take
    (b.start.toNat - a.stop.toNat), js.drop b.stop.toNat, ?_, hkey⟩
  dsimp only [Span.lexeme, Span.text, JsmnTok.span]
  rw [hsize ha0, hsize hb0]
  exact split_ranges js (by omega) (by omega) (by omega)

/-- The gathered string, if there is one, stands in the text. -/
def GatheredFrom {k : ℕ} (buf : Bytes) (key : PacketKey) (found : Vector UInt8 (k + 1))
    (got : Bool) : Prop :=
  (∃ val, StandsFor buf key val ∧ cstr found = val.take k) ∨ (got = false ∧ cstr found = [])

/-- What the second pass has gathered stands in the text. -/
structure Gather.From (buf : Bytes) (g : Gather) : Prop where
  calls : ∀ call ∈ g.calls, call.StandsIn buf
  ssid : GatheredFrom buf .ssid g.foundSsid g.gotSsid
  pass : GatheredFrom buf .pass g.foundPass g.gotPass

/-- At the start nothing has been gathered. -/
theorem gatherFrom_empty (buf : Bytes) : Gather.From buf {} :=
  ⟨fun _ h => absurd h List.not_mem_nil, Or.inr ⟨rfl, cstr_replicate_zero⟩,
    Or.inr ⟨rfl, cstr_replicate_zero⟩⟩

/-- A token that is copied is gathered from the text. -/
theorem gatheredFrom_tokenToCstr {k : ℕ} {tok : Lexeme} (h : StandsFor buf key tok.text)
    (h0 : 0 ∉ tok.text) (found : Vector UInt8 (k + 1)) (got : Bool) :
    GatheredFrom buf key (tokenToCstr tok found) got :=
  Or.inl ⟨tok.text, h, cstr_tokenToCstr (Nat.succ_pos k) h0 found⟩

/-- `strtol` skips whitespace by itself. -/
theorem strtol10_dropWhile (s : Bytes) : strtol10 (s.dropWhile isspace) = strtol10 s := by
  rw [strtol10, strtol10, List.dropWhile_idempotent]

/-- A number is read from the whole text of its token. -/
theorem strtol10_of_tokenToInt {tok : Lexeme} {v : ℤ} (h : tokenToInt tok = some v) :
    strtol10 tok.text = some v := by
  rw [tokenToInt] at h
  dsimp only at h
  split_ifs at h
  rwa [strtol10_dropWhile] at h

/-- **One key more.** -/
theorem Gather.From.gatherValue {g : Gather} (hg : g.From buf) {tok : Lexeme}
    (h : StandsFor buf key tok.text) (h0 : 0 ∉ tok.text) : (gatherValue g key tok).From buf := by
  cases key with
  | ssid =>
      have hssid := gatheredFrom_tokenToCstr h h0 g.foundSsid
      constructor <;> dsimp only [AirShifter.gatherValue]
      · exact hg.calls
      · exact hssid _
      · exact hg.pass
  | pass =>
      have hpass := gatheredFrom_tokenToCstr h h0 g.foundPass
      constructor <;> dsimp only [AirShifter.gatherValue]
      · exact hg.calls
      · exact hg.ssid
      · exact hpass _
  | control c =>
      rw [AirShifter.gatherValue]
      cases hint : tokenToInt tok with
      | none => exact hg
      | some v =>
          refine ⟨fun call hcall => ?_, hg.ssid, hg.pass⟩
          rcases List.mem_append.mp hcall with hcall | hcall
          · exact hg.calls call hcall
          · rw [List.mem_singleton.mp hcall]
            exact ⟨tok.text, h, Or.inl (strtol10_of_tokenToInt hint)⟩
  | device | time => exact hg

/-- **All the keys** that the second pass takes. -/
theorem Gather.From.foldl {xs : List TakenKey} {g : Gather} (hg : g.From buf)
    (h : ∀ x ∈ xs, StandsFor buf x.key x.value.text ∧ 0 ∉ x.value.text) :
    (xs.foldl (fun g x => AirShifter.gatherValue g x.key x.value) g).From buf := by
  induction xs generalizing g with
  | nil => exact hg
  | cons x xs ih =>
      obtain ⟨hx, h0⟩ := h x List.mem_cons_self
      exact ih (hg.gatherValue hx h0) fun y hy => h y (List.mem_cons_of_mem x hy)

/-- The calls at the end of the JSON pass stand in the text. -/
theorem Gather.From.finishJson {g : Gather} (hg : g.From buf) :
    ∀ call ∈ (finishJson g).1, call.StandsIn buf := by
  intro call hcall
  rw [AirShifter.finishJson] at hcall
  split_ifs at hcall with hgot
  · rcases List.mem_append.mp hcall with hcall | hcall
    · exact hg.calls call hcall
    · rw [List.mem_singleton.mp hcall]
      obtain ⟨ssid, hssid, hscstr⟩ := hg.ssid.resolve_right fun h => by simp [hgot] at h
      have hs : (cstr g.foundSsid).take wifiSsidMaxLen = ssid.take wifiSsidMaxLen := by
        rw [hscstr, List.take_take, Nat.min_self]
      rcases hg.pass with ⟨pass, hpass, hpcstr⟩ | ⟨hgotPass, -⟩
      · cases hgotPass : g.gotPass with
        | false =>
            refine ⟨ssid, [], ?_, hssid, Or.inl rfl⟩
            rw [jsonCred_eq_mkCred, hs, hgotPass]
            rfl
        | true =>
            refine ⟨ssid, pass, ?_, hssid, Or.inr hpass⟩
            rw [jsonCred_eq_mkCred, hs, hgotPass, if_pos rfl, hpcstr, List.take_take, Nat.min_self]
      · refine ⟨ssid, [], ?_, hssid, Or.inl rfl⟩
        rw [jsonCred_eq_mkCred, hs, hgotPass]
        rfl
  · exact hg.calls call hcall

/-- **The calls of the JSON pass** stand in the packet. -/
theorem standsIn_jsonPass (h0 : 0 ∉ buf) : ∀ call ∈ (jsonPass buf).1, call.StandsIn buf := by
  intro call hcall
  have hsplit : buf.takeWhile isspace ++ buf.dropWhile isspace = buf :=
    List.takeWhile_append_dropWhile
  rw [jsonPass] at hcall
  split_ifs at hcall
  · rw [parserHandlePacketJson] at hcall
    cases hparse : jsmnParse (buf.dropWhile isspace) jsmnTokenMax with
    | error e =>
        rw [hparse] at hcall
        exact absurd hcall List.not_mem_nil
    | ok rt =>
        obtain ⟨r, toks⟩ := rt
        rw [hparse] at hcall
        dsimp only at hcall
        split_ifs at hcall
        · exact absurd hcall List.not_mem_nil
        · rw [secondPass_eq_foldl 0] at hcall
          refine Gather.From.finishJson ((gatherFrom_empty buf).foldl fun x hx => ?_) call hcall
          have hstands := (standsFor_of_taken hparse hx).append_left (buf.takeWhile isspace)
          rw [hsplit] at hstands
          exact ⟨hstands, fun hz => h0 (hstands.isInfix.subset hz)⟩
  · exact absurd hcall List.not_mem_nil

/-! ### The legacy pass -/

/-- A legacy key in a text, and what stands behind it. -/
theorem standsFor_of_fieldText {name t : Bytes} (hname : keyOfName name = some key)
    (h : fieldText buf name = some t) : StandsFor buf key t := by
  obtain ⟨pos, hpos, rfl⟩ := Option.map_eq_some_iff.mp h
  obtain ⟨before, behind, rfl, hfirst⟩ := firstOccurrence_of_strstr hpos
  rw [List.drop_left]
  refine StandsFor.back ⟨before, name, [], [], ?_, hname⟩ (List.dropWhile_suffix _)
  rw [List.nil_append, List.append_nil]
  exact hfirst.eq

/-- **What the legacy format reads** stands behind its key. -/
theorem standsFor_of_strReading {name : Bytes} (hname : keyOfName name = some key)
    (h : strReading buf name = some val) : StandsFor buf key val := by
  obtain ⟨t, ht, rfl⟩ := Option.map_eq_some_iff.mp (Option.filter_eq_some_iff.mp h).1
  have hstands := standsFor_of_fieldText hname ht
  cases t with
  | nil => exact hstands
  | cons q rest =>
      rw [strValue]
      split_ifs
      · exact (hstands.back (List.suffix_cons q rest)).front (List.takeWhile_prefix _)
      · exact hstands.front (List.takeWhile_prefix _)

/-- What the first of several names reads stands behind a name of the key. -/
theorem standsFor_of_findSome {names : List Bytes} (hnames : ∀ n ∈ names, keyOfName n = some key)
    (h : names.findSome? (strReading buf) = some val) : StandsFor buf key val := by
  obtain ⟨name, hmem, hread⟩ := List.exists_of_findSome?_eq_some h
  exact standsFor_of_strReading (hnames name hmem) hread

/-- The keys of the legacy SSID are names of the SSID. -/
theorem keyOfName_ssidKeys : ∀ n ∈ ssidKeys, keyOfName n = some .ssid := by
  decide

/-- Those of the legacy password are names of the password. -/
theorem keyOfName_passKeys : ∀ n ∈ passKeys, keyOfName n = some .pass := by
  decide

/-- Both legacy keys of a control are names of it. -/
theorem keyOfName_legacyKeys (c : Control) : keyOfName (legacyKeys c).1 = some (.control c) ∧
    keyOfName (legacyKeys c).2 = some (.control c) := by
  cases c <;> decide

/-- The credential of the legacy pass stands in the packet. -/
theorem standsIn_legacyWifi {cred : WifiCredentials} (h0 : 0 ∉ buf)
    (h : legacyWifi buf = some cred) : (BizCall.applyWifiCredentials cred).StandsIn buf := by
  by_cases hssid : ∃ v, LegacySsid buf v
  · obtain ⟨v, hv⟩ := hssid
    rw [legacyWifi_eq_some h0 hv] at h
    refine ⟨v, legacyPassword buf, (Option.some.inj h).symm,
      standsFor_of_findSome keyOfName_ssidKeys hv.2, ?_⟩
    rw [legacyPassword]
    cases hpass : passKeys.findSome? (strReading buf) with
    | none => exact Or.inl rfl
    | some w => exact Or.inr (standsFor_of_findSome keyOfName_passKeys hpass)
  · rw [legacyWifi_eq_none h0 fun v hv => hssid ⟨v, hv⟩] at h
    exact absurd h (by simp)

/-- A text that starts with a digit is read as a number. -/
theorem strtol10_ne_none {b : UInt8} (hb : isdigit b = true) (rest : Bytes) :
    strtol10 (b :: rest) ≠ none := by
  have hskip : (b :: rest).dropWhile isspace = b :: rest :=
    List.dropWhile_cons_of_neg (by rw [isspace_of_isdigit hb]; exact Bool.false_ne_true)
  have hsign : b ≠ 45 ∧ b ≠ 43 := by
    constructor <;> rintro rfl <;> exact absurd hb (by decide)
  rw [strtol10, hskip]
  simp [hsign.1, hsign.2, hb]

/-- The number of a legacy field stands behind its key. -/
theorem standsIn_legacyInt {name : Bytes} {c : Control} {v : ℤ}
    (hname : keyOfName name = some (.control c)) (h : legacyExtractIntField buf name = some v) :
    (BizCall.set c v).StandsIn buf := by
  obtain ⟨t, ht, hstart, rfl⟩ := legacyExtractIntField_eq_some_iff.mp h
  refine ⟨t, standsFor_of_fieldText hname ht, ?_⟩
  cases t with
  | nil => exact absurd hstart not_startsNumber_nil
  | cons b rest =>
      rw [atoi]
      cases hread : strtol10 (b :: rest) with
      | some w => exact Or.inl hread
      | none =>
          refine Or.inr ⟨hread, ?_, rfl⟩
          have hdigit : ¬ isdigit b = true := fun hb => strtol10_ne_none hb rest hread
          rw [(startsNumber_cons.mp hstart).resolve_left hdigit]
          rfl

/-- The command of a legacy control stands in the packet. -/
theorem standsIn_legacyControl (c : Control) :
    ∀ call ∈ legacyControl buf c, call.StandsIn buf := by
  intro call hcall
  obtain ⟨hfst, hsnd⟩ := keyOfName_legacyKeys c
  rw [legacyControl] at hcall
  cases hval : (legacyExtractIntField buf (legacyKeys c).1).or
      (legacyExtractIntField buf (legacyKeys c).2) with
  | none =>
      rw [hval] at hcall
      exact absurd hcall List.not_mem_nil
  | some v =>
      rw [hval] at hcall
      rw [List.mem_singleton.mp hcall]
      rcases Option.or_eq_some_iff.mp hval with hv | ⟨-, hv⟩
      · exact standsIn_legacyInt hfst hv
      · exact standsIn_legacyInt hsnd hv

/-- **The calls of the legacy pass** stand in the packet. -/
theorem standsIn_legacyPass (h0 : 0 ∉ buf) : ∀ call ∈ (legacyPass buf).1, call.StandsIn buf := by
  intro call hcall
  cases hwifi : legacyWifi buf with
  | some cred =>
      rw [legacyPass, hwifi] at hcall
      rw [List.mem_singleton.mp hcall]
      exact standsIn_legacyWifi h0 hwifi
  | none =>
      rw [legacyPass_of_none hwifi] at hcall
      simp only [List.mem_append] at hcall
      rcases hcall with ((hcall | hcall) | hcall) | hcall <;>
        exact standsIn_legacyControl _ call hcall

/-! ### Any packet -/

/-- The calls of a text without NUL stand in it. -/
theorem standsIn_parserHandlePacket (h0 : 0 ∉ buf) :
    ∀ call ∈ (parserHandlePacket buf).calls, call.StandsIn buf := by
  intro call hcall
  by_cases hjson : (jsonPass buf).1 = []
  · rw [parserHandlePacket_of_nil hjson, PacketResult.calls, List.nil_append] at hcall
    exact standsIn_legacyPass h0 call hcall
  · rw [parserHandlePacket_of_ne_nil hjson, PacketResult.calls, List.append_nil] at hcall
    exact standsIn_jsonPass h0 call hcall

/-- **Every call of a packet stands in its text**, whatever the buffer holds. -/
theorem packet_says {n : ℕ} (buf : Vector UInt8 n) :
    ∀ call ∈ (parserHandlePacket (cstr buf)).calls, call.StandsIn (cstr buf) :=
  standsIn_parserHandlePacket (zero_notMem_cstr buf)

/-- The buffer `light:1`, with a NUL and one more byte. -/
def lightBuffer : Vector UInt8 9 :=
  #v[108, 105, 103, 104, 116, 58, 49, 0, 50]

/-- The light command in a buffer that holds more than that. -/
theorem packet_says_lightBuffer : (BizCall.set .light 1).StandsIn (cstr lightBuffer) :=
  packet_says lightBuffer (.set .light 1) (by decide +kernel)

/-- A credential that stands in the front part of a text stands in the text. -/
theorem BizCall.StandsIn.append_right {cred : WifiCredentials}
    (h : (BizCall.applyWifiCredentials cred).StandsIn buf) (trail : Bytes) :
    (BizCall.applyWifiCredentials cred).StandsIn (buf ++ trail) := by
  obtain ⟨ssid, pass, hcred, hssid, hpass⟩ := h
  exact ⟨ssid, pass, hcred, hssid.append_right trail, hpass.imp id (·.append_right trail)⟩

end AirShifter
