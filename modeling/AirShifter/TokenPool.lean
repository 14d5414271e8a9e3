import AirShifter.GattServer

/-!
# The Token Pool

What the tokenizer does with the pool of tokens it is given, on any text. The body of its
loop takes at most one token and moves on by at least one byte, so the tokens that are
taken never outnumber the bytes behind the position. A pool with a token for each byte of
the text is therefore never used up, and the packet characteristic admits no packet that is
longer than the pool of the packet parser.

A token lies within the text that was read when it was filled in. It is open until its
bracket is closed, and a text that leaves a token open is not accepted.

## Main results

* `jsmnStep_effect`: what the body of the loop does to the tokens.
* `JsmnParser.Fits.jsmnLoop`: tokens stay within the text, and there are not more of them
  than bytes.
* `jsmnParse_tokens`: the tokens of a text that is accepted.
* `packet_tokens_suffice`: the pool suffices for every admissible packet.
-/

open CBytes

namespace AirShifter

/-! ### Ranges -/

/-- A range lies in the first `pos` bytes of the text; its end may be missing. -/
structure Span.Within (pos : ℕ) (s : Span) : Prop where
  zero_le_start : 0 ≤ s.start
  start_le : s.start ≤ pos
  stop : s.stop = -1 ∨ s.start ≤ s.stop ∧ s.stop ≤ pos

/-- A range stays within a text that is read on. -/
theorem Span.Within.mono {pos pos' : ℕ} {s : Span} (h : s.Within pos) (hle : pos ≤ pos') :
    s.Within pos' := by
  obtain ⟨hzero, hstart, hstop⟩ := h
  exact ⟨hzero, by omega, by omega⟩

/-- A closed range is within the text that ends behind it. -/
theorem Span.within_of_le {pos : ℕ} (type : JsmnType) {a b : ℤ} (ha : 0 ≤ a) (hab : a ≤ b)
    (hb : b ≤ pos) : (⟨type, a, b⟩ : Span).Within pos :=
  ⟨ha, hab.trans hb, Or.inr ⟨hab, hb⟩⟩

/-- A range that is not open has its end. -/
theorem Span.Within.closed {pos : ℕ} {s : Span} (h : s.Within pos) (hclosed : s.isOpen = false) :
    0 ≤ s.start ∧ s.start ≤ s.stop ∧ s.stop ≤ pos := by
  obtain ⟨hzero, hstart, hstop⟩ := h
  refine ⟨hzero, hstop.resolve_left fun hopen => ?_⟩
  have hne : s.start ≠ -1 := by omega
  simp [Span.isOpen, hopen, hne] at hclosed

/-- An open range is closed behind the position of its bracket. -/
theorem Span.Within.close {pos : ℕ} {s : Span} (h : s.Within pos) :
    ({ s with stop := pos + 1 } : Span).Within (pos + 1) := by
  obtain ⟨hzero, hstart, -⟩ := h
  refine ⟨hzero, ?_, Or.inr ⟨?_, ?_⟩⟩ <;> push_cast <;> omega

/-! ### Scans -/

/-- A primitive ends within its text. -/
theorem scanPrimitive_le {js : Bytes} {k : ℕ} (h : scanPrimitive js = .ok k) : k ≤ js.length := by
  induction js generalizing k with
  | nil => exact Nat.le_of_eq (Except.ok.inj h).symm
  | cons c js ih =>
      rw [scanPrimitive] at h
      split_ifs at h
      · obtain rfl := Except.ok.inj h
        exact Nat.zero_le _
      · obtain ⟨j, hj, rfl⟩ := map_eq_ok h
        exact Nat.succ_le_succ (ih hj)

/-- A primitive has at least the byte it starts with. -/
theorem scanPrimitive_pos {c : UInt8} {js : Bytes} {k : ℕ} (hc : isDelim c = false)
    (h : scanPrimitive (c :: js) = .ok k) : 0 < k := by
  rw [scanPrimitive, if_neg (by rw [hc]; exact Bool.false_ne_true)] at h
  split_ifs at h
  obtain ⟨j, -, rfl⟩ := map_eq_ok h
  exact Nat.succ_pos j

/-- A string ends in front of a quote. -/
theorem scanString_lt {m : StringMode} {js : Bytes} {k : ℕ} (h : scanString m js = .ok k) :
    k < js.length := by
  induction js generalizing m k with
  | nil => cases m <;> exact absurd h (by simp [scanString])
  | cons c js ih =>
      have hstep : ∀ m', (scanString m' js).map (· + 1) = .ok k → k < (c :: js).length := by
        intro m' h
        obtain ⟨j, hj, rfl⟩ := map_eq_ok h
        exact Nat.succ_lt_succ (ih hj)
      cases m with
      | plain =>
          rw [scanString] at h
          split_ifs at h
          · obtain rfl := Except.ok.inj h
            exact Nat.succ_pos _
          · exact hstep _ h
          · exact hstep _ h
      | escape =>
          rw [scanString] at h
          split_ifs at h <;> exact hstep _ h
      | hex d =>
          rw [scanString.eq_def] at h
          dsimp only at h
          split_ifs at h
          cases d <;> exact hstep _ h

/-! ### What a step does to the tokens -/

section Step

variable {n pos skip : ℕ} {c : UInt8} {js : Bytes} {p q : JsmnParser}

/-- A token that was allocated stands behind the others. -/
theorem spans_jsmnAllocToken {tok : JsmnTok} (h : jsmnAllocToken n p tok = .ok q) :
    p.toks.length < n ∧ q.spans = p.spans ++ [tok.span] := by
  rw [jsmnAllocToken] at h
  split_ifs at h with hroom
  obtain rfl := Except.ok.inj h
  exact ⟨by omega, List.map_append⟩

/-- A bracket takes a token, which stays open. -/
theorem spans_jsmnOpen {type : JsmnType} (h : jsmnOpen n type pos p = .ok q) :
    p.toks.length < n ∧ q.spans = p.spans ++ [⟨type, pos, -1⟩] := by
  obtain ⟨p', hp', hq⟩ := bind_eq_ok h
  obtain rfl := Except.ok.inj hq
  obtain ⟨hroom, hspans⟩ := spans_jsmnAllocToken hp'
  exact ⟨hroom, p'.spans_bumpSuper.trans hspans⟩

/-- A string takes a token for what stands between its quotes. -/
theorem spans_jsmnParseString (h : jsmnParseString n js pos p = .ok (skip, q)) :
    p.toks.length < n ∧ ∃ len, skip = len + 1 ∧ len < js.length ∧
      q.spans = p.spans ++ [⟨.string, pos + 1, pos + 1 + len⟩] := by
  obtain ⟨len, hscan, hq⟩ := bind_eq_ok h
  obtain ⟨p', hp', hq⟩ := bind_eq_ok hq
  obtain ⟨rfl, rfl⟩ := Prod.mk.inj (Except.ok.inj hq)
  obtain ⟨hroom, hspans⟩ := spans_jsmnAllocToken hp'
  exact ⟨hroom, len, rfl, scanString_lt hscan, hspans⟩

/-- A primitive takes a token for its text. -/
theorem spans_jsmnParsePrimitive (h : jsmnParsePrimitive n js pos p = .ok (skip, q)) :
    p.toks.length < n ∧ ∃ len, skip = len - 1 ∧ scanPrimitive js = .ok len ∧
      q.spans = p.spans ++ [⟨.primitive, pos, pos + len⟩] := by
  obtain ⟨len, hscan, hq⟩ := bind_eq_ok h
  obtain ⟨p', hp', hq⟩ := bind_eq_ok hq
  obtain ⟨rfl, rfl⟩ := Prod.mk.inj (Except.ok.inj hq)
  obtain ⟨hroom, hspans⟩ := spans_jsmnAllocToken hp'
  exact ⟨hroom, len, rfl, hscan, hspans⟩

/-- A closing bracket gives an open range its end, and leaves the others alone. -/
theorem spans_jsmnClose {type : JsmnType} (h : jsmnClose type pos p = .ok q) :
    q.toks.length = p.toks.length ∧ ∀ s ∈ q.spans, s ∈ p.spans ∨
      ∃ s' ∈ p.spans, s = { s' with stop := pos + 1 } := by
  obtain ⟨i, htoks, -⟩ := jsmnClose_eq_ok h
  refine ⟨by rw [htoks, List.length_modify], fun s hs => ?_⟩
  obtain ⟨tok, htok, rfl⟩ := List.mem_map.mp hs
  rw [htoks] at htok
  obtain ⟨j, hj, rfl⟩ := List.getElem_of_mem htok
  rw [List.getElem_modify]
  have hj' : j < p.toks.length := by simpa using hj
  have hmem : p.toks[j] ∈ p.toks := List.getElem_mem hj'
  split_ifs
  · exact Or.inr ⟨_, List.mem_map_of_mem hmem, rfl⟩
  · exact Or.inl (List.mem_map_of_mem hmem)

/-- What the body of the loop does to the tokens, if it moves on from `pos` by `skip + 1`
bytes: nothing, or it takes one token, or it closes one. -/
inductive StepEffect (n pos skip : ℕ) (p q : JsmnParser) : Prop
  | idle (hspans : q.spans = p.spans)
  | took (hroom : p.toks.length < n) (s : Span) (hs : s.Within (pos + 1 + skip))
      (hspans : q.spans = p.spans ++ [s])
  | closed (hlen : q.toks.length = p.toks.length) (hspans : ∀ s ∈ q.spans, s ∈ p.spans ∨
      ∃ s' ∈ p.spans, s = { s' with stop := pos + 1 })

/-- **What a step does to the tokens**; it does not move on beyond the text. -/
theorem jsmnStep_effect (h : jsmnStep n c js pos p = .ok (skip, q)) :
    skip ≤ js.length ∧ StepEffect n pos skip p q := by
  rcases jsmnStep_cases n c js pos p with ⟨type, hstep⟩ | ⟨type, hstep⟩ | hstep |
    ⟨q', hq', hstep⟩ | ⟨hdelim, hstep⟩
  all_goals rw [hstep] at h
  · obtain ⟨q', hq', heq⟩ := map_eq_ok h
    obtain ⟨rfl, rfl⟩ := Prod.mk.inj heq
    obtain ⟨hroom, hspans⟩ := spans_jsmnOpen hq'
    exact ⟨Nat.zero_le _, .took hroom _ ⟨by simp, by simp, Or.inl rfl⟩ hspans⟩
  · obtain ⟨q', hq', heq⟩ := map_eq_ok h
    obtain ⟨rfl, rfl⟩ := Prod.mk.inj heq
    obtain ⟨hlen, hspans⟩ := spans_jsmnClose hq'
    exact ⟨Nat.zero_le _, .closed hlen hspans⟩
  · obtain ⟨r, hr, heq⟩ := map_eq_ok h
    obtain ⟨rfl, rfl⟩ := Prod.mk.inj heq
    obtain ⟨hroom, len, hskip, hlen, hspans⟩ := spans_jsmnParseString hr
    rw [hskip]
    have hwithin : (⟨.string, pos + 1, pos + 1 + len⟩ : Span).Within (pos + 1 + (len + 1)) :=
      Span.within_of_le _ (by omega) (by omega) (by push_cast; omega)
    exact ⟨hlen, .took hroom _ hwithin (by rw [JsmnParser.spans_counted, hspans])⟩
  · obtain ⟨rfl, rfl⟩ := Prod.mk.inj (Except.ok.inj h)
    refine ⟨Nat.zero_le _, .idle ?_⟩
    rcases hq' with rfl | rfl | rfl
    · rfl
    · rfl
    · exact spans_jsmnComma p
  · obtain ⟨r, hr, heq⟩ := map_eq_ok h
    obtain ⟨rfl, rfl⟩ := Prod.mk.inj heq
    obtain ⟨hroom, len, hskip, hscan, hspans⟩ := spans_jsmnParsePrimitive hr
    have hpos := scanPrimitive_pos hdelim hscan
    have hlen : len ≤ js.length + 1 := scanPrimitive_le hscan
    rw [hskip]
    have hwithin : (⟨.primitive, pos, pos + len⟩ : Span).Within (pos + 1 + (len - 1)) :=
      Span.within_of_le _ (by omega) (by omega) (by omega)
    exact ⟨by omega, .took hroom _ hwithin (by rw [JsmnParser.spans_counted, hspans])⟩

/-- A mapped result fails where the result does. -/
theorem map_eq_error {ε α β : Type*} {x : Except ε α} {f : α → β} {e : ε}
    (h : x.map f = .error e) : x = .error e := by
  cases x with
  | error e' => exact congrArg Except.error (Except.error.inj h)
  | ok a => exact absurd h (by simp [Except.map])

/-- A sequence fails in its first part or in its second. -/
theorem bind_eq_error {ε α β : Type*} {x : Except ε α} {f : α → Except ε β} {e : ε}
    (h : x.bind f = .error e) : x = .error e ∨ ∃ a, x = .ok a ∧ f a = .error e := by
  cases x with
  | error e' => exact Or.inl (congrArg Except.error (Except.error.inj h))
  | ok a => exact Or.inr ⟨a, rfl, h⟩

/-- A value is no failure. -/
theorem pure_ne_error {ε α : Type*} (a : α) (e : ε) : (pure a : Except ε α) ≠ .error e :=
  nofun

/-- Scanning a primitive takes no token. -/
theorem scanPrimitive_ne_nomem (js : Bytes) : scanPrimitive js ≠ .error .nomem := by
  induction js with
  | nil => simp [scanPrimitive]
  | cons c js ih =>
      rw [scanPrimitive]
      split_ifs
      · simp
      · simp
      · exact fun h => ih (map_eq_error h)

/-- Scanning a string takes none, either. -/
theorem scanString_ne_nomem (m : StringMode) (js : Bytes) : scanString m js ≠ .error .nomem := by
  induction js generalizing m with
  | nil => cases m <;> simp [scanString]
  | cons c js ih =>
      cases m with
      | plain =>
          rw [scanString]
          split_ifs
          · simp
          · exact fun h => ih _ (map_eq_error h)
          · exact fun h => ih _ (map_eq_error h)
      | escape =>
          rw [scanString]
          split_ifs
          · exact fun h => ih _ (map_eq_error h)
          · exact fun h => ih _ (map_eq_error h)
          · simp
      | hex d =>
          rw [scanString.eq_def]
          dsimp only
          split_ifs
          · cases d <;> exact fun h => ih _ (map_eq_error h)
          · simp

/-- An allocation fails only in a full pool. -/
theorem le_of_jsmnAllocToken {tok : JsmnTok} {e : JsmnErr}
    (h : jsmnAllocToken n p tok = .error e) : n ≤ p.toks.length := by
  rw [jsmnAllocToken] at h
  split_ifs at h with hfull
  exact hfull

/-- Closing a bracket needs no token. -/
theorem jsmnClose_ne_nomem (type : JsmnType) : jsmnClose type pos p ≠ .error .nomem := by
  rw [jsmnClose]
  cases lastIdx JsmnTok.isOpen p.toks with
  | none => simp
  | some i =>
      dsimp only
      split_ifs <;> simp

/-- **A token is refused** only if the pool is used up. -/
theorem le_of_jsmnStep_nomem (h : jsmnStep n c js pos p = .error .nomem) :
    n ≤ p.toks.length := by
  rcases jsmnStep_cases n c js pos p with ⟨type, hstep⟩ | ⟨type, hstep⟩ | hstep |
    ⟨q', -, hstep⟩ | ⟨-, hstep⟩
  all_goals rw [hstep] at h
  · rcases bind_eq_error (map_eq_error h) with h | ⟨p', -, h⟩
    · exact le_of_jsmnAllocToken h
    · exact absurd h (pure_ne_error _ _)
  · exact absurd (map_eq_error h) (jsmnClose_ne_nomem _)
  · rcases bind_eq_error (map_eq_error h) with h | ⟨len, -, h⟩
    · exact absurd h (scanString_ne_nomem _ _)
    · rcases bind_eq_error h with h | ⟨p', -, h⟩
      · exact le_of_jsmnAllocToken h
      · exact absurd h (pure_ne_error _ _)
  · exact absurd h (pure_ne_error _ _)
  · rcases bind_eq_error (map_eq_error h) with h | ⟨len, -, h⟩
    · exact absurd h (scanPrimitive_ne_nomem _)
    · rcases bind_eq_error h with h | ⟨p', -, h⟩
      · exact le_of_jsmnAllocToken h
      · exact absurd h (pure_ne_error _ _)

end Step

/-! ### What holds in every state -/

/-- There are not more tokens than bytes in front of the position, and they lie in
these. -/
structure JsmnParser.Fits (pos : ℕ) (p : JsmnParser) : Prop where
  length_le : p.toks.length ≤ pos
  within : ∀ s ∈ p.spans, s.Within pos

/-- At the start there is nothing to fit. -/
theorem fits_jsmnInit : jsmnInit.Fits 0 :=
  ⟨le_refl 0, fun _ hs => absurd hs List.not_mem_nil⟩

section Loop

variable {n pos skip : ℕ} {c : UInt8} {js : Bytes} {p q : JsmnParser}

/-- **One byte** keeps all ranges within the text that is read. -/
theorem JsmnParser.Fits.jsmnStep (hp : p.Fits pos)
    (h : jsmnStep n c js pos p = .ok (skip, q)) : q.Fits (pos + 1 + skip) := by
  have hkeep : ∀ s ∈ p.spans, s.Within (pos + 1 + skip) :=
    fun s hs => (hp.within s hs).mono (by omega)
  have hlen := hp.length_le
  cases (jsmnStep_effect h).2 with
  | idle hspans =>
      refine ⟨?_, hspans ▸ hkeep⟩
      rw [← q.length_spans, hspans, p.length_spans]
      omega
  | took hroom s hs hspans =>
      refine ⟨?_, fun t ht => ?_⟩
      · rw [← q.length_spans, hspans, List.length_append, p.length_spans, List.length_singleton]
        omega
      · rw [hspans, List.mem_append, List.mem_singleton] at ht
        rcases ht with ht | rfl
        · exact hkeep t ht
        · exact hs
  | closed hlen hspans =>
      refine ⟨by omega, fun s hs => ?_⟩
      rcases hspans s hs with hs | ⟨s', hs', rfl⟩
      · exact hkeep s hs
      · exact (hp.within s' hs').close.mono (by omega)

/-- **One byte** keeps the count of tokens within the pool. -/
theorem length_le_of_jsmnStep (hp : p.toks.length ≤ n)
    (h : jsmnStep n c js pos p = .ok (skip, q)) : q.toks.length ≤ n := by
  cases (jsmnStep_effect h).2 with
  | idle hspans => rwa [← q.length_spans, hspans, p.length_spans]
  | took hroom s hs hspans =>
      rw [← q.length_spans, hspans, List.length_append, p.length_spans, List.length_singleton]
      omega
  | closed hlen hspans => rwa [hlen]

/-- **The loop keeps the tokens within the text**, and never takes more than it is given. -/
theorem JsmnParser.Fits.jsmnLoop (hp : p.Fits (pos + skip)) (hn : p.toks.length ≤ n)
    (hskip : skip ≤ js.length) (h : jsmnLoop n js pos skip p = .ok q) :
    q.Fits (pos + js.length) ∧ q.toks.length ≤ n := by
  induction js generalizing pos skip p with
  | nil =>
      obtain rfl := Except.ok.inj h
      obtain rfl : skip = 0 := Nat.le_zero.mp hskip
      exact ⟨hp, hn⟩
  | cons c js ih =>
      have hpos : pos + (c :: js).length = pos + 1 + js.length := by
        rw [List.length_cons]
        omega
      rw [hpos]
      cases skip with
      | succ skip =>
          have heq : pos + (skip + 1) = pos + 1 + skip := by omega
          rw [heq] at hp
          exact ih hp hn (Nat.le_of_succ_le_succ hskip) h
      | zero =>
          rw [AirShifter.jsmnLoop] at h
          cases hstep : AirShifter.jsmnStep n c js pos p with
          | error e =>
              rw [hstep] at h
              exact absurd h (by simp)
          | ok r =>
              rw [hstep] at h
              exact ih (hp.jsmnStep hstep) (length_le_of_jsmnStep hn hstep)
                (jsmnStep_effect hstep).1 h

end Loop

/-- **The tokens of a text that is accepted.** They are as many as the returned count says
and not more than there is room for, and each has its start and its end in the text. -/
theorem jsmnParse_tokens {js : Bytes} {n r : ℕ} {toks : List JsmnTok}
    (h : jsmnParse js n = .ok (r, toks)) : r = toks.length ∧ toks.length ≤ n ∧
      ∀ t ∈ toks, 0 ≤ t.start ∧ t.start ≤ t.stop ∧ t.stop ≤ js.length := by
  refine ⟨count_jsmnParse h, ?_⟩
  rw [jsmnParse] at h
  cases hloop : jsmnLoop n js 0 0 jsmnInit with
  | error e =>
      rw [hloop] at h
      exact absurd h (by simp)
  | ok p =>
      rw [hloop] at h
      dsimp only at h
      split_ifs at h with hopen
      obtain ⟨-, rfl⟩ := Prod.mk.inj (Except.ok.inj h)
      obtain ⟨hfits, hlen⟩ := fits_jsmnInit.jsmnLoop (Nat.zero_le n) (Nat.zero_le _) hloop
      rw [Nat.zero_add] at hfits
      refine ⟨hlen, fun t ht => ?_⟩
      have hclosed : t.span.isOpen = false := by
        rw [← isOpen_eq, ← Bool.not_eq_true]
        exact fun hto => hopen (List.any_eq_true.mpr ⟨t, ht, hto⟩)
      exact (hfits.within _ (List.mem_map_of_mem ht)).closed hclosed

/-! ### A pool that suffices -/

/-- The states in which the loop starts its body: the position and the parser there. A body
asks for at most one token, before it changes the tokens itself. -/
def jsmnVisits (numTokens : ℕ) : Bytes → ℕ → ℕ → JsmnParser → List (ℕ × JsmnParser)
  | [], _, _, _ => []
  | _ :: js, pos, skip + 1, p => jsmnVisits numTokens js (pos + 1) skip p
  | c :: js, pos, 0, p =>
    (pos, p) ::
      match jsmnStep numTokens c js pos p with
      | .error _ => []
      | .ok (skip, p) => jsmnVisits numTokens js (pos + 1) skip p

/-- **The tokens never outnumber the bytes** in front of the position. -/
theorem JsmnParser.Fits.jsmnVisits {n pos skip : ℕ} {js : Bytes} {p : JsmnParser}
    (hp : p.Fits (pos + skip)) :
    ∀ v ∈ jsmnVisits n js pos skip p, v.2.toks.length ≤ v.1 ∧ v.1 < pos + js.length := by
  induction js generalizing pos skip p with
  | nil => exact fun v hv => absurd hv List.not_mem_nil
  | cons c js ih =>
      have hrest : ∀ {skip' p'}, JsmnParser.Fits (pos + 1 + skip') p' →
          ∀ v ∈ AirShifter.jsmnVisits n js (pos + 1) skip' p',
            v.2.toks.length ≤ v.1 ∧ v.1 < pos + (c :: js).length := by
        intro skip' p' hp' v hv
        obtain ⟨hlen, hpos⟩ := ih hp' v hv
        exact ⟨hlen, by rw [List.length_cons]; omega⟩
      cases skip with
      | succ skip =>
          have heq : pos + (skip + 1) = pos + 1 + skip := by omega
          rw [heq] at hp
          exact hrest hp
      | zero =>
          rw [AirShifter.jsmnVisits]
          intro v hv
          rcases List.mem_cons.mp hv with rfl | hv
          · exact ⟨hp.length_le, by rw [List.length_cons]; omega⟩
          · cases hstep : AirShifter.jsmnStep n c js pos p with
            | error e =>
                rw [hstep] at hv
                exact absurd hv List.not_mem_nil
            | ok r =>
                rw [hstep] at hv
                exact hrest (hp.jsmnStep hstep) v hv

/-- The loop ends for want of a token only in a state that it visits. -/
theorem exists_visit_of_nomem {n pos skip : ℕ} {js : Bytes} {p : JsmnParser}
    (h : jsmnLoop n js pos skip p = .error .nomem) :
    ∃ v ∈ jsmnVisits n js pos skip p, n ≤ v.2.toks.length := by
  induction js generalizing pos skip p with
  | nil => exact absurd h (by simp [jsmnLoop])
  | cons c js ih =>
      cases skip with
      | succ skip => exact ih h
      | zero =>
          rw [jsmnLoop] at h
          rw [jsmnVisits]
          cases hstep : jsmnStep n c js pos p with
          | error e =>
              rw [hstep] at h
              obtain rfl := Except.error.inj h
              exact ⟨(pos, p), List.mem_cons_self, le_of_jsmnStep_nomem hstep⟩
          | ok r =>
              rw [hstep] at h
              obtain ⟨v, hv, hlen⟩ := ih h
              exact ⟨v, List.mem_cons_of_mem _ hv, hlen⟩

/-- The tokens taken in front of a byte of the text do not outnumber the bytes. -/
theorem length_le_of_mem_jsmnVisits {n : ℕ} {js : Bytes} :
    ∀ v ∈ jsmnVisits n js 0 0 jsmnInit, v.2.toks.length ≤ v.1 ∧ v.1 < 0 + js.length :=
  JsmnParser.Fits.jsmnVisits fits_jsmnInit

/-- A pool with a token for each byte is never used up. -/
theorem jsmnParse_ne_nomem {js : Bytes} {n : ℕ} (h : js.length ≤ n) :
    jsmnParse js n ≠ .error .nomem := by
  intro hnomem
  rw [jsmnParse] at hnomem
  cases hloop : jsmnLoop n js 0 0 jsmnInit with
  | error e =>
      rw [hloop] at hnomem
      obtain rfl := Except.error.inj hnomem
      obtain ⟨v, hv, hfull⟩ := exists_visit_of_nomem hloop
      obtain ⟨hlen, hpos⟩ := length_le_of_mem_jsmnVisits v hv
      omega
  | ok p =>
      rw [hloop] at hnomem
      dsimp only at hnomem
      split_ifs at hnomem
      exact absurd hnomem (by simp)

/-- The text of a packet is not longer than a packet may be. -/
theorem length_packetText_le {data : Bytes} (h : data.length ≤ maxPkt) :
    (packetText data).length ≤ maxPkt := by
  rw [packetText]
  generalize hbuf : memcpy (memcpy (Vector.replicate (maxPkt + 1) 0) 0 data) data.length [0] = buf
  have hnul : buf[data.length] = 0 := by
    rw [← hbuf, getElem_memcpy, if_pos (by simp), Nat.sub_self]
    rfl
  have hpre : cstr buf <+: buf.toList := List.takeWhile_prefix _
  have hle : (cstr buf).length ≤ maxPkt + 1 := by simpa using hpre.length_le
  refine Nat.le_of_lt_succ (lt_of_le_of_ne hle fun hfull => ?_)
  have hall : cstr buf = buf.toList := hpre.eq_of_length (by simpa using hfull)
  have hmem : buf[data.length] ∈ buf.toList := by simp
  exact zero_notMem_cstr buf (hall ▸ hnul ▸ hmem)

/-- The packets that the packet characteristic admits are those of 1 to 128 bytes. -/
theorem admitted_iff (data : Bytes) :
    (∃ a : Access, gattSvrWriteFlat a 1 maxPkt = .ok data) ↔
      1 ≤ data.length ∧ data.length ≤ maxPkt := by
  constructor
  · rintro ⟨a, h⟩
    rw [gattSvrWriteFlat] at h
    split_ifs at h
    obtain rfl := Except.ok.inj h
    rw [List.length_take]
    omega
  · rintro ⟨hpos, hlen⟩
    have hmod : data.length % 2 ^ 16 = data.length :=
      Nat.mod_eq_of_lt (lt_of_le_of_lt hlen (by decide))
    refine ⟨{ op := .writeChr, connHandle := 0, attrHandle := 0, payload := data }, ?_⟩
    simp only [gattSvrWriteFlat, hmod]
    rw [if_neg (by omega), if_neg (by simp), List.take_length]

/-- **The pool suffices for every packet** that the packet characteristic admits: whenever a
token may be asked for, there are not more of them than bytes in front of the position, and
the parse does not end for want of one. -/
theorem packet_tokens_suffice {data : Bytes} (hpos : 1 ≤ data.length)
    (hlen : data.length ≤ maxPkt) :
    (∃ a : Access, gattSvrWriteFlat a 1 maxPkt = .ok data) ∧
    (∀ v ∈ jsmnVisits jsmnTokenMax ((packetText data).dropWhile isspace) 0 0 jsmnInit,
      v.2.toks.length ≤ v.1) ∧
    jsmnParse ((packetText data).dropWhile isspace) jsmnTokenMax ≠ .error .nomem := by
  have htext : ((packetText data).dropWhile isspace).length ≤ jsmnTokenMax :=
    (List.dropWhile_suffix _).length_le.trans (length_packetText_le hlen)
  refine ⟨(admitted_iff data).mpr ⟨hpos, hlen⟩, fun v hv => ?_, jsmnParse_ne_nomem htext⟩
  exact (length_le_of_mem_jsmnVisits v hv).1

/-- Of eight opening brackets each takes a token of its own. -/
theorem packet_tokens_suffice_brackets :
    (1 ≤ (List.replicate 8 91 : Bytes).length ∧ (List.replicate 8 91 : Bytes).length ≤ maxPkt) ∧
      ((jsmnVisits jsmnTokenMax ((packetText (List.replicate 8 91)).dropWhile isspace) 0 0
        jsmnInit).all fun v => decide (v.2.toks.length ≤ v.1)) = true ∧
      jsmnParse ((packetText (List.replicate 8 91)).dropWhile isspace) jsmnTokenMax ≠
        .error .nomem := by
  have hlen : 1 ≤ (List.replicate 8 91 : Bytes).length ∧
      (List.replicate 8 91 : Bytes).length ≤ maxPkt := by decide
  obtain ⟨-, hvisits, hparse⟩ := packet_tokens_suffice hlen.1 hlen.2
  exact ⟨hlen, List.all_eq_true.mpr fun v hv => decide_eq_true (hvisits v hv), hparse⟩

end AirShifter
