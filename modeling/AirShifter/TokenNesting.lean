import AirShifter.JsonDocument
import AirShifter.TokenPool

/-!
# The Nesting of Tokens

What the tokenizer says about a text that it accepts, whatever the text is. It is not a
strict JSON parser: it lets names without values, values without names and missing commas
pass. Still its tokens are what their types say, and they are properly nested: of any two
tokens, the one that starts later ends before the other one does, or starts behind its
end.

The loop closes brackets by looking for the last token that is still open. The invariant
that makes this a stack discipline is `Span.Before`: whatever was taken behind an open
token is closed by the time its bracket is.

## Main results

* `jsmnLoop_rule`: the loop rule of the tokenizer, with the text that was read.
* `jsmnStep_tokenStep`: what the body of the loop reads, and what it does to the tokens.
* `tokens_nested`: the tokens of a text are properly nested, in the order of their starts.
* `tokens_well_formed`: each token is the text its type says.
-/

open CBytes

namespace AirShifter

/-! ### The loop rule -/

/-- Skipped bytes are passed over, if they are there. -/
theorem jsmnLoop_drop {n pos skip : ℕ} {js : Bytes} {p : JsmnParser} (hskip : skip ≤ js.length) :
    jsmnLoop n js pos skip p = jsmnLoop n (js.drop skip) (pos + skip) 0 p := by
  have hlen : (js.take skip).length = skip := by
    rw [List.length_take]
    omega
  have h := jsmnLoop_skip n (js.take skip) (js.drop skip) pos p
  rwa [List.take_append_drop, hlen] at h

/-- **The loop rule.** What holds of the text read so far and the parser before the loop, and
is kept by every body of the loop over the text `js`, holds of `js` and the parser behind it. -/
theorem jsmnLoop_rule {n : ℕ} {js : Bytes} {I : Bytes → JsmnParser → Prop}
    (next : ∀ {seen c rest p skip q}, js = seen ++ c :: rest → I seen p →
      jsmnStep n c rest seen.length p = .ok (skip, q) → I (seen ++ c :: rest.take skip) q)
    {seen rest : Bytes} {p q : JsmnParser} (hjs : js = seen ++ rest) (hI : I seen p)
    (h : jsmnLoop n rest seen.length 0 p = .ok q) : I js q := by
  induction hlen : rest.length using Nat.strongRecOn generalizing seen rest p with
  | ind k ih =>
      cases rest with
      | nil =>
          obtain rfl := Except.ok.inj h
          rwa [hjs, List.append_nil]
      | cons c rest =>
          rw [jsmnLoop] at h
          cases hstep : jsmnStep n c rest seen.length p with
          | error e =>
              rw [hstep] at h
              exact absurd h (by simp)
          | ok r =>
              obtain ⟨skip, p'⟩ := r
              rw [hstep] at h
              have hskip : skip ≤ rest.length := (jsmnStep_effect hstep).1
              have hpos : seen.length + 1 + skip = (seen ++ c :: rest.take skip).length := by
                rw [List.length_append, List.length_cons, List.length_take]
                omega
              dsimp only at h
              rw [jsmnLoop_drop hskip, hpos] at h
              have hshort : (rest.drop skip).length < k := by
                rw [← hlen, List.length_drop, List.length_cons]
                omega
              refine ih _ hshort ?_ (next hjs hI hstep) h rfl
              rw [hjs, List.append_assoc, List.cons_append, List.take_append_drop]

/-! ### What the scans accept -/

/-- A primitive that is scanned is a run of printable bytes, and delimited. -/
theorem exists_of_scanPrimitive {js : Bytes} {k : ℕ} (h : scanPrimitive js = .ok k) :
    ∃ b rest, js = b ++ rest ∧ b.length = k ∧ Delimited rest ∧
      ∀ c ∈ b, isDelim c = false ∧ 32 ≤ c ∧ c < 127 := by
  induction js generalizing k with
  | nil =>
      obtain rfl := Except.ok.inj h
      exact ⟨[], [], rfl, rfl, delimited_nil, by simp⟩
  | cons c js ih =>
      rw [scanPrimitive] at h
      split_ifs at h with hdelim hprint
      · obtain rfl := Except.ok.inj h
        refine ⟨[], c :: js, rfl, rfl, fun d hd => ?_, by simp⟩
        exact Option.some.inj hd ▸ hdelim
      · obtain ⟨j, hj, rfl⟩ := map_eq_ok h
        obtain ⟨b, rest, rfl, rfl, hrest, hb⟩ := ih hj
        refine ⟨c :: b, rest, rfl, rfl, hrest, fun d hd => ?_⟩
        rcases List.mem_cons.mp hd with rfl | hd
        · rw [not_or, UInt8.not_lt, ge_iff_le, UInt8.not_le] at hprint
          exact ⟨Bool.eq_false_iff.mpr hdelim, hprint⟩
        · exact hb d hd

/-- **A primitive that the scan accepts** is a word in front of a delimiter. -/
theorem exists_word_of_scanPrimitive {c : UInt8} {js : Bytes} {k : ℕ}
    (hc : isPrimitiveStart c = true) (h : scanPrimitive (c :: js) = .ok k) :
    ∃ w : JsonWord, ∃ rest, c :: js = w.bytes ++ rest ∧ w.bytes.length = k ∧ Delimited rest := by
  obtain ⟨b, rest, hsplit, rfl, hrest, hprint⟩ := exists_of_scanPrimitive h
  cases b with
  | nil =>
      have hdelim := hrest c (by rw [← List.nil_append rest, ← hsplit]; rfl)
      simp only [isPrimitiveStart, hdelim, Bool.or_true, Bool.not_true] at hc
      exact absurd hc Bool.false_ne_true
  | cons d b =>
      obtain rfl := (List.cons.inj hsplit).1
      exact ⟨⟨c, b, hc, hprint⟩, rest, hsplit, rfl, hrest⟩

/-- The digits of a unicode escape, and the string behind them. -/
theorem exists_of_scanHex {k : ℕ} {js : Bytes} {len : ℕ} (h : scanString (.hex k) js = .ok len) :
    ∃ ds : List {c : UInt8 // isHex c = true}, ∃ rest j, ds.length = k + 1 ∧
      js = ds.map Subtype.val ++ rest ∧ len = k + 1 + j ∧ scanString .plain rest = .ok j := by
  induction k generalizing js len with
  | zero =>
      cases js with
      | nil => exact absurd h (by simp [scanString])
      | cons c js =>
          rw [scanString] at h
          split_ifs at h with hhex
          obtain ⟨j, hj, rfl⟩ := map_eq_ok h
          exact ⟨[⟨c, hhex⟩], js, j, rfl, rfl, by omega, hj⟩
  | succ k ih =>
      cases js with
      | nil => exact absurd h (by simp [scanString])
      | cons c js =>
          rw [scanString] at h
          split_ifs at h with hhex
          obtain ⟨i, hi, rfl⟩ := map_eq_ok h
          obtain ⟨ds, rest, j, hlen, rfl, rfl, hj⟩ := ih hi
          exact ⟨⟨c, hhex⟩ :: ds, rest, j, by rw [List.length_cons, hlen], rfl, by omega, hj⟩

/-- **A string that the scan accepts** is a JSON string in front of a quote. -/
theorem exists_of_scanString {js : Bytes} {len : ℕ} (h0 : 0 ∉ js)
    (h : scanString .plain js = .ok len) :
    ∃ s : JsonStr, ∃ rest, js = strBytes s ++ 34 :: rest ∧ (strBytes s).length = len := by
  induction hk : js.length using Nat.strongRecOn generalizing js len with
  | ind k ih =>
      cases js with
      | nil => exact absurd h (by simp [scanString])
      | cons c js =>
          rw [scanString] at h
          split_ifs at h with hquote hback
          · obtain rfl := Except.ok.inj h
            exact ⟨[], js, by rw [hquote]; rfl, rfl⟩
          · -- an escape: the byte behind the backslash says how long it is
            obtain ⟨rfl, hne⟩ := hback
            obtain ⟨j, hj, rfl⟩ := map_eq_ok h
            obtain ⟨d, js, rfl⟩ := List.exists_cons_of_ne_nil hne
            rw [scanString] at hj
            split_ifs at hj with hu hescape
            · obtain ⟨i, hi, rfl⟩ := map_eq_ok hj
              obtain ⟨ds, rest, m, hds, rfl, rfl, hm⟩ := exists_of_scanHex hi
              obtain ⟨d₁, d₂, d₃, d₄, rfl⟩ := List.length_eq_four.mp hds
              obtain ⟨s, post, rfl, rfl⟩ := ih rest.length (by
                rw [← hk]; simp only [List.length_cons, List.length_append]; omega)
                (fun hz => h0 (by simp [hz])) hm rfl
              refine ⟨.unicode d₁ d₂ d₃ d₄ :: s, post, by rw [hu]; rfl, ?_⟩
              simp only [strBytes, List.flatMap_cons, StrChar.bytes, List.length_append,
                List.length_cons, List.length_nil]
              omega
            · obtain ⟨i, hi, rfl⟩ := map_eq_ok hj
              obtain ⟨s, post, rfl, rfl⟩ := ih js.length (by
                rw [← hk]; simp only [List.length_cons]; omega)
                (fun hz => h0 (by simp [hz])) hi rfl
              exact ⟨.escape ⟨d, hescape⟩ :: s, post, rfl, rfl⟩
          · obtain ⟨j, hj, rfl⟩ := map_eq_ok h
            have hc : c ≠ 92 := by
              rintro rfl
              rw [not_and, not_not] at hback
              rw [hback rfl] at hj
              exact absurd hj (by simp [scanString])
            have hc0 : c ≠ 0 := by
              rintro rfl
              exact h0 List.mem_cons_self
            obtain ⟨s, post, rfl, rfl⟩ := ih js.length (by rw [← hk]; exact Nat.lt_succ_self _)
              (fun hz => h0 (List.mem_cons_of_mem c hz)) hj rfl
            exact ⟨.plain ⟨c, hquote, hc, hc0⟩ :: s, post, rfl, rfl⟩

/-! ### What the body of the loop reads -/

/-- If there is no last element of a kind, there is none at all. -/
theorem of_lastIdx_eq_none {q : JsmnTok → Bool} {ts : List JsmnTok} (h : lastIdx q ts = none) :
    ∀ t ∈ ts, q t = false := by
  induction ts with
  | nil => exact fun t ht => absurd ht List.not_mem_nil
  | cons t ts ih =>
      rw [lastIdx] at h
      cases hrest : lastIdx q ts with
      | some j =>
          rw [hrest] at h
          exact absurd h (by simp)
      | none =>
          rw [hrest] at h
          dsimp only at h
          split_ifs at h with ht
          intro u hu
          rcases List.mem_cons.mp hu with rfl | hu
          · exact Bool.eq_false_iff.mpr ht
          · exact ih hrest u hu

/-- Behind the last element of a kind there are no others. -/
theorem lastIdx_eq_some {q : JsmnTok → Bool} {ts : List JsmnTok} {i : ℕ}
    (h : lastIdx q ts = some i) : ∃ before t after, ts = before ++ t :: after ∧
      before.length = i ∧ q t = true ∧ ∀ u ∈ after, q u = false := by
  induction ts generalizing i with
  | nil => exact absurd h (by simp [lastIdx])
  | cons t ts ih =>
      rw [lastIdx] at h
      cases hrest : lastIdx q ts with
      | some j =>
          rw [hrest] at h
          obtain rfl := Option.some.inj h
          obtain ⟨before, u, after, rfl, rfl, hu, hafter⟩ := ih hrest
          exact ⟨t :: before, u, after, rfl, rfl, hu, hafter⟩
      | none =>
          rw [hrest] at h
          dsimp only at h
          split_ifs at h with ht
          obtain rfl := Option.some.inj h
          exact ⟨[], t, ts, rfl, rfl, ht, of_lastIdx_eq_none hrest⟩

/-- The bytes between tokens: whitespace, colons and commas. -/
def IsGap (c : UInt8) : Prop :=
  isWs c ∨ c = 58 ∨ c = 44

/-- What the body of the loop does to the ranges `old`, for the byte `c` at `pos` and the text
`js` behind it, and how many bytes it skips. -/
inductive TokenStep (c : UInt8) (js : Bytes) (pos : ℕ) (old : List Span) : ℕ → List Span → Prop
  | idle (hc : IsGap c) : TokenStep c js pos old 0 old
  | opened {type : JsmnType} {rbr : UInt8} (hbr : Brackets type c rbr) :
      TokenStep c js pos old 0 (old ++ [⟨type, pos, -1⟩])
  | closed {type : JsmnType} {lbr : UInt8} {before after : List Span} {start : ℤ}
      (hbr : Brackets type lbr c) (hold : old = before ++ ⟨type, start, -1⟩ :: after)
      (hafter : ∀ s ∈ after, s.isOpen = false) :
      TokenStep c js pos old 0 (before ++ ⟨type, start, pos + 1⟩ :: after)
  | string {len : ℕ} (hc : c = 34) (hscan : scanString .plain js = .ok len) :
      TokenStep c js pos old (len + 1) (old ++ [⟨.string, pos + 1, pos + 1 + len⟩])
  | primitive {len : ℕ} (hc : isPrimitiveStart c = true)
      (hscan : scanPrimitive (c :: js) = .ok len) :
      TokenStep c js pos old (len - 1) (old ++ [⟨.primitive, pos, pos + len⟩])

section Step

variable {n pos skip : ℕ} {c : UInt8} {js : Bytes} {p q : JsmnParser}

/-- A closing bracket closes the last open token, which has its type. -/
theorem tokenStep_close {type : JsmnType} {lbr : UInt8} (hbr : Brackets type lbr c)
    (h : jsmnClose type pos p = .ok q) : TokenStep c js pos p.spans 0 q.spans := by
  rw [jsmnClose] at h
  cases hlast : lastIdx JsmnTok.isOpen p.toks with
  | none =>
      rw [hlast] at h
      exact absurd h (by simp)
  | some i =>
      rw [hlast] at h
      dsimp only at h
      split_ifs at h with htype
      obtain rfl := Except.ok.inj h
      rw [not_not] at htype
      obtain ⟨before, t, after, htoks, rfl, hopen, hafter⟩ := lastIdx_eq_some hlast
      rw [htoks, List.getElem?_append_right (le_refl _), Nat.sub_self,
        List.getElem?_cons_zero] at htype
      obtain rfl : t.type = type := Option.some.inj htype
      have hstop : t.stop = -1 := by
        simp only [JsmnTok.isOpen, Bool.and_eq_true, beq_iff_eq] at hopen
        exact hopen.2
      have hold : p.spans = before.map JsmnTok.span ++
          ⟨t.type, t.start, -1⟩ :: after.map JsmnTok.span := by
        rw [JsmnParser.spans, htoks, List.map_append, List.map_cons, JsmnTok.span, hstop]
      have hnew : (p.toks.modify before.length fun t => { t with stop := (pos : ℤ) + 1 }).map
          JsmnTok.span = before.map JsmnTok.span ++
            ⟨t.type, t.start, pos + 1⟩ :: after.map JsmnTok.span := by
        rw [htoks, modify_append_cons, List.map_append, List.map_cons]
        rfl
      change TokenStep c js pos p.spans 0 ((p.toks.modify before.length _).map JsmnTok.span)
      rw [hnew]
      refine .closed hbr hold fun s hs => ?_
      obtain ⟨u, hu, rfl⟩ := List.mem_map.mp hs
      exact hafter u hu

/-- An opening bracket opens a token. -/
theorem tokenStep_open {type : JsmnType} {rbr : UInt8} (hbr : Brackets type c rbr)
    (h : jsmnOpen n type pos p = .ok q) : TokenStep c js pos p.spans 0 q.spans := by
  rw [(spans_jsmnOpen h).2]
  exact .opened hbr

/-- **What the body of the loop reads**, and what it does to the tokens. -/
theorem jsmnStep_tokenStep (h : jsmnStep n c js pos p = .ok (skip, q)) :
    TokenStep c js pos p.spans skip q.spans := by
  by_cases h123 : c = 123
  · subst h123
    obtain ⟨p', hp', heq⟩ := map_eq_ok (x := jsmnOpen n .object pos p) h
    obtain ⟨rfl, rfl⟩ := Prod.mk.inj heq
    exact tokenStep_open .object hp'
  by_cases h91 : c = 91
  · subst h91
    obtain ⟨p', hp', heq⟩ := map_eq_ok (x := jsmnOpen n .array pos p) h
    obtain ⟨rfl, rfl⟩ := Prod.mk.inj heq
    exact tokenStep_open .array hp'
  by_cases h125 : c = 125
  · subst h125
    obtain ⟨p', hp', heq⟩ := map_eq_ok (x := jsmnClose .object pos p) h
    obtain ⟨rfl, rfl⟩ := Prod.mk.inj heq
    exact tokenStep_close .object hp'
  by_cases h93 : c = 93
  · subst h93
    obtain ⟨p', hp', heq⟩ := map_eq_ok (x := jsmnClose .array pos p) h
    obtain ⟨rfl, rfl⟩ := Prod.mk.inj heq
    exact tokenStep_close .array hp'
  by_cases h34 : c = 34
  · rw [jsmnStep, if_neg h123, if_neg h91, if_neg h125, if_neg h93, if_pos h34] at h
    obtain ⟨r, hr, heq⟩ := map_eq_ok h
    obtain ⟨rfl, rfl⟩ := Prod.mk.inj heq
    obtain ⟨len, hscan, hr⟩ := bind_eq_ok hr
    obtain ⟨p', hp', hr⟩ := bind_eq_ok hr
    obtain rfl := Except.ok.inj hr
    rw [JsmnParser.spans_counted, (spans_jsmnAllocToken hp').2]
    exact .string h34 hscan
  rw [jsmnStep, if_neg h123, if_neg h91, if_neg h125, if_neg h93, if_neg h34] at h
  split_ifs at h with hws h58 h44
  · obtain ⟨rfl, rfl⟩ := Prod.mk.inj (Except.ok.inj h)
    exact .idle (Or.inl hws)
  · obtain ⟨rfl, rfl⟩ := Prod.mk.inj (Except.ok.inj h)
    exact .idle (Or.inr (Or.inl h58))
  · obtain ⟨rfl, rfl⟩ := Prod.mk.inj (Except.ok.inj h)
    rw [spans_jsmnComma]
    exact .idle (Or.inr (Or.inr h44))
  · obtain ⟨r, hr, heq⟩ := map_eq_ok h
    obtain ⟨rfl, rfl⟩ := Prod.mk.inj heq
    obtain ⟨len, hscan, hr⟩ := bind_eq_ok hr
    obtain ⟨p', hp', hr⟩ := bind_eq_ok hr
    obtain rfl := Except.ok.inj hr
    rw [JsmnParser.spans_counted, (spans_jsmnAllocToken hp').2]
    refine .primitive ?_ hscan
    rw [not_or, not_or, not_or] at hws
    simp [isPrimitiveStart, isDelim, hws, h58, h44, h93, h125, h123, h91, h34]

end Step

/-! ### Nesting -/

/-- Of the ranges `a` and `b`, `b` starts later; and either `a` is still open, or it ended
before `b` starts, or it is a container around `b`. -/
structure Span.Before (a b : Span) : Prop where
  start_lt : a.start < b.start
  stop : a.isOpen = true ∨ a.isOpen = false ∧ a.stop ≤ b.start ∨
    (a.isOpen = false ∧ b.isOpen = false) ∧ (a.type = .array ∨ a.type = .object) ∧
      b.stop < a.stop

/-- The ranges that were read in front of `pos` are nested. -/
structure NestedAt (pos : ℕ) (spans : List Span) : Prop where
  pairwise : spans.Pairwise Span.Before
  start_lt : ∀ s ∈ spans, s.start < pos ∧ 0 ≤ s.start
  stop_le : ∀ s ∈ spans, s.isOpen = false → s.stop ≤ pos

/-- Nested ranges stay nested in a text that is read on. -/
theorem NestedAt.mono {pos pos' : ℕ} {spans : List Span} (h : NestedAt pos spans)
    (hle : pos ≤ pos') : NestedAt pos' spans where
  pairwise := h.pairwise
  start_lt s hs := by
    have := h.start_lt s hs
    omega
  stop_le s hs hs' := by
    have := h.stop_le s hs hs'
    omega

/-- A range is open as long as it has no end. -/
theorem Span.isOpen_eq_true_iff {s : Span} (h : 0 ≤ s.start) : s.isOpen = true ↔ s.stop = -1 := by
  have hne : s.start ≠ -1 := by omega
  simp [Span.isOpen, hne]

/-- **A range that starts behind the text read so far** keeps the ranges nested. -/
theorem NestedAt.concat {pos pos' : ℕ} {spans : List Span} {s : Span} (h : NestedAt pos spans)
    (hstart : pos ≤ s.start ∧ s.start < pos')
    (hstop : s.isOpen = false → s.stop ≤ pos') : NestedAt pos' (spans ++ [s]) where
  pairwise := by
    refine List.pairwise_append.mpr ⟨h.pairwise, List.pairwise_singleton _ _, ?_⟩
    intro a ha b hb
    rw [List.mem_singleton.mp hb]
    have ha' := h.start_lt a ha
    refine ⟨by omega, ?_⟩
    cases hopen : a.isOpen with
    | true => exact Or.inl rfl
    | false =>
        have := h.stop_le a ha hopen
        exact Or.inr (Or.inl ⟨rfl, by omega⟩)
  start_lt a ha := by
    rcases List.mem_append.mp ha with ha | ha
    · have := h.start_lt a ha
      omega
    · rw [List.mem_singleton.mp ha]
      omega
  stop_le a ha hclosed := by
    rcases List.mem_append.mp ha with ha | ha
    · have := h.stop_le a ha hclosed
      omega
    · rw [List.mem_singleton.mp ha] at hclosed ⊢
      exact hstop hclosed

/-- **Closing the innermost container** keeps the ranges nested: what stands behind it in the
list is closed, and stands inside it. -/
theorem NestedAt.close {pos : ℕ} {type : JsmnType} {before after : List Span} {start : ℤ}
    (h : NestedAt pos (before ++ ⟨type, start, -1⟩ :: after))
    (htype : type = .array ∨ type = .object) (hafter : ∀ s ∈ after, s.isOpen = false) :
    NestedAt (pos + 1) (before ++ ⟨type, start, pos + 1⟩ :: after) := by
  obtain ⟨hbefore, hrest, hcross⟩ := List.pairwise_append.mp h.pairwise
  obtain ⟨hhead, hafterPair⟩ := List.pairwise_cons.mp hrest
  have hstart := h.start_lt ⟨type, start, -1⟩ (by simp)
  dsimp only at hstart
  have hopen : (⟨type, start, -1⟩ : Span).isOpen = true :=
    (Span.isOpen_eq_true_iff hstart.2).mpr rfl
  have hclosed : (⟨type, start, pos + 1⟩ : Span).isOpen = false := by
    rw [← Bool.not_eq_true, Span.isOpen_eq_true_iff hstart.2]
    dsimp only
    omega
  constructor
  · refine List.pairwise_append.mpr ⟨hbefore, List.pairwise_cons.mpr ⟨?_, hafterPair⟩, ?_⟩
    · intro b hb
      have hstop := h.stop_le b (by simp [hb]) (hafter b hb)
      refine ⟨(hhead b hb).start_lt, Or.inr (Or.inr ⟨⟨hclosed, hafter b hb⟩, htype, ?_⟩)⟩
      dsimp only
      omega
    · intro a ha b hb
      rcases List.mem_cons.mp hb with rfl | hb
      · have hab := hcross a ha ⟨type, start, -1⟩ List.mem_cons_self
        refine ⟨hab.start_lt, ?_⟩
        rcases hab.stop with ha | ha | ⟨⟨-, hb⟩, -⟩
        · exact Or.inl ha
        · exact Or.inr (Or.inl ha)
        · exact absurd (hopen.symm.trans hb) (by simp)
      · exact hcross a ha b (List.mem_cons_of_mem _ hb)
  · intro s hs
    rcases List.mem_append.mp hs with hs | hs
    · have := h.start_lt s (by simp [hs])
      omega
    · rcases List.mem_cons.mp hs with rfl | hs
      · dsimp only
        omega
      · have := h.start_lt s (by simp [hs])
        omega
  · intro s hs hclosed
    rcases List.mem_append.mp hs with hs | hs
    · have := h.stop_le s (by simp [hs]) hclosed
      omega
    · rcases List.mem_cons.mp hs with rfl | hs
      · dsimp only
        omega
      · have := h.stop_le s (by simp [hs]) hclosed
        omega

/-- **The body of the loop keeps the tokens nested.** -/
theorem NestedAt.tokenStep {c : UInt8} {js : Bytes} {pos skip : ℕ} {old new : List Span}
    (h : NestedAt pos old) (hstep : TokenStep c js pos old skip new) :
    NestedAt (pos + 1 + skip) new := by
  cases hstep with
  | idle hc => exact h.mono (by omega)
  | opened hbr =>
      refine h.concat ⟨le_refl _, by dsimp only; omega⟩ fun hclosed => ?_
      rw [← Bool.not_eq_true, Span.isOpen_eq_true_iff (by dsimp only; omega)] at hclosed
      exact absurd rfl hclosed
  | closed hbr hold hafter =>
      subst hold
      refine h.close ?_ hafter
      cases hbr with
      | array => exact Or.inl rfl
      | object => exact Or.inr rfl
  | string hc hscan =>
      refine h.concat ⟨by dsimp only; omega, by dsimp only; push_cast; omega⟩
        fun _ => ?_
      dsimp only
      push_cast
      omega
  | primitive hc hscan =>
      have hdelim : isDelim c = false := by
        simp only [isPrimitiveStart, Bool.not_eq_true', Bool.or_eq_false_iff] at hc
        exact hc.2
      have hlen := scanPrimitive_pos hdelim hscan
      refine h.concat ⟨le_refl _, by dsimp only; push_cast; omega⟩ fun _ => ?_
      dsimp only
      omega

/-- At the start there are no ranges. -/
theorem nestedAt_init : NestedAt 0 jsmnInit.spans :=
  ⟨List.Pairwise.nil, fun _ hs => absurd hs List.not_mem_nil,
    fun _ hs => absurd hs List.not_mem_nil⟩

/-- What the loop leaves if the text is accepted. -/
theorem jsmnLoop_of_jsmnParse {js : Bytes} {n r : ℕ} {toks : List JsmnTok}
    (h : jsmnParse js n = .ok (r, toks)) : ∃ p, jsmnLoop n js 0 0 jsmnInit = .ok p ∧
      p.toks = toks ∧ ∀ s ∈ p.spans, s.isOpen = false := by
  rw [jsmnParse] at h
  cases hloop : jsmnLoop n js 0 0 jsmnInit with
  | error e =>
      rw [hloop] at h
      exact absurd h (by simp)
  | ok p =>
      rw [hloop] at h
      dsimp only at h
      split_ifs at h with hopen
      obtain ⟨-, rfl⟩ := Prod.mk.inj (Except.ok.inj h)
      refine ⟨p, rfl, rfl, fun s hs => ?_⟩
      obtain ⟨t, ht, rfl⟩ := List.mem_map.mp hs
      rw [← Bool.not_eq_true]
      exact fun hto => hopen (List.any_eq_true.mpr ⟨t, ht, hto⟩)

/-- The text that the body of the loop has read. -/
theorem length_read {n skip : ℕ} {seen : Bytes} {c : UInt8} {rest : Bytes} {p q : JsmnParser}
    (h : jsmnStep n c rest seen.length p = .ok (skip, q)) :
    (seen ++ c :: rest.take skip).length = seen.length + 1 + skip := by
  have hskip := (jsmnStep_effect h).1
  rw [List.length_append, List.length_cons, List.length_take]
  omega

/-- The ranges of the tokens of an accepted text are nested, and all of them are closed. -/
theorem nestedAt_of_jsmnParse {js : Bytes} {n r : ℕ} {toks : List JsmnTok}
    (h : jsmnParse js n = .ok (r, toks)) :
    NestedAt js.length (toks.map JsmnTok.span) ∧ ∀ t ∈ toks, t.span.isOpen = false := by
  obtain ⟨p, hloop, rfl, hclosed⟩ := jsmnLoop_of_jsmnParse h
  refine ⟨?_, fun t ht => hclosed _ (List.mem_map_of_mem ht)⟩
  refine jsmnLoop_rule (I := fun seen p => NestedAt seen.length p.spans) ?_
    (List.nil_append js).symm nestedAt_init hloop
  intro seen c rest p skip q _ hI hstep
  rw [length_read hstep]
  exact hI.tokenStep (jsmnStep_tokenStep hstep)

/-- Of two closed ranges in order, the first ends before the second starts, or it is a
container and the second ends inside it. -/
theorem Span.Before.of_closed {a b : Span} (h : a.Before b) (ha : a.isOpen = false) :
    a.start < b.start ∧
      (a.stop ≤ b.start ∨ (a.type = .array ∨ a.type = .object) ∧ b.stop < a.stop) := by
  refine ⟨h.start_lt, ?_⟩
  rcases h.stop with hopen | ⟨-, hstop⟩ | ⟨-, hinside⟩
  · exact absurd (hopen.symm.trans ha) (by simp)
  · exact Or.inl hstop
  · exact Or.inr hinside

/-- **The tokens of an accepted text are properly nested**, in the order of their starts: of
two tokens, the first ends before the second starts, or it is a container and the second
ends inside it. -/
theorem tokens_nested {js : Bytes} {n r : ℕ} {toks : List JsmnTok}
    (h : jsmnParse js n = .ok (r, toks)) :
    toks.Pairwise fun a b => a.start < b.start ∧
      (a.stop ≤ b.start ∨ (a.type = .array ∨ a.type = .object) ∧ b.stop < a.stop) := by
  obtain ⟨hnested, hclosed⟩ := nestedAt_of_jsmnParse h
  exact (List.pairwise_map.mp hnested.pairwise).imp_of_mem fun ha _ hab =>
    hab.of_closed (hclosed _ ha)

/-- The text `[[1],x]`. -/
def listText : Bytes :=
  [91, 91, 49, 93, 44, 120, 93]

/-- The tokens of `listText`. -/
def listToks : List JsmnTok :=
  [⟨.array, 0, 7, 2⟩, ⟨.array, 1, 4, 1⟩, ⟨.primitive, 2, 3, 0⟩, ⟨.primitive, 5, 6, 0⟩]

/-- The inner array ends before the word behind it starts, and inside the outer one. -/
theorem tokens_nested_listText : listToks.Pairwise fun a b => a.start < b.start ∧
    (a.stop ≤ b.start ∨ (a.type = .array ∨ a.type = .object) ∧ b.stop < a.stop) :=
  tokens_nested (show jsmnParse listText 8 = .ok (4, listToks) from rfl)

/-! ### What the tokens are -/

/-- What stands in the text `js` at a range. -/
inductive TokenText (js : Bytes) : Span → Prop
  | opened {type : JsmnType} {lbr rbr : UInt8} (hbr : Brackets type lbr rbr) (pre rest : Bytes)
      (hjs : js = pre ++ lbr :: rest) : TokenText js ⟨type, pre.length, -1⟩
  | container {type : JsmnType} {lbr rbr : UInt8} (hbr : Brackets type lbr rbr)
      (pre body post : Bytes) (hjs : js = pre ++ lbr :: (body ++ rbr :: post)) :
      TokenText js ⟨type, pre.length, pre.length + (body.length + 2)⟩
  | string (pre : Bytes) (s : JsonStr) (post : Bytes)
      (hjs : js = pre ++ 34 :: (strBytes s ++ 34 :: post)) :
      TokenText js ⟨.string, pre.length + 1, pre.length + 1 + (strBytes s).length⟩
  | primitive (pre : Bytes) (w : JsonWord) (post : Bytes) (hpost : Delimited post)
      (hjs : js = pre ++ (w.bytes ++ post)) :
      TokenText js ⟨.primitive, pre.length, pre.length + w.bytes.length⟩

/-- Of two places in a text, the byte at the earlier one stands in front of the later one. -/
theorem exists_of_lt {js pre rest seen tail : Bytes} {a c : UInt8} (h : js = pre ++ a :: rest)
    (h' : js = seen ++ c :: tail) (hlt : pre.length < seen.length) :
    ∃ body, seen = pre ++ a :: body := by
  rcases List.append_eq_append_iff.mp (h.symm.trans h') with ⟨body, rfl, hrest⟩ | ⟨body, rfl, -⟩
  · cases body with
    | nil =>
        rw [List.append_nil] at hlt
        exact absurd hlt (lt_irrefl _)
    | cons d body =>
        exact ⟨body, by rw [(List.cons.inj hrest).1]⟩
  · rw [List.length_append] at hlt
    omega

/-- The type of a container tells its opening bracket. -/
theorem Brackets.left_unique {type : JsmnType} {lbr rbr lbr' rbr' : UInt8}
    (h : Brackets type lbr rbr) (h' : Brackets type lbr' rbr') : lbr = lbr' := by
  cases h <;> cases h' <;> rfl

/-- **The body of the loop** reads what its token says. -/
theorem TokenText.tokenStep {js seen rest : Bytes} {c : UInt8} {skip : ℕ} {old new : List Span}
    (hjs : js = seen ++ c :: rest) (h0 : 0 ∉ js) (hnested : NestedAt seen.length old)
    (hold : ∀ s ∈ old, TokenText js s) (hstep : TokenStep c rest seen.length old skip new) :
    ∀ s ∈ new, TokenText js s := by
  have hconcat : ∀ {s}, TokenText js s → ∀ t ∈ old ++ [s], TokenText js t := by
    intro s hs t ht
    rcases List.mem_append.mp ht with ht | ht
    · exact hold t ht
    · exact List.mem_singleton.mp ht ▸ hs
  have h0' : 0 ∉ rest := fun h => h0 (by simp [hjs, h])
  cases hstep with
  | idle hc => exact hold
  | opened hbr => exact hconcat (.opened hbr seen rest hjs)
  | @closed type lbr before after start hbr hsplit hafter =>
      intro s hs
      have hmem : (⟨type, start, -1⟩ : Span) ∈ old := by simp [hsplit]
      rcases List.mem_append.mp hs with hs | hs
      · exact hold s (by simp [hsplit, hs])
      · rcases List.mem_cons.mp hs with rfl | hs
        · cases hold _ hmem with
          | @opened _ lbr' rbr' hbr' pre rest' hjs' =>
              have hlt : (pre.length : ℤ) < seen.length := (hnested.start_lt _ hmem).1
              obtain ⟨body, rfl⟩ := exists_of_lt hjs' hjs (by exact_mod_cast hlt)
              have hstop : (((pre ++ lbr' :: body).length : ℕ) : ℤ) + 1 =
                  pre.length + (body.length + 2) := by
                rw [List.length_append, List.length_cons]
                omega
              rw [hstop]
              refine .container hbr pre body rest ?_
              rw [hjs, hbr.left_unique hbr', List.append_assoc, List.cons_append]
        · exact hold s (by simp [hsplit, hs])
  | string hc hscan =>
      obtain ⟨s, post, rfl, rfl⟩ := exists_of_scanString h0' hscan
      exact hconcat (.string seen s post (by rw [hjs, hc]))
  | primitive hc hscan =>
      obtain ⟨w, post, hsplit, rfl, hpost⟩ := exists_word_of_scanPrimitive hc hscan
      exact hconcat (.primitive seen w post hpost (by rw [hjs, hsplit]))

/-- **Each token of an accepted text is what its type says**: an array or an object from its
opening bracket to the closing one of the same kind, a JSON string between two quotes, or a
word of printable bytes up to a delimiter. -/
theorem tokens_well_formed {js : Bytes} {n r : ℕ} {toks : List JsmnTok} (h0 : 0 ∉ js)
    (h : jsmnParse js n = .ok (r, toks)) :
    ∀ t ∈ toks, TokenText js t.span ∧ t.span.isOpen = false := by
  obtain ⟨p, hloop, rfl, hclosed⟩ := jsmnLoop_of_jsmnParse h
  have hread : NestedAt js.length p.spans ∧ ∀ s ∈ p.spans, TokenText js s := by
    refine jsmnLoop_rule (I := fun seen p => NestedAt seen.length p.spans ∧
      ∀ s ∈ p.spans, TokenText js s) ?_ (List.nil_append js).symm
      ⟨nestedAt_init, fun _ hs => absurd hs List.not_mem_nil⟩ hloop
    rintro seen c rest p skip q hjs ⟨hnested, htext⟩ hstep
    have htoken := jsmnStep_tokenStep hstep
    rw [length_read hstep]
    exact ⟨hnested.tokenStep htoken, TokenText.tokenStep hjs h0 hnested htext htoken⟩
  intro t ht
  have hmem : t.span ∈ p.spans := List.mem_map_of_mem ht
  exact ⟨hread.2 _ hmem, hclosed _ hmem⟩

/-- The inner array stands between its brackets. -/
theorem tokens_well_formed_listText :
    TokenText listText ⟨.array, 1, 4⟩ ∧ (⟨.array, 1, 4⟩ : Span).isOpen = false :=
  tokens_well_formed (by decide) (show jsmnParse listText 8 = .ok (4, listToks) from rfl)
    ⟨.array, 1, 4, 1⟩ (by decide)

end AirShifter
