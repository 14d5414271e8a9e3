import AirShifter.TokenNesting

/-!
# Which Texts Are Accepted

The language of the tokenizer. It is wider than JSON: between strings, words and bracketed
groups any whitespace, colons and commas may stand, or none. It is still context-free, by a
grammar with one rule for each thing the tokenizer knows, and each text of the language has
the tokens that the grammar gives it.

The three error codes are stated in terms of the language as well. What decides between them
is whether more bytes could still complete the text.

## Main results

* `jsmnParse_looseText`: the tokens of a text of the language.
* `closes_of_loop`: unless it reports an invalid byte or runs out of tokens, the loop has read
  a text that can be completed, by the brackets still to close if it came to the end.
* `parse_accepts_iff`, `parse_errors_iff`: what each answer of the tokenizer says about the text.
-/

open CBytes

namespace AirShifter

/-! ### The language -/

/-- The texts of the language, with their tokens in the order in which they start. A word has
to end in front of a delimiter; anything else may be followed by anything. -/
inductive LooseText : Bytes → List Lexeme → Prop
  | nil : LooseText [] []
  | gap {c : UInt8} {rest : Bytes} {lexs : List Lexeme} (hc : IsGap c) (h : LooseText rest lexs) :
      LooseText (c :: rest) lexs
  | string (s : JsonStr) {rest : Bytes} {lexs : List Lexeme} (h : LooseText rest lexs) :
      LooseText (34 :: (strBytes s ++ 34 :: rest)) (⟨.string, strBytes s⟩ :: lexs)
  | word (w : JsonWord) {rest : Bytes} {lexs : List Lexeme} (hrest : Delimited rest)
      (h : LooseText rest lexs) : LooseText (w.bytes ++ rest) (⟨.primitive, w.bytes⟩ :: lexs)
  | group {type : JsmnType} {lbr rbr : UInt8} {body rest : Bytes} {inner lexs : List Lexeme}
      (hbr : Brackets type lbr rbr) (hbody : LooseText body inner) (h : LooseText rest lexs) :
      LooseText (lbr :: (body ++ rbr :: rest))
        (⟨type, lbr :: (body ++ [rbr])⟩ :: (inner ++ lexs))

/-- A text can be completed to one of the language. -/
def Completable (t : Bytes) : Prop :=
  ∃ ext lexs, LooseText (t ++ ext) lexs

/-- A text in front of another one is delimited if both are. -/
theorem Delimited.append {t js : Bytes} (h : Delimited t) (hjs : Delimited js) :
    Delimited (t ++ js) := by
  cases t with
  | nil => exact hjs
  | cons c t => exact h

/-- The start of a delimited text is delimited. -/
theorem Delimited.of_prefix {s t : Bytes} (h : Delimited t) (hs : s <+: t) : Delimited s := by
  obtain ⟨u, rfl⟩ := hs
  cases s with
  | nil => exact delimited_nil
  | cons c s => exact h

/-! ### Its texts are accepted -/

/-- A byte of a gap adds no token. -/
theorem tokenizes_gap {n : ℕ} {C : Bytes → Prop} {c : UInt8} (hc : IsGap c) :
    Tokenizes n C [c] [] := by
  rcases hc with hc | hc
  · exact tokenizes_ws ⟨[c], fun d hd => List.mem_singleton.mp hd ▸ hc⟩
  · exact .of_reads (reads_separator hc)

/-- **A text of the language** is a piece that the tokenizer reads. -/
theorem LooseText.tokenizes {t : Bytes} {lexs : List Lexeme} (h : LooseText t lexs) (n : ℕ) :
    Tokenizes n Delimited t lexs := by
  induction h with
  | nil => exact .of_reads reads_nil
  | gap hc _ ih => exact ih.after (tokenizes_gap hc)
  | @string s rest lexs _ ih =>
      have hstring := ih.after (tokenizes_str s)
      rwa [List.cons_append, List.append_assoc, List.singleton_append] at hstring
  | word w hrest _ ih => exact (tokenizes_word w).append ih fun js hjs => hrest.append hjs
  | @group type lbr rbr body rest inner lexs hbr _ _ ihbody ih =>
      have hgroup := ih.after (tokenizes_container hbr ihbody)
      rwa [List.cons_append, List.append_assoc, List.singleton_append] at hgroup

/-- **The tokens of a text of the language**, or the error if the pool is too small. -/
theorem jsmnParse_looseText {t : Bytes} {lexs : List Lexeme} (h : LooseText t lexs) (n : ℕ) :
    if lexs.length ≤ n then
      ∃ toks, jsmnParse t n = .ok (toks.length, toks) ∧
        toks.map (fun tok => tok.span.lexeme t) = lexs
    else jsmnParse t n = .error .nomem := by
  split_ifs with hroom
  · exact (h.tokenizes n).parse_of_room hroom
  · exact (h.tokenizes n).parse_of_full (not_le.mp hroom)

/-! ### What is still to close -/

/-- The closing bracket of a type. -/
def closingOf : JsmnType → Option UInt8
  | .array => some 93
  | .object => some 125
  | .string | .primitive => none

/-- The closing brackets that the open ranges need, innermost first. -/
def needed (spans : List Span) : Bytes :=
  (spans.reverse.filter Span.isOpen).filterMap fun s => closingOf s.type

/-- The text closes the brackets `st` one after the other, with texts of the language in front
of, between and behind them. -/
inductive Closes : Bytes → Bytes → Prop
  | nil {t : Bytes} {lexs : List Lexeme} (h : LooseText t lexs) : Closes [] t
  | cons {body t st : Bytes} {lexs : List Lexeme} (rbr : UInt8) (hbody : LooseText body lexs)
      (h : Closes st t) : Closes (rbr :: st) (body ++ rbr :: t)

/-- Brackets close themselves. -/
theorem closes_self (st : Bytes) : Closes st st := by
  induction st with
  | nil => exact .nil .nil
  | cons rbr st ih => exact .cons rbr .nil ih

/-- **A piece in front**, if it can stand in front of each start of the text. -/
theorem Closes.prepend {b st t : Bytes} (h : Closes st t)
    (hb : ∀ s lexs, s <+: t → LooseText s lexs → ∃ lexs', LooseText (b ++ s) lexs') :
    Closes st (b ++ t) := by
  cases h with
  | nil h =>
      obtain ⟨lexs', h'⟩ := hb _ _ List.prefix_rfl h
      exact .nil h'
  | @cons body t st lexs rbr hbody h =>
      obtain ⟨lexs', hbody'⟩ := hb _ _ (List.prefix_append _ _) hbody
      rw [← List.append_assoc]
      exact .cons rbr hbody' h

/-- **An opening bracket** in front of a text that closes it. -/
theorem Closes.open {type : JsmnType} {lbr rbr : UInt8} {st t : Bytes}
    (hbr : Brackets type lbr rbr) (h : Closes (rbr :: st) t) : Closes st (lbr :: t) := by
  cases h with
  | @cons body t st lexs _ hbody h =>
      cases h with
      | nil h => exact .nil (.group hbr hbody h)
      | @cons body' t st lexs' rbr' hbody' h =>
          have hgroup := Closes.cons rbr' (.group hbr hbody hbody') h
          rwa [List.cons_append, List.append_assoc, List.cons_append] at hgroup

/-- **A gap** in front. -/
theorem Closes.gap {c : UInt8} {st t : Bytes} (hc : IsGap c) (h : Closes st t) :
    Closes st (c :: t) :=
  h.prepend (b := [c]) fun _ lexs _ hs => ⟨lexs, .gap hc hs⟩

/-- **A string** in front. -/
theorem Closes.string (str : JsonStr) {st t : Bytes} (h : Closes st t) :
    Closes st (34 :: (strBytes str ++ 34 :: t)) := by
  have hb : ∀ s : Bytes, 34 :: (strBytes str ++ [34]) ++ s = 34 :: (strBytes str ++ 34 :: s) := by
    simp
  rw [← hb]
  refine h.prepend fun s lexs _ hs => ?_
  rw [hb]
  exact ⟨_, .string str hs⟩

/-- **A word** in front of a delimiter. -/
theorem Closes.word (w : JsonWord) {st t : Bytes} (ht : Delimited t) (h : Closes st t) :
    Closes st (w.bytes ++ t) :=
  h.prepend fun _ _ hs htext => ⟨_, .word w (ht.of_prefix hs) htext⟩

/-- The brackets that are still open are closed from the inside. -/
theorem needed_append (a b : List Span) : needed (a ++ b) = needed b ++ needed a := by
  rw [needed, List.reverse_append, List.filter_append, List.filterMap_append]
  rfl

/-- Closed ranges need no bracket. -/
theorem needed_eq_nil {spans : List Span} (h : ∀ s ∈ spans, s.isOpen = false) :
    needed spans = [] := by
  have hfilter : spans.reverse.filter Span.isOpen = [] := by
    rw [List.filter_eq_nil_iff]
    intro s hs
    rw [h s (List.mem_reverse.mp hs)]
    exact Bool.false_ne_true
  rw [needed, hfilter, List.filterMap_nil]

/-- An open container needs its bracket. -/
theorem needed_open {type : JsmnType} {lbr rbr : UInt8} (hbr : Brackets type lbr rbr) {start : ℤ}
    (hstart : 0 ≤ start) : needed [⟨type, start, -1⟩] = [rbr] := by
  have hopen : (⟨type, start, -1⟩ : Span).isOpen = true :=
    (Span.isOpen_eq_true_iff hstart).mpr rfl
  rw [needed, List.reverse_singleton, List.filter_singleton, hopen]
  cases hbr <;> rfl

/-- What is still to close starts with a delimiter. -/
theorem delimited_needed (spans : List Span) : Delimited (needed spans) := by
  intro c hc
  obtain ⟨s, -, hs⟩ := List.mem_filterMap.mp (List.mem_of_mem_head? hc)
  cases htype : s.type <;> rw [htype] at hs
  · exact Option.some.inj hs ▸ rfl
  · exact Option.some.inj hs ▸ rfl
  · exact absurd hs (by simp [closingOf])
  · exact absurd hs (by simp [closingOf])

/-- **What the body of the loop reads** stands in front of a text that closes what is open
behind it. -/
theorem Closes.tokenStep {c : UInt8} {rest ext : Bytes} {pos skip : ℕ} {old new : List Span}
    (h0 : 0 ∉ rest) (hnested : NestedAt pos old) (hstep : TokenStep c rest pos old skip new)
    (hext : rest.drop skip = [] → Delimited ext)
    (h : Closes (needed new) (rest.drop skip ++ ext)) :
    Closes (needed old) (c :: (rest ++ ext)) := by
  cases hstep with
  | idle hc => exact h.gap hc
  | opened hbr =>
      rw [needed_append, needed_open hbr (by omega), List.singleton_append] at h
      exact h.open hbr
  | @closed type lbr before after start hbr hold hafter =>
      have hstart : 0 ≤ start := (hnested.start_lt ⟨type, start, -1⟩ (by simp [hold])).2
      have hclosed : (⟨type, start, pos + 1⟩ : Span).isOpen = false := by
        rw [← Bool.not_eq_true, Span.isOpen_eq_true_iff (s := ⟨type, start, pos + 1⟩) hstart]
        dsimp only
        omega
      have hnew : needed (before ++ ⟨type, start, pos + 1⟩ :: after) = needed before := by
        rw [needed_append, needed_eq_nil, List.nil_append]
        intro s hs
        rcases List.mem_cons.mp hs with rfl | hs
        · exact hclosed
        · exact hafter s hs
      have hneeded : needed old = c :: needed before := by
        rw [hold, List.append_cons, needed_append, needed_append, needed_eq_nil hafter,
          needed_open hbr hstart]
        rfl
      rw [hnew] at h
      rw [hneeded]
      exact .cons c .nil h
  | string hc hscan =>
      obtain ⟨s, post, rfl, rfl⟩ := exists_of_scanString h0 hscan
      have hclosed : ∀ stop : ℕ,
          (⟨.string, (pos : ℤ) + 1, pos + 1 + stop⟩ : Span).isOpen = false := by
        intro stop
        rw [← Bool.not_eq_true, Span.isOpen_eq_true_iff (by dsimp only; omega)]
        dsimp only
        omega
      have hdrop : (strBytes s ++ 34 :: post).drop ((strBytes s).length + 1) = post := by
        rw [List.append_cons, List.drop_left' (by simp)]
      rw [needed_append, needed_eq_nil fun t ht => List.mem_singleton.mp ht ▸ hclosed _,
        List.nil_append, hdrop] at h
      rw [hc, List.append_assoc, List.cons_append]
      exact h.string s
  | primitive hc hscan =>
      obtain ⟨w, post, hsplit, rfl, hpost⟩ := exists_word_of_scanPrimitive hc hscan
      have hclosed : (⟨.primitive, (pos : ℤ), pos + w.bytes.length⟩ : Span).isOpen = false := by
        rw [← Bool.not_eq_true, Span.isOpen_eq_true_iff (by dsimp only; omega)]
        dsimp only
        omega
      have hdrop : rest.drop (w.bytes.length - 1) = post := by
        have hrest : rest = w.rest ++ post := (List.cons.inj hsplit).2
        rw [hrest, JsonWord.bytes, List.length_cons, Nat.add_sub_cancel, List.drop_left]
      have hpost' : Delimited (post ++ ext) := by
        rw [hdrop] at hext
        cases post with
        | nil => exact hext rfl
        | cons d post => exact hpost
      rw [needed_append, needed_eq_nil fun t ht => List.mem_singleton.mp ht ▸ hclosed,
        List.nil_append, hdrop] at h
      rw [← List.cons_append, hsplit, List.append_assoc]
      exact h.word w hpost'

/-! ### A text that is cut off -/

/-- The digits of a unicode escape, if the text is cut off in them or behind them. -/
theorem exists_of_scanHex_part {k : ℕ} {js : Bytes} (h : scanString (.hex k) js = .error .part) :
    ∃ ds : List {c : UInt8 // isHex c = true}, ds.length = k + 1 ∧
      ((∃ ext, js ++ ext = ds.map Subtype.val) ∨
        ∃ rest, js = ds.map Subtype.val ++ rest ∧ scanString .plain rest = .error .part) := by
  induction k generalizing js with
  | zero =>
      cases js with
      | nil => exact ⟨[⟨48, rfl⟩], rfl, Or.inl ⟨[48], rfl⟩⟩
      | cons c js =>
          rw [scanString] at h
          split_ifs at h with hhex
          · exact ⟨[⟨c, hhex⟩], rfl, Or.inr ⟨js, rfl, map_eq_error h⟩⟩
          · exact absurd h (by simp)
  | succ k ih =>
      cases js with
      | nil =>
          exact ⟨List.replicate (k + 2) ⟨48, rfl⟩, List.length_replicate,
            Or.inl ⟨_, List.nil_append _⟩⟩
      | cons c js =>
          rw [scanString] at h
          split_ifs at h with hhex
          · obtain ⟨ds, hlen, ⟨ext, hext⟩ | ⟨rest, rfl, hrest⟩⟩ := ih (map_eq_error h)
            · refine ⟨⟨c, hhex⟩ :: ds, by rw [List.length_cons, hlen], Or.inl ⟨ext, ?_⟩⟩
              rw [List.cons_append, hext, List.map_cons]
            · exact ⟨⟨c, hhex⟩ :: ds, by rw [List.length_cons, hlen], Or.inr ⟨rest, rfl, hrest⟩⟩
          · exact absurd h (by simp)

/-- **A string that is cut off** can be completed. -/
theorem exists_of_scanString_part {js : Bytes} (h0 : 0 ∉ js)
    (h : scanString .plain js = .error .part) :
    ∃ ext, ∃ s : JsonStr, js ++ ext = strBytes s ++ [34] := by
  induction hk : js.length using Nat.strongRecOn generalizing js with
  | ind k ih =>
      cases js with
      | nil => exact ⟨[34], [], rfl⟩
      | cons c js =>
          have hmem : ∀ b ∈ js, b ∈ c :: js := fun b hb => List.mem_cons_of_mem c hb
          rw [scanString] at h
          split_ifs at h with hquote hback
          · -- an escape, complete or not
            obtain ⟨rfl, hne⟩ := hback
            obtain ⟨d, js, rfl⟩ := List.exists_cons_of_ne_nil hne
            replace h := map_eq_error h
            rw [scanString] at h
            split_ifs at h with hu hescape
            · obtain ⟨ds, hds, hcut⟩ := exists_of_scanHex_part (map_eq_error h)
              obtain ⟨d₁, d₂, d₃, d₄, rfl⟩ := List.length_eq_four.mp hds
              rcases hcut with ⟨ext, hext⟩ | ⟨rest, rfl, hrest⟩
              · refine ⟨ext ++ [34], [.unicode d₁ d₂ d₃ d₄], ?_⟩
                rw [hu, List.cons_append, List.cons_append, ← List.append_assoc, hext]
                rfl
              · obtain ⟨ext, s, hs⟩ := ih rest.length (by
                  rw [← hk]; simp only [List.length_cons, List.length_append]; omega)
                  (fun hz => h0 (by simp [hz])) hrest rfl
                refine ⟨ext, .unicode d₁ d₂ d₃ d₄ :: s, ?_⟩
                rw [hu, List.cons_append, List.cons_append, List.append_assoc, hs]
                rfl
            · obtain ⟨ext, s, hs⟩ := ih js.length (by
                rw [← hk]; simp only [List.length_cons]; omega)
                (fun hz => h0 (hmem 0 (List.mem_cons_of_mem d hz))) (map_eq_error h) rfl
              refine ⟨ext, .escape ⟨d, hescape⟩ :: s, ?_⟩
              rw [List.cons_append, List.cons_append, hs]
              rfl
            · exact absurd h (by simp)
          · by_cases hc : c = 92
            · -- a backslash at the very end
              subst hc
              rw [not_and, not_not] at hback
              rw [hback rfl]
              exact ⟨[34, 34], [.escape ⟨34, rfl⟩], rfl⟩
            · have hc0 : c ≠ 0 := by
                rintro rfl
                exact h0 List.mem_cons_self
              obtain ⟨ext, s, hs⟩ := ih js.length (by rw [← hk]; exact Nat.lt_succ_self _)
                (fun hz => h0 (hmem 0 hz)) (map_eq_error h) rfl
              exact ⟨ext, .plain ⟨c, hquote, hc, hc0⟩ :: s, by rw [List.cons_append, hs]; rfl⟩

/-! ### The errors of a step -/

/-- A primitive is never incomplete. -/
theorem scanPrimitive_ne_part (js : Bytes) : scanPrimitive js ≠ .error .part := by
  induction js with
  | nil => simp [scanPrimitive]
  | cons c js ih =>
      rw [scanPrimitive]
      split_ifs
      · simp
      · simp
      · exact fun h => ih (map_eq_error h)

section Step

variable {n pos skip : ℕ} {c : UInt8} {js : Bytes} {p q : JsmnParser}

/-- Neither is an allocation. -/
theorem jsmnAllocToken_ne_part (tok : JsmnTok) : jsmnAllocToken n p tok ≠ .error .part := by
  rw [jsmnAllocToken]
  split_ifs <;> simp

/-- Neither is a bracket that opens. -/
theorem jsmnOpen_ne_part (type : JsmnType) : jsmnOpen n type pos p ≠ .error .part := by
  intro h
  rcases bind_eq_error h with h | ⟨p', -, h⟩
  · exact jsmnAllocToken_ne_part _ h
  · exact pure_ne_error _ _ h

/-- Neither is one that closes. -/
theorem jsmnClose_ne_part (type : JsmnType) : jsmnClose type pos p ≠ .error .part := by
  rw [jsmnClose]
  cases lastIdx JsmnTok.isOpen p.toks with
  | none => simp
  | some i =>
      dsimp only
      split_ifs <;> simp

/-- A byte that starts a primitive. -/
theorem jsmnStep_primitive (hc : isPrimitiveStart c = true) : jsmnStep n c js pos p =
    (jsmnParsePrimitive n (c :: js) pos p).map fun r => (r.1, r.2.counted) := by
  simp only [isPrimitiveStart, isDelim, Bool.not_eq_true', Bool.or_eq_false_iff,
    beq_eq_false_iff_ne] at hc
  simp only [jsmnStep, hc, if_false, or_self]

/-- **Only a string is cut off.** -/
theorem of_jsmnStep_part (h : jsmnStep n c js pos p = .error .part) :
    c = 34 ∧ scanString .plain js = .error .part := by
  rw [jsmnStep] at h
  split_ifs at h with _ _ _ _ h34
  · exact absurd (map_eq_error h) (jsmnOpen_ne_part _)
  · exact absurd (map_eq_error h) (jsmnOpen_ne_part _)
  · exact absurd (map_eq_error h) (jsmnClose_ne_part _)
  · exact absurd (map_eq_error h) (jsmnClose_ne_part _)
  · refine ⟨h34, ?_⟩
    rcases bind_eq_error (map_eq_error h) with hscan | ⟨len, -, h⟩
    · exact hscan
    · rcases bind_eq_error h with h | ⟨p', -, h⟩
      · exact absurd h (jsmnAllocToken_ne_part _)
      · exact absurd h (pure_ne_error _ _)
  · rcases bind_eq_error (map_eq_error h) with h | ⟨len, -, h⟩
    · exact absurd h (scanPrimitive_ne_part _)
    · rcases bind_eq_error h with h | ⟨p', -, h⟩
      · exact absurd h (jsmnAllocToken_ne_part _)
      · exact absurd h (pure_ne_error _ _)

end Step

/-- **The loop has read a text that can be completed**, unless it reports an invalid byte or
runs out of tokens. If it has come to the end, what completes the text are the brackets that
are still to close. -/
theorem closes_of_loop {n pos : ℕ} {rest : Bytes} {p : JsmnParser} (h0 : 0 ∉ rest)
    (hnested : NestedAt pos p.spans)
    (hr : jsmnLoop n rest pos 0 p ≠ .error .inval ∧ jsmnLoop n rest pos 0 p ≠ .error .nomem) :
    ∃ ext, Closes (needed p.spans) (rest ++ ext) ∧ (rest = [] → Delimited ext) ∧
      ∀ q, jsmnLoop n rest pos 0 p = .ok q → ext = needed q.spans := by
  induction hlen : rest.length using Nat.strongRecOn generalizing rest pos p with
  | ind k ih =>
      cases rest with
      | nil =>
          refine ⟨needed p.spans, closes_self _, fun _ => delimited_needed _, fun q hq => ?_⟩
          rw [Except.ok.inj hq]
      | cons c rest =>
          rw [jsmnLoop] at hr ⊢
          have h0' : 0 ∉ rest := fun hz => h0 (List.mem_cons_of_mem c hz)
          cases hstep : jsmnStep n c rest pos p with
          | error e =>
              -- a string is cut off: its end, and then the open brackets
              rw [hstep] at hr
              have he : e = .part := by
                cases e with
                | nomem => exact absurd rfl hr.2
                | inval => exact absurd rfl hr.1
                | part => rfl
              subst he
              obtain ⟨rfl, hscan⟩ := of_jsmnStep_part hstep
              obtain ⟨ext, s, hs⟩ := exists_of_scanString_part h0' hscan
              have hclosed := (closes_self (needed p.spans)).string s
              rw [List.append_cons, ← hs, List.append_assoc] at hclosed
              refine ⟨ext ++ needed p.spans, hclosed, by simp, fun q hq => ?_⟩
              exact absurd hq (by simp)
          | ok r =>
              obtain ⟨skip, p'⟩ := r
              have hskip : skip ≤ rest.length := (jsmnStep_effect hstep).1
              have htoken := jsmnStep_tokenStep hstep
              rw [hstep] at hr
              dsimp only at hr ⊢
              rw [jsmnLoop_drop hskip] at hr ⊢
              have hshort : (rest.drop skip).length < k := by
                rw [← hlen, List.length_drop, List.length_cons]
                omega
              obtain ⟨ext, hclosed, hext, hok⟩ := ih _ hshort
                (fun hz => h0' (List.mem_of_mem_drop hz)) (hnested.tokenStep htoken) hr rfl
              exact ⟨ext, hclosed.tokenStep h0' hnested htoken hext, by simp, hok⟩

/-! ### A text that goes on -/

/-- The scan of a string is the same when the text goes on, if the string was not cut off. -/
theorem scanString_append_right {m : StringMode} {js : Bytes} (ext : Bytes)
    (h : scanString m js ≠ .error .part) : scanString m (js ++ ext) = scanString m js := by
  have hmap : ∀ {x : Except JsmnErr ℕ}, x.map (· + 1) ≠ .error .part → x ≠ .error .part := by
    rintro x hx rfl
    exact hx rfl
  induction js generalizing m with
  | nil => cases m <;> exact absurd rfl h
  | cons c js ih =>
      cases m with
      | plain =>
          rw [List.cons_append]
          rw [scanString] at h ⊢
          rw [scanString]
          by_cases hquote : c = 34
          · rw [if_pos hquote, if_pos hquote]
          rw [if_neg hquote] at h ⊢
          rw [if_neg hquote]
          by_cases hback : c = 92 ∧ js ≠ []
          · rw [if_pos hback] at h
            rw [if_pos hback, if_pos ⟨hback.1, List.append_ne_nil_of_left_ne_nil hback.2 _⟩,
              ih (hmap h)]
          · rw [if_neg hback] at h
            have hne : js ≠ [] := by
              rintro rfl
              exact h rfl
            have hc : c ≠ 92 := fun hc => hback ⟨hc, hne⟩
            rw [if_neg hback, if_neg fun h => hc h.1, ih (hmap h)]
      | escape =>
          rw [List.cons_append]
          rw [scanString] at h ⊢
          rw [scanString]
          split_ifs at h ⊢
          · rw [ih (hmap h)]
          · rw [ih (hmap h)]
          · rfl
      | hex k =>
          rw [List.cons_append]
          cases k <;>
          · rw [scanString] at h ⊢
            rw [scanString]
            split_ifs at h ⊢
            · rw [ih (hmap h)]
            · rfl

/-- The scan of a primitive is the same when the text goes on, if it ended in front of a
delimiter or at an invalid byte. -/
theorem scanPrimitive_append_right {t : Bytes} (ext : Bytes)
    (h : ∀ k, scanPrimitive t = .ok k → k < t.length) :
    scanPrimitive (t ++ ext) = scanPrimitive t := by
  induction t with
  | nil => exact absurd (h 0 rfl) (Nat.lt_irrefl 0)
  | cons c t ih =>
      rw [List.cons_append]
      rw [scanPrimitive] at h ⊢
      rw [scanPrimitive]
      split_ifs at h ⊢
      · rfl
      · rfl
      · rw [ih fun k hk => ?_]
        have := h (k + 1) (by rw [hk]; rfl)
        rw [List.length_cons] at this
        omega

section Step

variable {n pos skip : ℕ} {c : UInt8} {js : Bytes} {p q : JsmnParser} {e : JsmnErr}

/-- Only a string or a primitive looks ahead. -/
theorem jsmnStep_other (hc : c ≠ 34) (hp : isPrimitiveStart c = false) (js' : Bytes) :
    jsmnStep n c js pos p = jsmnStep n c js' pos p := by
  rw [jsmnStep, jsmnStep]
  split_ifs with h123 h91 h125 h93 hws h58 h44
  all_goals try rfl
  rw [not_or, not_or, not_or] at hws
  simp [isPrimitiveStart, isDelim, hws, h58, h44, h93, h125, h123, h91, hc] at hp

/-- **A step that leaves some text** is the same when the text goes on. -/
theorem jsmnStep_append_right (ext : Bytes) (h : jsmnStep n c js pos p = .ok (skip, q))
    (hskip : skip < js.length) : jsmnStep n c (js ++ ext) pos p = .ok (skip, q) := by
  by_cases hc : c = 34
  · subst hc
    obtain ⟨r, hr, -⟩ := map_eq_ok (x := jsmnParseString n js pos p) h
    obtain ⟨len, hscan, -⟩ := bind_eq_ok hr
    have hparse : jsmnParseString n (js ++ ext) pos p = jsmnParseString n js pos p := by
      rw [jsmnParseString, jsmnParseString, scanString_append_right ext (by rw [hscan]; simp)]
    rw [← h]
    exact congrArg (Except.map _) hparse
  by_cases hp : isPrimitiveStart c = true
  · rw [jsmnStep_primitive hp] at h ⊢
    obtain ⟨r, hr, heq⟩ := map_eq_ok h
    obtain ⟨len, hscan, hr⟩ := bind_eq_ok hr
    obtain ⟨p', -, hr⟩ := bind_eq_ok hr
    obtain rfl := Except.ok.inj hr
    have hlen : len - 1 = skip := (Prod.mk.inj heq).1
    have hparse : scanPrimitive (c :: (js ++ ext)) = scanPrimitive (c :: js) := by
      refine scanPrimitive_append_right (t := c :: js) ext fun k hk => ?_
      obtain rfl := Except.ok.inj (hscan.symm.trans hk)
      rw [List.length_cons]
      omega
    rw [← h, jsmnParsePrimitive, jsmnParsePrimitive, hparse]
  · rw [← h]
    exact jsmnStep_other hc (Bool.not_eq_true _ ▸ hp) _

/-- **A step that fails**, but for a string that is cut off, fails when the text goes on, and at
an invalid byte it reports the same. -/
theorem jsmnStep_append_error (ext : Bytes) (h : jsmnStep n c js pos p = .error e)
    (he : e ≠ .part) :
    ∃ e', jsmnStep n c (js ++ ext) pos p = .error e' ∧ (e = .inval → e' = .inval) := by
  by_cases hc : c = 34
  · subst hc
    refine ⟨e, ?_, id⟩
    have hscan : scanString .plain js ≠ .error .part := by
      intro hscan
      have hpart : jsmnStep n 34 js pos p = .error .part := by
        have hparse : jsmnParseString n js pos p = .error .part := by
          rw [jsmnParseString, hscan]
          rfl
        simp only [jsmnStep, hparse]
        rfl
      exact he (Except.error.inj (h.symm.trans hpart))
    have hparse : jsmnParseString n (js ++ ext) pos p = jsmnParseString n js pos p := by
      rw [jsmnParseString, jsmnParseString, scanString_append_right ext hscan]
    rw [← h]
    exact congrArg (Except.map _) hparse
  by_cases hp : isPrimitiveStart c = true
  · rw [jsmnStep_primitive hp] at h ⊢
    rcases bind_eq_error (map_eq_error h) with hscan | ⟨len, -, halloc⟩
    · have hsame : scanPrimitive (c :: (js ++ ext)) = scanPrimitive (c :: js) :=
        scanPrimitive_append_right (t := c :: js) ext fun k hk => by
          rw [hscan] at hk
          exact absurd hk (by simp)
      exact ⟨e, by rw [← h, jsmnParsePrimitive, jsmnParsePrimitive, hsame], id⟩
    · -- no token is left, whether the primitive goes on well or not
      rcases bind_eq_error halloc with halloc | ⟨p', -, hr⟩
      · have hfull := jsmnAllocToken_full (p := p) (le_of_jsmnAllocToken halloc)
        obtain rfl := Except.error.inj (halloc.symm.trans (hfull _))
        cases hscan' : scanPrimitive (c :: (js ++ ext)) with
        | error e' =>
            refine ⟨e', ?_, fun h => absurd h (by simp)⟩
            rw [jsmnParsePrimitive, hscan']
            rfl
        | ok len' =>
            have hparse : jsmnParsePrimitive n (c :: (js ++ ext)) pos p = .error .nomem := by
              rw [jsmnParsePrimitive, hscan']
              exact congrArg (Except.map _) (hfull _)
            exact ⟨.nomem, by rw [hparse]; rfl, fun h => absurd h (by simp)⟩
      · exact absurd hr (pure_ne_error _ _)
  · exact ⟨e, (jsmnStep_other hc (Bool.not_eq_true _ ▸ hp) _).trans h, id⟩

/-- **A run that fails** fails when the text goes on. -/
theorem jsmnLoop_append_error (ext : Bytes) (h : jsmnLoop n js pos skip p = .error e)
    (he : e ≠ .part) :
    ∃ e', jsmnLoop n (js ++ ext) pos skip p = .error e' ∧ (e = .inval → e' = .inval) := by
  induction js generalizing pos skip p with
  | nil => exact absurd h (pure_ne_error _ _)
  | cons c js ih =>
      rw [List.cons_append]
      cases skip with
      | succ skip => exact ih h
      | zero =>
          rw [jsmnLoop] at h ⊢
          cases hstep : jsmnStep n c js pos p with
          | error e₀ =>
              rw [hstep] at h
              obtain rfl := Except.error.inj h
              obtain ⟨e', hstep', hinval⟩ := jsmnStep_append_error ext hstep he
              exact ⟨e', by rw [hstep'], hinval⟩
          | ok r =>
              obtain ⟨skip, p'⟩ := r
              rw [hstep] at h
              dsimp only at h
              have hle : skip ≤ js.length := (jsmnStep_effect hstep).1
              have hskip : skip < js.length := by
                by_contra hend
                have hnil : js.drop skip = [] := List.drop_eq_nil_of_le (not_lt.mp hend)
                rw [jsmnLoop_drop hle, hnil] at h
                exact absurd h (pure_ne_error _ _)
              rw [jsmnStep_append_right ext hstep hskip]
              exact ih h

end Step

/-! ### The verdict -/

/-- What the loop leaves decides what the tokenizer answers. -/
theorem jsmnLoop_of_error {js : Bytes} {n : ℕ} {e : JsmnErr} (h : jsmnParse js n = .error e) :
    jsmnLoop n js 0 0 jsmnInit = .error e ∨
      e = .part ∧ ∃ p, jsmnLoop n js 0 0 jsmnInit = .ok p := by
  rw [jsmnParse] at h
  cases hloop : jsmnLoop n js 0 0 jsmnInit with
  | error e' =>
      rw [hloop] at h
      exact Or.inl (congrArg Except.error (Except.error.inj h))
  | ok p =>
      rw [hloop] at h
      dsimp only at h
      split_ifs at h
      exact Or.inr ⟨(Except.error.inj h).symm, p, rfl⟩

/-- A text of the language is accepted, or has too many tokens. -/
theorem LooseText.not_error {t : Bytes} {lexs : List Lexeme} (h : LooseText t lexs) {n : ℕ}
    {e : JsmnErr} (herr : jsmnParse t n = .error e) : e = .nomem ∧ n < lexs.length := by
  have hparse := jsmnParse_looseText h n
  split_ifs at hparse with hroom
  · obtain ⟨toks, hok, -⟩ := hparse
    exact absurd (herr.symm.trans hok) (by simp)
  · exact ⟨Except.error.inj (herr.symm.trans hparse), not_le.mp hroom⟩

section Verdict

variable {js : Bytes} {n : ℕ}

/-- **An accepted text** is one of the language. -/
theorem looseText_of_ok (h0 : 0 ∉ js) {r : ℕ × List JsmnTok} (h : jsmnParse js n = .ok r) :
    ∃ lexs, LooseText js lexs := by
  obtain ⟨r, toks⟩ := r
  obtain ⟨p, hloop, -, hclosed⟩ := jsmnLoop_of_jsmnParse h
  obtain ⟨ext, hcloses, -, hok⟩ := closes_of_loop h0 nestedAt_init
    ⟨by rw [hloop]; simp, by rw [hloop]; simp⟩
  rw [hok p hloop, needed_eq_nil hclosed, List.append_nil] at hcloses
  cases hcloses with
  | nil htext => exact ⟨_, htext⟩

/-- **A partial text** can be completed. -/
theorem completable_of_part (h0 : 0 ∉ js) (h : jsmnParse js n = .error .part) :
    Completable js := by
  have hr : jsmnLoop n js 0 0 jsmnInit ≠ .error .inval ∧
      jsmnLoop n js 0 0 jsmnInit ≠ .error .nomem := by
    rcases jsmnLoop_of_error h with hloop | ⟨-, p, hloop⟩ <;> rw [hloop] <;> simp
  obtain ⟨ext, hcloses, -, -⟩ := closes_of_loop h0 nestedAt_init hr
  cases hcloses with
  | nil htext => exact ⟨ext, _, htext⟩

/-- **A failure stays** when the text goes on. -/
theorem jsmnParse_append_error {e : JsmnErr} (h : jsmnParse js n = .error e) (he : e ≠ .part)
    (ext : Bytes) :
    ∃ e', jsmnParse (js ++ ext) n = .error e' ∧ (e = .inval → e' = .inval) := by
  have hloop := (jsmnLoop_of_error h).resolve_right fun h => he h.1
  obtain ⟨e', hloop', hinval⟩ := jsmnLoop_append_error ext hloop he
  exact ⟨e', by rw [jsmnParse, hloop'], hinval⟩

/-- **An invalid text** cannot be completed. -/
theorem not_completable_of_inval (h : jsmnParse js n = .error .inval) : ¬ Completable js := by
  rintro ⟨ext, lexs, htext⟩
  obtain ⟨e', h', hinval⟩ := jsmnParse_append_error h (by simp) ext
  have he' := (htext.not_error h').1
  rw [hinval rfl] at he'
  exact absurd he' (by simp)

/-- **Which texts are accepted**, and with which tokens. -/
theorem jsmnParse_ok_iff (h0 : 0 ∉ js) (lexs : List Lexeme) :
    (∃ toks, jsmnParse js n = .ok (toks.length, toks) ∧
        toks.map (fun tok => tok.span.lexeme js) = lexs) ↔
      LooseText js lexs ∧ lexs.length ≤ n := by
  constructor
  · rintro ⟨toks, h, hlexs⟩
    obtain ⟨lexs', htext⟩ := looseText_of_ok h0 h
    have hparse := jsmnParse_looseText htext n
    split_ifs at hparse with hroom
    · obtain ⟨toks', h', hlexs'⟩ := hparse
      obtain rfl := (Prod.mk.inj (Except.ok.inj (h.symm.trans h'))).2
      obtain rfl := hlexs.symm.trans hlexs'
      exact ⟨htext, hroom⟩
    · exact absurd (h.symm.trans hparse) (by simp)
  · rintro ⟨htext, hroom⟩
    have hparse := jsmnParse_looseText htext n
    rwa [if_pos hroom] at hparse

end Verdict

/-- **The language contains JSON**: a document is a text of it, with the tokens of its values. -/
theorem looseText_document (d : JsonDocument) : LooseText d.bytes d.lexemes := by
  have h0 : 0 ∉ d.bytes := by
    simp [JsonDocument.bytes, JsonDocument.core, zero_notMem_ws, zero_notMem_value]
  exact ((jsmnParse_ok_iff h0 _).mp
    ((tokenizes_document _ d).parse_of_room (le_refl d.lexemes.length))).1

/-- **Which texts are accepted.** The tokenizer accepts the texts of the language that have no
more tokens than the pool holds, and fills in the tokens that the language gives them. -/
theorem parse_accepts_iff {m : ℕ} (buf : Vector UInt8 m) (n : ℕ) (lexs : List Lexeme) :
    (∃ toks, jsmnParse (cstr buf) n = .ok (toks.length, toks) ∧
        toks.map (fun tok => tok.span.lexeme (cstr buf)) = lexs) ↔
      LooseText (cstr buf) lexs ∧ lexs.length ≤ n :=
  jsmnParse_ok_iff (zero_notMem_cstr buf) lexs

/-- **What the errors say.** If the tokenizer runs out of tokens, then whatever the text may be
completed to has more tokens than the pool holds. Otherwise a text is accepted if it belongs
to the language, partial if it does not yet but can still be completed to one that does, and
invalid if it cannot. -/
theorem parse_errors_iff {m : ℕ} (buf : Vector UInt8 m) (n : ℕ) :
    (jsmnParse (cstr buf) n = .error .nomem →
      ∀ ext lexs, LooseText (cstr buf ++ ext) lexs → n < lexs.length) ∧
    (jsmnParse (cstr buf) n ≠ .error .nomem →
      ((∃ r, jsmnParse (cstr buf) n = .ok r) ↔ ∃ lexs, LooseText (cstr buf) lexs) ∧
      (jsmnParse (cstr buf) n = .error .part ↔
        (¬ ∃ lexs, LooseText (cstr buf) lexs) ∧ Completable (cstr buf)) ∧
      (jsmnParse (cstr buf) n = .error .inval ↔ ¬ Completable (cstr buf))) := by
  have h0 := zero_notMem_cstr buf
  generalize cstr buf = js at h0
  have hcompletable : (∃ lexs, LooseText js lexs) → Completable js := by
    rintro ⟨lexs, htext⟩
    exact ⟨[], lexs, by rwa [List.append_nil]⟩
  have hpart : jsmnParse js n = .error .part → ¬ ∃ lexs, LooseText js lexs := by
    rintro h ⟨lexs, htext⟩
    exact absurd (htext.not_error h).1 (by simp)
  constructor
  · intro h ext lexs htext
    obtain ⟨e', h', -⟩ := jsmnParse_append_error h (by simp) ext
    exact (htext.not_error h').2
  · intro hnomem
    cases h : jsmnParse js n with
    | ok r =>
        have htext := looseText_of_ok h0 h
        simp [htext, hcompletable htext]
    | error e =>
        cases e with
        | nomem => exact absurd h hnomem
        | part => simp [hpart h, completable_of_part h0 h]
        | inval =>
            have hnot := not_completable_of_inval h
            have hno : ¬ ∃ lexs, LooseText js lexs := fun htext => hnot (hcompletable htext)
            simpa [hnot] using hno

end AirShifter
