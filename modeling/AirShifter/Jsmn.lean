import AirShifter.CString

/-!
# The JSON Tokenizer

The tokenizer `jsmn.h` as `parser.c` includes it: neither strict nor with parent links.
It turns a text into a flat list of tokens, each with a type and the range of the text
it covers. A token that is still open has the end `-1`.

The position in the text is the argument of the loop; the text is what `strlen` measured,
so it contains no NUL. A sub-parser that has moved the position by `k` bytes is modelled
by the number `k` of bytes the loop then skips. Positions do not wrap: a string in the
memory of the device is shorter than `2 ^ 31` bytes.

## Main results

* `count_jsmnParse`: the returned count is the number of tokens.
* `jsmnLoop_string`, `jsmnLoop_primitive`: a string literal, or a run of primitive bytes
  in front of a delimiter, becomes one token.
* `JsmnParser.spans_bumpSuper`: the bookkeeping of parents and sizes never touches type and
  range of a token.
-/

open CBytes

namespace AirShifter

/-! ### Data types -/

/-- `jsmntype_t`. -/
inductive JsmnType
  | object | array | string | primitive
  deriving DecidableEq

/-- `enum jsmnerr`. -/
inductive JsmnErr
  | nomem | inval | part
  deriving DecidableEq

/-- `jsmntok_t`; `stop` is the field `end`. -/
structure JsmnTok where
  type : JsmnType
  start : ℤ
  stop : ℤ
  size : ℤ
  deriving DecidableEq

/-- The token was opened and not closed yet. -/
def JsmnTok.isOpen (t : JsmnTok) : Bool :=
  t.start != -1 && t.stop == -1

/-- `jsmn_parser` with the token array: the tokens allocated so far (`toknext` is their
number), the superior token (`none` is `-1`), and the running `count` of `jsmn_parse`. -/
structure JsmnParser where
  toks : List JsmnTok
  toksuper : Option ℕ
  count : ℕ
  deriving DecidableEq

/-- `jsmn_init`. -/
def jsmnInit : JsmnParser :=
  { toks := [], toksuper := none, count := 0 }

/-! ### Tokens -/

/-- `jsmn_alloc_token`, together with the fields its callers fill in. -/
def jsmnAllocToken (numTokens : ℕ) (p : JsmnParser) (tok : JsmnTok) :
    Except JsmnErr JsmnParser :=
  if p.toks.length ≥ numTokens then .error .nomem
  else .ok { p with toks := p.toks ++ [tok] }

/-- `toknext - 1`. -/
def JsmnParser.lastTok (p : JsmnParser) : Option ℕ :=
  if p.toks.length = 0 then none else some (p.toks.length - 1)

/-- `tokens[parser->toksuper].size++`, if there is a superior token. -/
def JsmnParser.bumpSuper (p : JsmnParser) : JsmnParser :=
  match p.toksuper with
  | none => p
  | some i => { p with toks := p.toks.modify i fun t => { t with size := t.size + 1 } }

/-- The loop from the last token down to the first: the index of the last token with
`q`. -/
def lastIdx (q : JsmnTok → Bool) : List JsmnTok → Option ℕ
  | [] => none
  | t :: ts =>
    match lastIdx q ts with
    | some i => some (i + 1)
    | none => if q t then some 0 else none

/-! ### Primitives and strings -/

/-- The bytes that end a primitive. -/
def isDelim (c : UInt8) : Bool :=
  c == 58 || c == 9 || c == 13 || c == 10 || c == 32 || c == 44 || c == 93 || c == 125

/-- The scan of `jsmn_parse_primitive`: the length of the primitive. -/
def scanPrimitive : Bytes → Except JsmnErr ℕ
  | [] => .ok 0
  | c :: js =>
    if isDelim c then .ok 0
    else if c < 32 ∨ c ≥ 127 then .error .inval
    else (scanPrimitive js).map (· + 1)

/-- `jsmn_parse_primitive` at position `pos`, with the text `js` from there on: the number
of bytes after the first one that belong to the primitive, and the parser with the new
token. -/
def jsmnParsePrimitive (numTokens : ℕ) (js : Bytes) (pos : ℕ) (p : JsmnParser) :
    Except JsmnErr (ℕ × JsmnParser) := do
  let len ← scanPrimitive js
  let p ← jsmnAllocToken numTokens p
    { type := .primitive, start := pos, stop := pos + len, size := 0 }
  return (len - 1, p)

/-- Where the scan of a string stands: in plain text, behind a backslash, or in front of
the last `k + 1` digits of a unicode escape. -/
inductive StringMode
  | plain
  | escape
  | hex (k : ℕ)

/-- The hexadecimal digits. -/
def isHex (c : UInt8) : Bool :=
  (48 ≤ c && c ≤ 57) || (65 ≤ c && c ≤ 70) || (97 ≤ c && c ≤ 102)

/-- The allowed escapes but `u`: `"`, `/`, `\`, `b`, `f`, `r`, `n`, `t`. -/
def isEscape (c : UInt8) : Bool :=
  c == 34 || c == 47 || c == 92 || c == 98 || c == 102 || c == 114 || c == 110 || c == 116

/-- The scan of `jsmn_parse_string` behind the opening quote: the length of the string up
to its closing quote. -/
def scanString : StringMode → Bytes → Except JsmnErr ℕ
  | _, [] => .error .part
  | .plain, c :: js =>
    if c = 34 then .ok 0
    else if c = 92 ∧ js ≠ [] then (scanString .escape js).map (· + 1)
    else (scanString .plain js).map (· + 1)
  | .escape, c :: js =>
    if c = 117 then (scanString (.hex 3) js).map (· + 1)
    else if isEscape c then (scanString .plain js).map (· + 1)
    else .error .inval
  | .hex k, c :: js =>
    if isHex c then
      match k with
      | 0 => (scanString .plain js).map (· + 1)
      | k + 1 => (scanString (.hex k) js).map (· + 1)
    else .error .inval

/-- `jsmn_parse_string` with the opening quote at position `pos` and the text `js` behind
it: the number of bytes behind the opening quote up to and with the closing one, and the
parser with the new token. -/
def jsmnParseString (numTokens : ℕ) (js : Bytes) (pos : ℕ) (p : JsmnParser) :
    Except JsmnErr (ℕ × JsmnParser) := do
  let len ← scanString .plain js
  let p ← jsmnAllocToken numTokens p
    { type := .string, start := pos + 1, stop := pos + 1 + len, size := 0 }
  return (len + 1, p)

/-! ### The parser -/

/-- The case of an opening bracket. -/
def jsmnOpen (numTokens : ℕ) (type : JsmnType) (pos : ℕ) (p : JsmnParser) :
    Except JsmnErr JsmnParser := do
  let p ← jsmnAllocToken numTokens p { type := type, start := pos, stop := -1, size := 0 }
  let p := p.bumpSuper
  return { p with toksuper := p.lastTok, count := p.count + 1 }

/-- The case of a closing bracket: it closes the last open token, and the last token still
open before that one becomes the superior one. -/
def jsmnClose (type : JsmnType) (pos : ℕ) (p : JsmnParser) : Except JsmnErr JsmnParser :=
  match lastIdx JsmnTok.isOpen p.toks with
  | none => .error .inval
  | some i =>
    if (p.toks[i]?).map JsmnTok.type ≠ some type then .error .inval
    else
      let toks := p.toks.modify i fun t => { t with stop := pos + 1 }
      .ok { p with toks := toks, toksuper := lastIdx JsmnTok.isOpen (toks.take (i + 1)) }

/-- The token is an array or an object. -/
def JsmnTok.isContainer (t : JsmnTok) : Bool :=
  t.type == .array || t.type == .object

/-- The case of a comma: back from a key to the innermost open container. -/
def jsmnComma (p : JsmnParser) : JsmnParser :=
  match p.toksuper with
  | none => p
  | some i =>
    if (p.toks[i]?).any JsmnTok.isContainer then p
    else
      match lastIdx (fun t => t.isContainer && t.isOpen) p.toks with
      | none => p
      | some j => { p with toksuper := some j }

/-- A token was read: count it, for its superior token as well. -/
def JsmnParser.counted (p : JsmnParser) : JsmnParser :=
  { p with count := p.count + 1 }.bumpSuper

/-- The body of the loop of `jsmn_parse` for the byte `c` at position `pos`, with the text
`js` behind it: the number of bytes to skip, and the parser. -/
def jsmnStep (numTokens : ℕ) (c : UInt8) (js : Bytes) (pos : ℕ) (p : JsmnParser) :
    Except JsmnErr (ℕ × JsmnParser) :=
  if c = 123 then (jsmnOpen numTokens .object pos p).map (0, ·)
  else if c = 91 then (jsmnOpen numTokens .array pos p).map (0, ·)
  else if c = 125 then (jsmnClose .object pos p).map (0, ·)
  else if c = 93 then (jsmnClose .array pos p).map (0, ·)
  else if c = 34 then
    (jsmnParseString numTokens js pos p).map fun r => (r.1, r.2.counted)
  else if c = 9 ∨ c = 13 ∨ c = 10 ∨ c = 32 then .ok (0, p)
  else if c = 58 then .ok (0, { p with toksuper := p.lastTok })
  else if c = 44 then .ok (0, jsmnComma p)
  else
    (jsmnParsePrimitive numTokens (c :: js) pos p).map fun r => (r.1, r.2.counted)

/-- The loop of `jsmn_parse`, with the bytes still to skip. -/
def jsmnLoop (numTokens : ℕ) : Bytes → ℕ → ℕ → JsmnParser → Except JsmnErr JsmnParser
  | [], _, _, p => .ok p
  | _ :: js, pos, skip + 1, p => jsmnLoop numTokens js (pos + 1) skip p
  | c :: js, pos, 0, p =>
    match jsmnStep numTokens c js pos p with
    | .error e => .error e
    | .ok (skip, p) => jsmnLoop numTokens js (pos + 1) skip p

/-- `jsmn_parse`: the count it returns and the tokens it has filled in. -/
def jsmnParse (js : Bytes) (numTokens : ℕ) : Except JsmnErr (ℕ × List JsmnTok) :=
  match jsmnLoop numTokens js 0 0 jsmnInit with
  | .error e => .error e
  | .ok p => if p.toks.any JsmnTok.isOpen then .error .part else .ok (p.count, p.toks)

/-! ### Types and ranges

What a caller sees of a token is its type and its range. The size and the superior token
only serve the bookkeeping of the tokenizer. -/

/-- Type and range of a token. -/
structure Span where
  type : JsmnType
  start : ℤ
  stop : ℤ
  deriving DecidableEq

/-- The range of a token. -/
def JsmnTok.span (t : JsmnTok) : Span :=
  ⟨t.type, t.start, t.stop⟩

/-- A range that was opened and not closed yet. -/
def Span.isOpen (s : Span) : Bool :=
  s.start != -1 && s.stop == -1

/-- The text of a range. -/
def Span.text (buf : Bytes) (s : Span) : Bytes :=
  (buf.drop s.start.toNat).take (s.stop - s.start).toNat

/-- A token as its readers see it: its type and its text. -/
structure Lexeme where
  type : JsmnType
  text : Bytes
  deriving DecidableEq

/-- The type and the text of a range. -/
def Span.lexeme (buf : Bytes) (s : Span) : Lexeme :=
  ⟨s.type, s.text buf⟩

/-- The ranges of the tokens so far. -/
def JsmnParser.spans (p : JsmnParser) : List Span :=
  p.toks.map JsmnTok.span

/-- Whether a token is open is a matter of its range. -/
theorem isOpen_eq (t : JsmnTok) : t.isOpen = t.span.isOpen := rfl

/-- There are as many ranges as tokens. -/
theorem JsmnParser.length_spans (p : JsmnParser) : p.spans.length = p.toks.length :=
  List.length_map _

/-- A change of an element that a map does not see. -/
theorem map_modify {α β : Type*} {g : α → β} {f : α → α} (h : ∀ a, g (f a) = g a) (l : List α)
    (i : ℕ) : (l.modify i f).map g = l.map g := by
  apply List.ext_getElem
  · simp
  · intro j _ _
    rw [List.getElem_map, List.getElem_map, List.getElem_modify]
    split_ifs
    · exact h _
    · rfl

/-- **Counting sizes does not touch the ranges.** -/
theorem JsmnParser.spans_bumpSuper (p : JsmnParser) : p.bumpSuper.spans = p.spans := by
  rw [JsmnParser.bumpSuper]
  cases p.toksuper with
  | none => rfl
  | some i =>
      exact map_modify (f := fun t : JsmnTok => { t with size := t.size + 1 }) (fun _ => rfl)
        p.toks i

/-- Counting a token changes no range. -/
theorem JsmnParser.spans_counted (p : JsmnParser) : p.counted.spans = p.spans := by
  rw [JsmnParser.counted, JsmnParser.spans_bumpSuper]
  rfl

/-- A comma changes no range. -/
theorem spans_jsmnComma (p : JsmnParser) : (jsmnComma p).spans = p.spans := by
  rw [jsmnComma]
  cases p.toksuper with
  | none => rfl
  | some i =>
      dsimp only
      split_ifs
      · rfl
      · cases lastIdx (fun t => t.isContainer && t.isOpen) p.toks <;> rfl

/-- A token fits: its range is appended. -/
theorem jsmnAllocToken_eq {n : ℕ} {p : JsmnParser} (hroom : p.toks.length < n) (tok : JsmnTok) :
    ∃ p', jsmnAllocToken n p tok = .ok p' ∧ p'.spans = p.spans ++ [tok.span] := by
  refine ⟨_, if_neg (by omega), ?_⟩
  rw [JsmnParser.spans, JsmnParser.spans, List.map_append]
  rfl

/-! ### Scans -/

/-- A primitive ends at the first delimiter. -/
theorem scanPrimitive_append {b js : Bytes}
    (hb : ∀ c ∈ b, isDelim c = false ∧ 32 ≤ c ∧ c < 127)
    (hjs : ∀ c ∈ js.head?, isDelim c = true) : scanPrimitive (b ++ js) = .ok b.length := by
  induction b with
  | nil =>
      cases js with
      | nil => rfl
      | cons c js => rw [List.nil_append, scanPrimitive, if_pos (hjs c rfl)]; rfl
  | cons c b ih =>
      obtain ⟨hc, hlo, hhi⟩ := hb c List.mem_cons_self
      have hprint : ¬ (c < 32 ∨ c ≥ 127) := by
        rw [not_or, UInt8.not_lt, ge_iff_le, UInt8.not_le]
        exact ⟨hlo, hhi⟩
      rw [List.cons_append, scanPrimitive, if_neg (by rw [hc]; exact Bool.false_ne_true),
        if_neg hprint, ih fun d hd => hb d (List.mem_cons_of_mem c hd)]
      rfl

/-- Bytes of a string that need no escape: no quote and no backslash. -/
def PlainText (b : Bytes) : Prop :=
  ∀ c ∈ b, c ≠ 34 ∧ c ≠ 92

/-- A plain string ends at its quote. -/
theorem scanString_append {b : Bytes} (hb : PlainText b) (js : Bytes) :
    scanString .plain (b ++ 34 :: js) = .ok b.length := by
  induction b with
  | nil => rfl
  | cons c b ih =>
      obtain ⟨hq, hbs⟩ := hb c List.mem_cons_self
      rw [List.cons_append, scanString, if_neg hq, if_neg fun h => hbs h.1,
        ih fun d hd => hb d (List.mem_cons_of_mem c hd)]
      rfl

/-- A string that is cut off is reported as partial. -/
theorem scanString_cut {b : Bytes} (hb : PlainText b) :
    scanString .plain b = .error .part := by
  induction b with
  | nil => rfl
  | cons c b ih =>
      obtain ⟨hq, hbs⟩ := hb c List.mem_cons_self
      rw [scanString, if_neg hq, if_neg fun h => hbs h.1,
        ih fun d hd => hb d (List.mem_cons_of_mem c hd)]
      rfl

/-! ### The loop over one lexeme -/

/-- The loop passes over the bytes that a token has used up. -/
theorem jsmnLoop_skip (n : ℕ) (b js : Bytes) (pos : ℕ) (p : JsmnParser) :
    jsmnLoop n (b ++ js) pos b.length p = jsmnLoop n js (pos + b.length) 0 p := by
  induction b generalizing pos with
  | nil => rfl
  | cons c b ih =>
      rw [List.cons_append, List.length_cons, jsmnLoop, ih]
      congr 1
      omega

/-- JSON whitespace. -/
def isWs (c : UInt8) : Prop :=
  c = 9 ∨ c = 13 ∨ c = 10 ∨ c = 32

instance : DecidablePred isWs := fun _ => inferInstanceAs (Decidable (_ ∨ _))

/-- Whitespace between tokens is passed over. -/
theorem jsmnLoop_ws (n : ℕ) {w : Bytes} (hw : ∀ c ∈ w, isWs c) (js : Bytes) (pos : ℕ)
    (p : JsmnParser) : jsmnLoop n (w ++ js) pos 0 p = jsmnLoop n js (pos + w.length) 0 p := by
  induction w generalizing pos with
  | nil => rfl
  | cons c w ih =>
      have hstep : jsmnStep n c (w ++ js) pos p = .ok (0, p) := by
        rcases hw c List.mem_cons_self with rfl | rfl | rfl | rfl <;> rfl
      rw [List.cons_append, jsmnLoop, hstep]
      dsimp only
      rw [ih fun d hd => hw d (List.mem_cons_of_mem c hd), List.length_cons]
      congr 1
      omega

/-- A colon or a comma only moves the superior token. -/
theorem jsmnLoop_separator (n : ℕ) {c : UInt8} (hc : c = 58 ∨ c = 44) (js : Bytes) (pos : ℕ)
    (p : JsmnParser) : ∃ p', p'.spans = p.spans ∧
      jsmnLoop n (c :: js) pos 0 p = jsmnLoop n js (pos + 1) 0 p' := by
  rcases hc with rfl | rfl
  · exact ⟨{ p with toksuper := p.lastTok }, rfl, rfl⟩
  · exact ⟨jsmnComma p, spans_jsmnComma p, rfl⟩

/-- **A string literal** becomes one token. -/
theorem jsmnLoop_string {n : ℕ} {b : Bytes} (hb : PlainText b) (js : Bytes) (pos : ℕ)
    {p : JsmnParser} (hroom : p.toks.length < n) :
    ∃ p', p'.spans = p.spans ++ [⟨.string, pos + 1, pos + 1 + b.length⟩] ∧
      jsmnLoop n (34 :: (b ++ 34 :: js)) pos 0 p = jsmnLoop n js (pos + b.length + 2) 0 p' := by
  obtain ⟨p', hp', hspans⟩ := jsmnAllocToken_eq hroom
    { type := .string, start := pos + 1, stop := pos + 1 + b.length, size := 0 }
  have hstep : jsmnStep n 34 (b ++ 34 :: js) pos p = .ok (b.length + 1, p'.counted) := by
    have hparse : jsmnParseString n (b ++ 34 :: js) pos p = .ok (b.length + 1, p') := by
      rw [jsmnParseString, scanString_append hb]
      exact congrArg (Except.map _) hp'
    simp only [jsmnStep, hparse]
    rfl
  refine ⟨p'.counted, by rw [JsmnParser.spans_counted, hspans]; rfl, ?_⟩
  have hskip := jsmnLoop_skip n (b ++ [34]) js (pos + 1) p'.counted
  rw [List.append_assoc, List.length_append] at hskip
  rw [jsmnLoop, hstep]
  dsimp only
  rw [List.singleton_append, List.length_singleton] at hskip
  rw [hskip]
  congr 1
  omega

/-- A string literal that is cut off ends the parse. -/
theorem jsmnLoop_string_cut (n : ℕ) {b : Bytes} (hb : PlainText b) (pos : ℕ) (p : JsmnParser) :
    jsmnLoop n (34 :: b) pos 0 p = .error .part := by
  have hstep : jsmnStep n 34 b pos p = .error .part := by
    have hparse : jsmnParseString n b pos p = .error .part := by
      rw [jsmnParseString, scanString_cut hb]
      rfl
    simp only [jsmnStep, hparse]
    rfl
  rw [jsmnLoop, hstep]

/-- Bytes that may start a primitive: no bracket, no quote, no delimiter. -/
def isPrimitiveStart (c : UInt8) : Bool :=
  !(c == 123 || c == 91 || c == 34 || isDelim c)

/-- **A run of primitive bytes** in front of a delimiter becomes one token. -/
theorem jsmnLoop_primitive {n : ℕ} {c : UInt8} {b js : Bytes} (hc : isPrimitiveStart c = true)
    (hb : ∀ d ∈ c :: b, isDelim d = false ∧ 32 ≤ d ∧ d < 127)
    (hjs : ∀ d ∈ js.head?, isDelim d = true) (pos : ℕ) {p : JsmnParser}
    (hroom : p.toks.length < n) :
    ∃ p', p'.spans = p.spans ++ [⟨.primitive, pos, pos + (b.length + 1)⟩] ∧
      jsmnLoop n (c :: (b ++ js)) pos 0 p = jsmnLoop n js (pos + b.length + 1) 0 p' := by
  obtain ⟨p', hp', hspans⟩ := jsmnAllocToken_eq hroom
    { type := .primitive, start := pos, stop := pos + (b.length + 1 : ℕ), size := 0 }
  have hscan : scanPrimitive (c :: (b ++ js)) = .ok (b.length + 1) :=
    scanPrimitive_append (b := c :: b) hb hjs
  have hparse : jsmnParsePrimitive n (c :: (b ++ js)) pos p = .ok (b.length, p') := by
    rw [jsmnParsePrimitive, hscan]
    exact congrArg (Except.map _) hp'
  have hstep : jsmnStep n c (b ++ js) pos p = .ok (b.length, p'.counted) := by
    simp only [isPrimitiveStart, isDelim, Bool.not_eq_true', Bool.or_eq_false_iff,
      beq_eq_false_iff_ne] at hc
    simp only [jsmnStep, hparse, hc, if_false, or_self]
    rfl
  refine ⟨p'.counted, by rw [JsmnParser.spans_counted, hspans]; rfl, ?_⟩
  rw [jsmnLoop, hstep]
  dsimp only
  rw [jsmnLoop_skip]
  congr 1
  omega

/-- **An opening brace** becomes a token that is open. -/
theorem jsmnLoop_openBrace {n : ℕ} (js : Bytes) (pos : ℕ) {p : JsmnParser}
    (hroom : p.toks.length < n) :
    ∃ p', p'.spans = p.spans ++ [⟨.object, pos, -1⟩] ∧
      jsmnLoop n (123 :: js) pos 0 p = jsmnLoop n js (pos + 1) 0 p' := by
  obtain ⟨p', hp', hspans⟩ := jsmnAllocToken_eq hroom
    { type := .object, start := pos, stop := -1, size := 0 }
  refine ⟨{ p'.bumpSuper with toksuper := p'.bumpSuper.lastTok, count := p'.bumpSuper.count + 1 },
    p'.spans_bumpSuper.trans hspans, ?_⟩
  have hstep : jsmnStep n 123 js pos p = .ok (0, { p'.bumpSuper with
      toksuper := p'.bumpSuper.lastTok, count := p'.bumpSuper.count + 1 }) := by
    have hopen : jsmnOpen n .object pos p = .ok { p'.bumpSuper with
        toksuper := p'.bumpSuper.lastTok, count := p'.bumpSuper.count + 1 } := by
      rw [jsmnOpen, hp']
      rfl
    simp only [jsmnStep, hopen]
    rfl
  rw [jsmnLoop, hstep]

/-- There is no last element of a kind that does not occur. -/
theorem lastIdx_eq_none {q : JsmnTok → Bool} {ts : List JsmnTok} (h : ∀ t ∈ ts, q t = false) :
    lastIdx q ts = none := by
  induction ts with
  | nil => rfl
  | cons t ts ih =>
      rw [lastIdx, ih fun u hu => h u (List.mem_cons_of_mem t hu)]
      exact if_neg (by rw [h t List.mem_cons_self]; exact Bool.false_ne_true)

/-- **A closing brace** closes an object that is the first token, if all tokens behind it
are closed. -/
theorem jsmnLoop_closeBrace {n : ℕ} (js : Bytes) (pos : ℕ) {p : JsmnParser} {start : ℕ}
    {new : List Span} (hp : p.spans = ⟨.object, start, -1⟩ :: new)
    (hnew : ∀ s ∈ new, s.isOpen = false) :
    ∃ p', p'.spans = ⟨.object, start, pos + 1⟩ :: new ∧
      jsmnLoop n (125 :: js) pos 0 p = jsmnLoop n js (pos + 1) 0 p' := by
  obtain ⟨t, ts, htoks, ht, hts⟩ := List.map_eq_cons_iff.mp hp
  have hclosed : ∀ u ∈ ts, u.isOpen = false := by
    intro u hu
    rw [isOpen_eq]
    exact hnew _ (hts ▸ List.mem_map_of_mem hu)
  have hopen : t.isOpen = true := by
    rw [isOpen_eq, ht]
    simp [Span.isOpen]
  have hlast : lastIdx JsmnTok.isOpen p.toks = some 0 := by
    rw [htoks, lastIdx, lastIdx_eq_none hclosed]
    exact if_pos hopen
  have htype : (p.toks[0]?).map JsmnTok.type = some .object := by
    rw [htoks]
    exact congrArg some (congrArg Span.type ht)
  have hspans : ((p.toks.modify 0 fun t => { t with stop := (pos : ℤ) + 1 }).map JsmnTok.span) =
      ⟨.object, start, pos + 1⟩ :: new := by
    rw [htoks, List.modify_zero_cons, List.map_cons, hts]
    congr 1
    rw [JsmnTok.span] at ht ⊢
    obtain ⟨htype, hstart, -⟩ := Span.mk.inj ht
    rw [htype, hstart]
  refine ⟨{ p with
    toks := p.toks.modify 0 fun t => { t with stop := (pos : ℤ) + 1 }
    toksuper := lastIdx JsmnTok.isOpen
      ((p.toks.modify 0 fun t => { t with stop := (pos : ℤ) + 1 }).take 1) }, hspans, ?_⟩
  have hstep : jsmnClose .object pos p = .ok { p with
      toks := p.toks.modify 0 fun t => { t with stop := (pos : ℤ) + 1 }
      toksuper := lastIdx JsmnTok.isOpen
        ((p.toks.modify 0 fun t => { t with stop := (pos : ℤ) + 1 }).take 1) } := by
    rw [jsmnClose, hlast]
    dsimp only
    rw [if_neg (not_not.mpr htype)]
  rw [jsmnLoop, jsmnStep, if_neg (by decide), if_neg (by decide), if_pos rfl, hstep]
  rfl

/-! ### The returned count -/

/-- Counting a child changes no count of the parser. -/
theorem JsmnParser.count_bumpSuper (p : JsmnParser) :
    p.bumpSuper.count = p.count ∧ p.bumpSuper.toks.length = p.toks.length := by
  rw [JsmnParser.bumpSuper]
  cases p.toksuper with
  | none => exact ⟨rfl, rfl⟩
  | some i => exact ⟨rfl, List.length_modify ..⟩

/-- The count is the number of tokens. -/
def JsmnParser.Counted (p : JsmnParser) : Prop :=
  p.count = p.toks.length

/-- An allocation takes one token. -/
theorem count_jsmnAllocToken {n : ℕ} {p p' : JsmnParser} {tok : JsmnTok}
    (h : jsmnAllocToken n p tok = .ok p') :
    p'.count = p.count ∧ p'.toks.length = p.toks.length + 1 := by
  rw [jsmnAllocToken] at h
  split_ifs at h
  obtain rfl := Except.ok.inj h
  exact ⟨rfl, List.length_append ..⟩

/-- A mapped result comes from a result. -/
theorem map_eq_ok {ε α β : Type*} {x : Except ε α} {f : α → β} {b : β}
    (h : x.map f = .ok b) : ∃ a, x = .ok a ∧ f a = b := by
  cases x with
  | error e => exact absurd h (by simp [Except.map])
  | ok a => exact ⟨a, rfl, Except.ok.inj h⟩

/-- A sequence that succeeds succeeds in both parts. -/
theorem bind_eq_ok {ε α β : Type*} {x : Except ε α} {f : α → Except ε β} {b : β}
    (h : x.bind f = .ok b) : ∃ a, x = .ok a ∧ f a = .ok b := by
  cases x with
  | error e => exact absurd h (by simp [Except.bind])
  | ok a => exact ⟨a, rfl, h⟩

/-- An opened container is counted. -/
theorem counted_jsmnOpen {n : ℕ} {type : JsmnType} {pos : ℕ} {p q : JsmnParser}
    (hp : p.Counted) (h : jsmnOpen n type pos p = .ok q) : q.Counted := by
  obtain ⟨p', hp', hq⟩ := bind_eq_ok h
  obtain rfl := Except.ok.inj hq
  obtain ⟨hcount, hlen⟩ := count_jsmnAllocToken hp'
  obtain ⟨hcount', hlen'⟩ := p'.count_bumpSuper
  rw [JsmnParser.Counted] at hp ⊢
  dsimp only
  omega

/-- A closing bracket gives one token its end. -/
theorem jsmnClose_eq_ok {type : JsmnType} {pos : ℕ} {p q : JsmnParser}
    (h : jsmnClose type pos p = .ok q) :
    ∃ i, q.toks = p.toks.modify i (fun t => { t with stop := pos + 1 }) ∧ q.count = p.count := by
  rw [jsmnClose] at h
  cases hlast : lastIdx JsmnTok.isOpen p.toks with
  | none =>
      rw [hlast] at h
      exact absurd h (by simp)
  | some i =>
      rw [hlast] at h
      dsimp only at h
      split_ifs at h
      obtain rfl := Except.ok.inj h
      exact ⟨i, rfl, rfl⟩

/-- Closing a container adds no token. -/
theorem counted_jsmnClose {type : JsmnType} {pos : ℕ} {p q : JsmnParser} (hp : p.Counted)
    (h : jsmnClose type pos p = .ok q) : q.Counted := by
  obtain ⟨i, htoks, hcount⟩ := jsmnClose_eq_ok h
  rw [JsmnParser.Counted, htoks, hcount, List.length_modify]
  exact hp

/-- A comma adds no token. -/
theorem counted_jsmnComma {p : JsmnParser} (hp : p.Counted) : (jsmnComma p).Counted := by
  rw [jsmnComma]
  cases p.toksuper with
  | none => exact hp
  | some i =>
      dsimp only
      split_ifs
      · exact hp
      · cases lastIdx (fun t => t.isContainer && t.isOpen) p.toks <;> exact hp

/-- An allocated token becomes a counted one. -/
theorem counted_jsmnAllocToken {n : ℕ} {tok : JsmnTok} {p p' : JsmnParser} (hp : p.Counted)
    (h : jsmnAllocToken n p tok = .ok p') : p'.counted.Counted := by
  obtain ⟨hcount, hlen⟩ := count_jsmnAllocToken h
  obtain ⟨hcount', hlen'⟩ := JsmnParser.count_bumpSuper { p' with count := p'.count + 1 }
  rw [JsmnParser.Counted] at hp ⊢
  rw [JsmnParser.counted, hcount', hlen']
  dsimp only
  omega

/-- A string is counted. -/
theorem counted_jsmnParseString {n : ℕ} {js : Bytes} {pos : ℕ} {p : JsmnParser}
    {q : ℕ × JsmnParser} (hp : p.Counted) (h : jsmnParseString n js pos p = .ok q) :
    q.2.counted.Counted := by
  obtain ⟨len, -, hq⟩ := bind_eq_ok h
  obtain ⟨p', hp', hq⟩ := bind_eq_ok hq
  obtain rfl := Except.ok.inj hq
  exact counted_jsmnAllocToken hp hp'

/-- A primitive is counted. -/
theorem counted_jsmnParsePrimitive {n : ℕ} {js : Bytes} {pos : ℕ} {p : JsmnParser}
    {q : ℕ × JsmnParser} (hp : p.Counted) (h : jsmnParsePrimitive n js pos p = .ok q) :
    q.2.counted.Counted := by
  obtain ⟨len, -, hq⟩ := bind_eq_ok h
  obtain ⟨p', hp', hq⟩ := bind_eq_ok hq
  obtain rfl := Except.ok.inj hq
  exact counted_jsmnAllocToken hp hp'

/-- **What the body of the loop does**: it opens or closes a container, reads a string or a
primitive, or takes no token. -/
theorem jsmnStep_cases (n : ℕ) (c : UInt8) (js : Bytes) (pos : ℕ) (p : JsmnParser) :
    (∃ type, jsmnStep n c js pos p = (jsmnOpen n type pos p).map (0, ·)) ∨
    (∃ type, jsmnStep n c js pos p = (jsmnClose type pos p).map (0, ·)) ∨
    (jsmnStep n c js pos p = (jsmnParseString n js pos p).map fun r => (r.1, r.2.counted)) ∨
    (∃ q, (q = p ∨ q = { p with toksuper := p.lastTok } ∨ q = jsmnComma p) ∧
      jsmnStep n c js pos p = .ok (0, q)) ∨
    (isDelim c = false ∧ jsmnStep n c js pos p =
      (jsmnParsePrimitive n (c :: js) pos p).map fun r => (r.1, r.2.counted)) := by
  by_cases h123 : c = 123
  · exact Or.inl ⟨.object, by rw [jsmnStep, if_pos h123]⟩
  by_cases h91 : c = 91
  · exact Or.inl ⟨.array, by rw [jsmnStep, if_neg h123, if_pos h91]⟩
  by_cases h125 : c = 125
  · exact Or.inr (Or.inl ⟨.object, by rw [jsmnStep, if_neg h123, if_neg h91, if_pos h125]⟩)
  by_cases h93 : c = 93
  · refine Or.inr (Or.inl ⟨.array, ?_⟩)
    rw [jsmnStep, if_neg h123, if_neg h91, if_neg h125, if_pos h93]
  by_cases h34 : c = 34
  · refine Or.inr (Or.inr (Or.inl ?_))
    rw [jsmnStep, if_neg h123, if_neg h91, if_neg h125, if_neg h93, if_pos h34]
  have hrest : jsmnStep n c js pos p =
      if c = 9 ∨ c = 13 ∨ c = 10 ∨ c = 32 then .ok (0, p)
      else if c = 58 then .ok (0, { p with toksuper := p.lastTok })
      else if c = 44 then .ok (0, jsmnComma p)
      else (jsmnParsePrimitive n (c :: js) pos p).map fun r => (r.1, r.2.counted) := by
    rw [jsmnStep, if_neg h123, if_neg h91, if_neg h125, if_neg h93, if_neg h34]
  by_cases hws : c = 9 ∨ c = 13 ∨ c = 10 ∨ c = 32
  · exact Or.inr (Or.inr (Or.inr (Or.inl ⟨p, Or.inl rfl, by rw [hrest, if_pos hws]⟩)))
  by_cases h58 : c = 58
  · refine Or.inr (Or.inr (Or.inr (Or.inl ⟨_, Or.inr (Or.inl rfl), ?_⟩)))
    rw [hrest, if_neg hws, if_pos h58]
  by_cases h44 : c = 44
  · refine Or.inr (Or.inr (Or.inr (Or.inl ⟨_, Or.inr (Or.inr rfl), ?_⟩)))
    rw [hrest, if_neg hws, if_neg h58, if_pos h44]
  refine Or.inr (Or.inr (Or.inr (Or.inr ⟨?_, ?_⟩)))
  · rw [not_or, not_or, not_or] at hws
    simp [isDelim, hws, h58, h44, h93, h125]
  · rw [hrest, if_neg hws, if_neg h58, if_neg h44]

/-- Every step counts the tokens it adds. -/
theorem counted_jsmnStep {n : ℕ} {c : UInt8} {js : Bytes} {pos : ℕ} {p : JsmnParser}
    {r : ℕ × JsmnParser} (hp : p.Counted) (h : jsmnStep n c js pos p = .ok r) :
    r.2.Counted := by
  rcases jsmnStep_cases n c js pos p with ⟨type, hstep⟩ | ⟨type, hstep⟩ | hstep |
    ⟨q, hq, hstep⟩ | ⟨-, hstep⟩
  all_goals rw [hstep] at h
  · obtain ⟨q, hq, rfl⟩ := map_eq_ok h
    exact counted_jsmnOpen hp hq
  · obtain ⟨q, hq, rfl⟩ := map_eq_ok h
    exact counted_jsmnClose hp hq
  · obtain ⟨q, hq, rfl⟩ := map_eq_ok h
    exact counted_jsmnParseString hp hq
  · obtain rfl := Except.ok.inj h
    rcases hq with rfl | rfl | rfl
    · exact hp
    · exact hp
    · exact counted_jsmnComma hp
  · obtain ⟨q, hq, rfl⟩ := map_eq_ok h
    exact counted_jsmnParsePrimitive hp hq

/-- **The loop** keeps the count of the tokens. -/
theorem counted_jsmnLoop {n : ℕ} {js : Bytes} {pos skip : ℕ} {p p' : JsmnParser}
    (hp : p.Counted) (h : jsmnLoop n js pos skip p = .ok p') : p'.Counted := by
  induction js generalizing pos skip p with
  | nil => exact Except.ok.inj h ▸ hp
  | cons c js ih =>
      cases skip with
      | succ skip => exact ih hp h
      | zero =>
          rw [jsmnLoop] at h
          cases hstep : jsmnStep n c js pos p with
          | error e => rw [hstep] at h; exact absurd h (by simp)
          | ok r =>
              rw [hstep] at h
              exact ih (counted_jsmnStep hp hstep) h

/-- **The count `jsmn_parse` returns is the number of tokens** it has filled in. -/
theorem count_jsmnParse {js : Bytes} {n r : ℕ} {toks : List JsmnTok}
    (h : jsmnParse js n = .ok (r, toks)) : r = toks.length := by
  rw [jsmnParse] at h
  cases hloop : jsmnLoop n js 0 0 jsmnInit with
  | error e => rw [hloop] at h; exact absurd h (by simp)
  | ok p =>
      rw [hloop] at h
      dsimp only at h
      split_ifs at h
      obtain ⟨rfl, rfl⟩ := Prod.mk.inj (Except.ok.inj h)
      exact counted_jsmnLoop (p := jsmnInit) rfl hloop

end AirShifter
