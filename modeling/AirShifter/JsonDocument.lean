import AirShifter.FlatMeaning
import AirShifter.Runs

/-!
# JSON Documents

Any JSON document, nested to any depth, with escapes in its strings and whitespace wherever
JSON allows it. The tokenizer turns a document into the tokens of its values in the order
in which they start, and it does so exactly if the pool has a token for each of them.

The packet parser walks over this list as if it were flat. An object inside another one is
no boundary to it: a field counts at whatever depth it stands, and of two fields for the
same network name the last one wins.

## Main results

* `Tokenizes.append`, `tokenizes_container`: pieces of a document, one after the other and
  one inside the other.
* `jsmnParse_document`: the tokens of a document, and the error if the pool is too small.
* `jsonPass_document`: the JSON pass makes the calls of the fields of the document, at any
  depth.
-/

open CBytes

namespace AirShifter

/-! ### Syntax -/

/-- A character of a JSON string: a byte that stands for itself, an escaped byte, or a
unicode escape with its four digits. -/
inductive StrChar
  | plain (c : {c : UInt8 // c ≠ 34 ∧ c ≠ 92 ∧ c ≠ 0})
  | escape (c : {c : UInt8 // isEscape c = true})
  | unicode (d₁ d₂ d₃ d₄ : {c : UInt8 // isHex c = true})

/-- The text of a character. -/
def StrChar.bytes : StrChar → Bytes
  | .plain c => [c.val]
  | .escape c => [92, c.val]
  | .unicode d₁ d₂ d₃ d₄ => [92, 117, d₁.val, d₂.val, d₃.val, d₄.val]

/-- A JSON string. -/
abbrev JsonStr := List StrChar

/-- The text between the quotes of a string. -/
def strBytes (s : JsonStr) : Bytes :=
  s.flatMap StrChar.bytes

/-- A number, or one of the words `true`, `false` and `null`: whatever the tokenizer takes
for a primitive. -/
structure JsonWord where
  first : UInt8
  rest : Bytes
  starts : isPrimitiveStart first = true
  printable : ∀ c ∈ first :: rest, isDelim c = false ∧ 32 ≤ c ∧ c < 127

/-- The text of a word. -/
def JsonWord.bytes (w : JsonWord) : Bytes :=
  w.first :: w.rest

mutual

/-- A value. -/
inductive JsonValue
  | str (s : JsonStr)
  | word (w : JsonWord)
  | array (elems : JsonElems)
  | object (members : JsonMembers)

/-- The elements of an array: whitespace at its end, or an element with the whitespace
around it, and the others. -/
inductive JsonElems
  | nil (ws : Ws)
  | cons (before : Ws) (value : JsonValue) (after : Ws) (rest : JsonElems)

/-- The members of an object: whitespace at its end, or a member with the whitespace before
its name, around the colon and behind its value, and the others. -/
inductive JsonMembers
  | nil (ws : Ws)
  | cons (wsName : Ws) (name : JsonStr) (wsColon wsValue : Ws) (value : JsonValue) (wsEnd : Ws)
      (rest : JsonMembers)

end

/-- The comma in front of every item but the first one. -/
def comma (first : Bool) : Bytes :=
  if first then [] else [44]

mutual

/-- The text of a value. -/
def JsonValue.bytes : JsonValue → Bytes
  | .str s => 34 :: (strBytes s ++ [34])
  | .word w => w.bytes
  | .array elems => 91 :: (elems.bytes true ++ [93])
  | .object members => 123 :: (members.bytes true ++ [125])

/-- The text of elements, the first of the array or not. -/
def JsonElems.bytes : JsonElems → Bool → Bytes
  | .nil ws, _ => ws.val
  | .cons before value after rest, first =>
    comma first ++ (before.val ++ (value.bytes ++ (after.val ++ rest.bytes false)))

/-- The text of members, the first of the object or not. -/
def JsonMembers.bytes : JsonMembers → Bool → Bytes
  | .nil ws, _ => ws.val
  | .cons wsName name wsColon wsValue value wsEnd rest, first =>
    comma first ++ (wsName.val ++ (34 :: (strBytes name ++ [34]) ++ (wsColon.val ++ ([58] ++
      (wsValue.val ++ (value.bytes ++ (wsEnd.val ++ rest.bytes false)))))))

end

/-- The token of a value: a string without its quotes, any other value as it stands. -/
def JsonValue.lexeme : JsonValue → Lexeme
  | .str s => ⟨.string, strBytes s⟩
  | .word w => ⟨.primitive, w.bytes⟩
  | .array elems => ⟨.array, 91 :: (elems.bytes true ++ [93])⟩
  | .object members => ⟨.object, 123 :: (members.bytes true ++ [125])⟩

mutual

/-- The tokens inside a value. -/
def JsonValue.inner : JsonValue → List Lexeme
  | .str _ | .word _ => []
  | .array elems => elems.lexemes
  | .object members => members.lexemes

/-- The tokens of elements. -/
def JsonElems.lexemes : JsonElems → List Lexeme
  | .nil _ => []
  | .cons _ value _ rest => (value.lexeme :: value.inner) ++ rest.lexemes

/-- The tokens of members: a name is a token, and its value follows it. -/
def JsonMembers.lexemes : JsonMembers → List Lexeme
  | .nil _ => []
  | .cons _ name _ _ value _ rest =>
    [⟨.string, strBytes name⟩] ++ ((value.lexeme :: value.inner) ++ rest.lexemes)

end

/-- A document: a value with whitespace around it. -/
structure JsonDocument where
  lead : Ws
  value : JsonValue
  trail : Ws

/-- The text of a document from its value on. -/
def JsonDocument.core (d : JsonDocument) : Bytes :=
  d.value.bytes ++ d.trail.val

/-- The text of a document. -/
def JsonDocument.bytes (d : JsonDocument) : Bytes :=
  d.lead.val ++ d.core

/-- The tokens of a document. -/
def JsonDocument.lexemes (d : JsonDocument) : List Lexeme :=
  d.value.lexeme :: d.value.inner

/-! ### Strings -/

/-- The scan of a string passes over its characters. -/
theorem scanString_jsonStr (s : JsonStr) (js : Bytes) :
    scanString .plain (strBytes s ++ 34 :: js) = .ok (strBytes s).length := by
  induction s with
  | nil => rfl
  | cons c s ih =>
      have hne : ∀ b : Bytes, b ++ (strBytes s ++ 34 :: js) ≠ [] := by simp
      rw [strBytes, List.flatMap_cons, ← strBytes, List.append_assoc]
      cases c with
      | plain c =>
          obtain ⟨c, hquote, hback, -⟩ := c
          rw [StrChar.bytes, List.singleton_append, scanString, if_neg hquote,
            if_neg fun h => hback h.1, ih]
          rfl
      | escape c =>
          obtain ⟨c, hc⟩ := c
          have hu : c ≠ 117 := by
            rintro rfl
            exact absurd hc (by decide)
          have hplain : scanString .plain (92 :: ([c] ++ (strBytes s ++ 34 :: js))) =
              (scanString .escape ([c] ++ (strBytes s ++ 34 :: js))).map (· + 1) := by
            rw [scanString, if_neg (by decide), if_pos ⟨rfl, hne [c]⟩]
          have hescape : scanString .escape (c :: (strBytes s ++ 34 :: js)) =
              (scanString .plain (strBytes s ++ 34 :: js)).map (· + 1) := by
            rw [scanString, if_neg hu, if_pos hc]
          rw [StrChar.bytes, List.cons_append, hplain, List.singleton_append, hescape, ih]
          rfl
      | unicode d₁ d₂ d₃ d₄ =>
          obtain ⟨d₁, h₁⟩ := d₁
          obtain ⟨d₂, h₂⟩ := d₂
          obtain ⟨d₃, h₃⟩ := d₃
          obtain ⟨d₄, h₄⟩ := d₄
          simp only [StrChar.bytes, List.cons_append, List.nil_append]
          rw [scanString, if_neg (by decide), if_pos ⟨rfl, List.cons_ne_nil _ _⟩, scanString,
            if_pos rfl, scanString, if_pos h₁, scanString, if_pos h₂, scanString, if_pos h₃,
            scanString, if_pos h₄, ih]
          rfl

/-! ### Single tokens -/

variable {n : ℕ} {C D : Bytes → Prop} {t₁ t₂ : Bytes} {l₁ l₂ : List Lexeme}

/-- The pool is too small for a token. -/
theorem jsmnAllocToken_full {p : JsmnParser} (hfull : n ≤ p.toks.length) (tok : JsmnTok) :
    jsmnAllocToken n p tok = .error .nomem :=
  if_pos hfull

/-- The tokenizer runs out of tokens in the piece `text`, if the pool has no room for all of
its tokens. -/
def Overflows (n : ℕ) (C : Bytes → Prop) (text : Bytes) (lexs : List Lexeme) : Prop :=
  ∀ pos js p, C js → p.toks.length ≤ n → n < p.toks.length + lexs.length →
    jsmnLoop n (text ++ js) pos 0 p = .error .nomem

/-- **The tokenizer turns the piece `text` into the tokens `lexs`** if they fit into the
pool, and runs out of tokens if they do not. -/
structure Tokenizes (n : ℕ) (C : Bytes → Prop) (text : Bytes) (lexs : List Lexeme) : Prop where
  reads : Reads n C text lexs
  overflows : Overflows n C text lexs

/-- **Two pieces one after the other.** -/
theorem Tokenizes.append (h₁ : Tokenizes n C t₁ l₁) (h₂ : Tokenizes n D t₂ l₂)
    (hC : ∀ js, D js → C (t₂ ++ js)) : Tokenizes n D (t₁ ++ t₂) (l₁ ++ l₂) := by
  refine ⟨h₁.reads.append h₂.reads hC, fun pos js p hjs hle hlt => ?_⟩
  rw [List.length_append] at hlt
  rw [List.append_assoc]
  by_cases hroom : p.toks.length + l₁.length ≤ n
  · obtain ⟨p₁, new, hspans, hlex, -, hloop⟩ :=
      h₁.reads (List.replicate pos 0) (t₂ ++ js) p (hC js hjs) hroom
    have hlen : p₁.toks.length = p.toks.length + l₁.length := by
      rw [← p₁.length_spans, hspans, List.length_append, p.length_spans, ← hlex, List.length_map]
    rw [List.length_replicate] at hloop
    rw [hloop]
    exact h₂.overflows _ js p₁ hjs (by omega) (by omega)
  · exact h₁.overflows pos (t₂ ++ js) p (hC js hjs) hle (by omega)

/-- A piece without tokens never runs out of them. -/
theorem Tokenizes.of_reads (h : Reads n C t₁ []) : Tokenizes n C t₁ [] :=
  ⟨h, fun _ _ _ _ hle hlt => absurd hlt (by simpa using hle)⟩

/-- Whitespace is passed over. -/
theorem tokenizes_ws (w : Ws) : Tokenizes n C w.val [] :=
  .of_reads (reads_ws w)

/-- A colon adds no token. -/
theorem tokenizes_colon : Tokenizes n C [58] [] :=
  .of_reads (reads_separator (Or.inl rfl))

/-- A comma adds none, either. -/
theorem tokenizes_comma (first : Bool) : Tokenizes n C (comma first) [] := by
  cases first with
  | true => exact .of_reads reads_nil
  | false => exact .of_reads (reads_separator (Or.inr rfl))

/-- **A string** with escapes is one token. -/
theorem tokenizes_str (s : JsonStr) :
    Tokenizes n C (34 :: (strBytes s ++ [34])) [⟨.string, strBytes s⟩] := by
  have htext : ∀ js : Bytes, 34 :: (strBytes s ++ [34]) ++ js = 34 :: (strBytes s ++ 34 :: js) := by
    simp
  constructor
  · intro pre js p _ hroom
    rw [List.length_singleton] at hroom
    obtain ⟨p', hp', hspans⟩ := jsmnAllocToken_eq (p := p) (n := n) (by omega)
      { type := .string, start := pre.length + 1
        stop := pre.length + 1 + (strBytes s).length, size := 0 }
    have hparse : jsmnParseString n (strBytes s ++ 34 :: js) pre.length p =
        .ok ((strBytes s).length + 1, p') := by
      rw [jsmnParseString, scanString_jsonStr]
      exact congrArg (Except.map _) hp'
    have hstep : jsmnStep n 34 (strBytes s ++ 34 :: js) pre.length p =
        .ok ((strBytes s).length + 1, p'.counted) := by
      simp only [jsmnStep, hparse]
      rfl
    refine ⟨p'.counted, _, (JsmnParser.spans_counted p').trans hspans, ?_, ?_, ?_⟩
    · have hspan := text_span .string (pre ++ [34]) (strBytes s) (34 :: js)
      rw [List.append_assoc, List.length_append, List.length_singleton] at hspan
      push_cast at hspan
      rw [htext]
      exact congrArg (fun t => [(⟨.string, t⟩ : Lexeme)]) hspan
    · intro t ht
      rw [List.mem_singleton.mp ht]
      simp only [JsmnTok.span, Span.isOpen, Bool.and_eq_false_iff, bne_eq_false_iff_eq,
        beq_eq_false_iff_ne]
      right
      omega
    · have hskip := jsmnLoop_skip n (strBytes s ++ [34]) js (pre.length + 1) p'.counted
      rw [List.append_assoc, List.length_append, List.singleton_append,
        List.length_singleton] at hskip
      rw [htext, jsmnLoop, hstep]
      dsimp only
      rw [hskip]
      congr 1
      simp only [List.length_append, List.length_cons, List.length_nil]
      omega
  · intro pos js p _ hle hlt
    rw [List.length_singleton] at hlt
    have hparse : jsmnParseString n (strBytes s ++ 34 :: js) pos p = .error .nomem := by
      rw [jsmnParseString, scanString_jsonStr]
      exact congrArg (Except.map _) (jsmnAllocToken_full (by omega) _)
    have hstep : jsmnStep n 34 (strBytes s ++ 34 :: js) pos p = .error .nomem := by
      simp only [jsmnStep, hparse]
      rfl
    rw [htext, jsmnLoop, hstep]

/-- **A word** in front of a delimiter is one token. -/
theorem tokenizes_word (w : JsonWord) : Tokenizes n Delimited w.bytes [⟨.primitive, w.bytes⟩] := by
  obtain ⟨c, b, hstart, hprint⟩ := w
  constructor
  · intro pre js p hjs hroom
    rw [List.length_singleton] at hroom
    obtain ⟨p', hspans, hloop⟩ :=
      jsmnLoop_primitive (n := n) (p := p) hstart hprint hjs pre.length (by omega)
    refine ⟨p', _, hspans, ?_, ?_, ?_⟩
    · have hspan := text_span .primitive pre (c :: b) js
      rw [List.length_cons] at hspan
      push_cast at hspan
      rw [List.map_singleton, Span.lexeme, JsonWord.bytes, hspan]
    · intro s hs
      rw [List.mem_singleton.mp hs]
      simp only [Span.isOpen, Bool.and_eq_false_iff, bne_eq_false_iff_eq, beq_eq_false_iff_ne]
      right
      omega
    · rw [JsonWord.bytes, List.cons_append, hloop, List.length_append, List.length_cons]
      rfl
  · intro pos js p hjs hle hlt
    rw [List.length_singleton] at hlt
    have hscan : scanPrimitive (c :: (b ++ js)) = .ok (b.length + 1) :=
      scanPrimitive_append (b := c :: b) hprint hjs
    have hparse : jsmnParsePrimitive n (c :: (b ++ js)) pos p = .error .nomem := by
      rw [jsmnParsePrimitive, hscan]
      exact congrArg (Except.map _) (jsmnAllocToken_full (by omega) _)
    have hstep : jsmnStep n c (b ++ js) pos p = .error .nomem := by
      simp only [isPrimitiveStart, isDelim, Bool.not_eq_true', Bool.or_eq_false_iff,
        beq_eq_false_iff_ne] at hstart
      simp only [jsmnStep, hparse, hstart, if_false, or_self]
      rfl
    rw [JsonWord.bytes, List.cons_append, jsmnLoop, hstep]

/-! ### Containers -/

/-- The brackets of arrays and objects. -/
inductive Brackets : JsmnType → UInt8 → UInt8 → Prop
  | array : Brackets .array 91 93
  | object : Brackets .object 123 125

/-- The last token with `q` stands behind the tokens `ts`. -/
theorem lastIdx_append_cons {q : JsmnTok → Bool} (ts : List JsmnTok) {t : JsmnTok}
    {us : List JsmnTok} (ht : q t = true) (hus : ∀ u ∈ us, q u = false) :
    lastIdx q (ts ++ t :: us) = some ts.length := by
  induction ts with
  | nil => rw [List.nil_append, lastIdx, lastIdx_eq_none hus]; exact if_pos ht
  | cons a ts ih => rw [List.cons_append, lastIdx, ih]; rfl

/-- A change of the element behind a prefix. -/
theorem modify_append_cons {α : Type*} (l r : List α) (a : α) (f : α → α) :
    (l ++ a :: r).modify l.length f = l ++ f a :: r := by
  induction l with
  | nil => rfl
  | cons b l ih => rw [List.cons_append, List.length_cons, List.modify_succ_cons, ih]; rfl

/-- **A closing bracket closes the innermost container**: the last open token, if all tokens
behind it are closed. -/
theorem jsmnClose_innermost {type : JsmnType} (pos : ℕ) {start : ℕ} {p : JsmnParser}
    {old new : List Span} (hp : p.spans = old ++ ⟨type, start, -1⟩ :: new)
    (hnew : ∀ s ∈ new, s.isOpen = false) :
    ∃ p', jsmnClose type pos p = .ok p' ∧ p'.spans = old ++ ⟨type, start, pos + 1⟩ :: new := by
  obtain ⟨ts, tail, htoks, hts, htail⟩ := List.map_eq_append_iff.mp hp
  obtain ⟨t, us, rfl, ht, hus⟩ := List.map_eq_cons_iff.mp htail
  have hopen : t.isOpen = true := by
    have hne : (start : ℤ) ≠ -1 := by omega
    rw [isOpen_eq, ht]
    simp [Span.isOpen, hne]
  have hclosed : ∀ u ∈ us, u.isOpen = false := by
    intro u hu
    rw [isOpen_eq]
    exact hnew _ (hus ▸ List.mem_map_of_mem hu)
  have htype : (p.toks[ts.length]?).map JsmnTok.type = some type := by
    rw [htoks, List.getElem?_append_right (le_refl _), Nat.sub_self, List.getElem?_cons_zero]
    exact congrArg some (congrArg Span.type ht)
  have hlast : lastIdx JsmnTok.isOpen p.toks = some ts.length := by
    rw [htoks, lastIdx_append_cons ts hopen hclosed]
  obtain ⟨htyp, hstart, -⟩ := Span.mk.inj ht
  refine ⟨{ p with
    toks := p.toks.modify ts.length fun t => { t with stop := (pos : ℤ) + 1 }
    toksuper := lastIdx JsmnTok.isOpen
      ((p.toks.modify ts.length fun t => { t with stop := (pos : ℤ) + 1 }).take
        (ts.length + 1)) }, ?_, ?_⟩
  · rw [jsmnClose, hlast]
    dsimp only
    rw [if_neg (not_not.mpr htype)]
  · rw [JsmnParser.spans]
    dsimp only
    rw [htoks, modify_append_cons, List.map_append, List.map_cons, hts, hus, JsmnTok.span]
    dsimp only
    rw [htyp, hstart]

/-- **An opening bracket** becomes a token that is open. -/
theorem jsmnOpen_eq (type : JsmnType) (pos : ℕ) {p : JsmnParser} (hroom : p.toks.length < n) :
    ∃ p', jsmnOpen n type pos p = .ok p' ∧ p'.spans = p.spans ++ [⟨type, pos, -1⟩] ∧
      p'.toks.length = p.toks.length + 1 := by
  obtain ⟨p₀, hp₀, hspans⟩ := jsmnAllocToken_eq hroom
    { type := type, start := pos, stop := -1, size := 0 }
  have hspans' : p₀.bumpSuper.spans = p.spans ++ [⟨type, pos, -1⟩] :=
    p₀.spans_bumpSuper.trans hspans
  have hlen : p₀.bumpSuper.toks.length = p.toks.length + 1 := by
    rw [← p₀.bumpSuper.length_spans, hspans', List.length_append, p.length_spans,
      List.length_singleton]
  refine ⟨{ p₀.bumpSuper with
    toksuper := p₀.bumpSuper.lastTok, count := p₀.bumpSuper.count + 1 }, ?_, hspans', hlen⟩
  rw [jsmnOpen, hp₀]
  rfl

/-- **A container** is one token, and its contents are the tokens behind it. -/
theorem tokenizes_container {type : JsmnType} {lbr rbr : UInt8} {body : Bytes}
    {lexs : List Lexeme} (hbr : Brackets type lbr rbr) (hbody : Tokenizes n Delimited body lexs) :
    Tokenizes n C (lbr :: (body ++ [rbr])) (⟨type, lbr :: (body ++ [rbr])⟩ :: lexs) := by
  have htext : ∀ js : Bytes, lbr :: (body ++ [rbr]) ++ js = lbr :: (body ++ rbr :: js) := by simp
  have hdelim : ∀ js : Bytes, Delimited (rbr :: js) := by
    intro js c hc
    obtain rfl := Option.some.inj hc
    cases hbr <;> rfl
  have hopen : ∀ js pos p, jsmnStep n lbr js pos p = (jsmnOpen n type pos p).map (0, ·) := by
    intro js pos p
    cases hbr <;> rfl
  have hclose : ∀ js pos p, jsmnStep n rbr js pos p = (jsmnClose type pos p).map (0, ·) := by
    intro js pos p
    cases hbr <;> rfl
  constructor
  · intro pre js p _ hroom
    rw [List.length_cons] at hroom
    obtain ⟨p₁, hp₁, hspans₁, hlen₁⟩ :=
      jsmnOpen_eq (n := n) (p := p) type pre.length (by omega)
    obtain ⟨p₂, new, hspans₂, hlex, hclosed, hloop₂⟩ :=
      hbody.reads (pre ++ [lbr]) (rbr :: js) p₁ (hdelim js) (by omega)
    rw [hspans₁, List.append_assoc, List.singleton_append] at hspans₂
    obtain ⟨p₃, hp₃, hspans₃⟩ :=
      jsmnClose_innermost (pre ++ [lbr] ++ body).length hspans₂ hclosed
    refine ⟨p₃, _, hspans₃, ?_, ?_, ?_⟩
    · have hspan := text_span type pre (lbr :: (body ++ [rbr])) js
      have hstop : ((pre.length : ℤ) + (lbr :: (body ++ [rbr])).length) =
          (pre ++ [lbr] ++ body).length + 1 := by
        simp only [List.length_append, List.length_cons, List.length_nil]
        push_cast
        ring
      rw [hstop] at hspan
      rw [List.append_assoc pre, List.singleton_append] at hlex
      rw [List.map_cons, Span.lexeme, hspan, htext, ← List.cons_append, hlex]
    · intro s hs
      rcases List.mem_cons.mp hs with rfl | hs
      · simp only [Span.isOpen, Bool.and_eq_false_iff, bne_eq_false_iff_eq, beq_eq_false_iff_ne]
        right
        omega
      · exact hclosed s hs
    · have hfirst : jsmnLoop n (lbr :: (body ++ rbr :: js)) pre.length 0 p =
          jsmnLoop n (body ++ rbr :: js) (pre.length + 1) 0 p₁ := by
        rw [jsmnLoop, hopen, hp₁]
        rfl
      have hlast : jsmnLoop n (rbr :: js) (pre ++ [lbr] ++ body).length 0 p₂ =
          jsmnLoop n js ((pre ++ [lbr] ++ body).length + 1) 0 p₃ := by
        rw [jsmnLoop, hclose, hp₃]
        rfl
      rw [List.length_append, List.length_singleton] at hloop₂
      rw [htext, hfirst, hloop₂, hlast]
      congr 1
      simp only [List.length_append, List.length_cons, List.length_nil]
      omega
  · intro pos js p _ hle hlt
    rw [List.length_cons] at hlt
    rw [htext, jsmnLoop, hopen]
    by_cases hfull : n ≤ p.toks.length
    · rw [jsmnOpen, jsmnAllocToken_full hfull]
      rfl
    · obtain ⟨p₁, hp₁, -, hlen₁⟩ := jsmnOpen_eq (n := n) (p := p) type pos (by omega)
      rw [hp₁]
      exact hbody.overflows _ (rbr :: js) p₁ (hdelim js) (by omega) (by omega)

/-! ### Documents -/

/-- More elements delimit what stands in front of them. -/
theorem delimited_elems {js : Bytes} (es : JsonElems) (hjs : Delimited js) :
    Delimited (es.bytes false ++ js) := by
  cases es with
  | nil ws => exact delimited_ws ws hjs
  | cons before value after rest =>
      intro c hc
      obtain rfl : 44 = c := by simpa [JsonElems.bytes, comma] using hc
      rfl

/-- So do more members. -/
theorem delimited_members {js : Bytes} (ms : JsonMembers) (hjs : Delimited js) :
    Delimited (ms.bytes false ++ js) := by
  cases ms with
  | nil ws => exact delimited_ws ws hjs
  | cons wsName name wsColon wsValue value wsEnd rest =>
      intro c hc
      obtain rfl : 44 = c := by simpa [JsonMembers.bytes, comma] using hc
      rfl

/-- A piece in front of a value, an element or a member. -/
theorem Tokenizes.after (h₂ : Tokenizes n D t₂ l₂) (h₁ : Tokenizes n (fun _ => True) t₁ l₁) :
    Tokenizes n D (t₁ ++ t₂) (l₁ ++ l₂) :=
  h₁.append h₂ fun _ _ => trivial

mutual

/-- The tokens of a value. -/
theorem tokenizes_value (n : ℕ) (v : JsonValue) :
    Tokenizes n Delimited v.bytes (v.lexeme :: v.inner) := by
  cases v with
  | str s => exact tokenizes_str s
  | word w => exact tokenizes_word w
  | array es => exact tokenizes_container .array (tokenizes_elems n es true)
  | object ms => exact tokenizes_container .object (tokenizes_members n ms true)

/-- The tokens of elements. -/
theorem tokenizes_elems (n : ℕ) (es : JsonElems) (first : Bool) :
    Tokenizes n Delimited (es.bytes first) es.lexemes := by
  cases es with
  | nil ws => exact tokenizes_ws ws
  | cons before value after rest =>
      have hrest : Tokenizes n Delimited (after.val ++ rest.bytes false) ([] ++ rest.lexemes) :=
        (tokenizes_elems n rest false).after (tokenizes_ws after)
      have hvalue : Tokenizes n Delimited (value.bytes ++ (after.val ++ rest.bytes false))
          (value.lexeme :: value.inner ++ ([] ++ rest.lexemes)) :=
        (tokenizes_value n value).append hrest fun js hjs => by
          rw [List.append_assoc]
          exact delimited_ws after (delimited_elems rest hjs)
      exact (hvalue.after (tokenizes_ws before)).after (tokenizes_comma first)

/-- The tokens of members. -/
theorem tokenizes_members (n : ℕ) (ms : JsonMembers) (first : Bool) :
    Tokenizes n Delimited (ms.bytes first) ms.lexemes := by
  cases ms with
  | nil ws => exact tokenizes_ws ws
  | cons wsName name wsColon wsValue value wsEnd rest =>
      have hrest : Tokenizes n Delimited (wsEnd.val ++ rest.bytes false) ([] ++ rest.lexemes) :=
        (tokenizes_members n rest false).after (tokenizes_ws wsEnd)
      have hvalue : Tokenizes n Delimited (value.bytes ++ (wsEnd.val ++ rest.bytes false))
          (value.lexeme :: value.inner ++ ([] ++ rest.lexemes)) :=
        (tokenizes_value n value).append hrest fun js hjs => by
          rw [List.append_assoc]
          exact delimited_ws wsEnd (delimited_members rest hjs)
      have hcolon := ((hvalue.after (tokenizes_ws wsValue)).after tokenizes_colon).after
        (tokenizes_ws wsColon)
      exact ((hcolon.after (tokenizes_str name)).after (tokenizes_ws wsName)).after
        (tokenizes_comma first)

end

/-- A document is a piece of text like any other. -/
theorem tokenizes_document (n : ℕ) (d : JsonDocument) :
    Tokenizes n Delimited d.bytes d.lexemes := by
  have hdoc := ((tokenizes_value n d.value).append (tokenizes_ws d.trail) fun js hjs =>
    delimited_ws d.trail hjs).after (tokenizes_ws d.lead)
  rwa [List.nil_append, List.append_nil] at hdoc

/-- The end of the text delimits. -/
theorem delimited_nil : Delimited [] :=
  fun c hc => absurd hc (by simp)

/-- A text whose tokens fit into the pool. -/
theorem Tokenizes.parse_of_room (h : Tokenizes n Delimited t₁ l₁) (hroom : l₁.length ≤ n) :
    ∃ toks, jsmnParse t₁ n = .ok (toks.length, toks) ∧
      toks.map (fun t => t.span.lexeme t₁) = l₁ := by
  obtain ⟨p, new, hspans, hlex, hclosed, hloop⟩ :=
    h.reads [] [] jsmnInit delimited_nil (by simpa [jsmnInit] using hroom)
  have hnew : p.spans = new := by
    rw [hspans]
    rfl
  rw [List.append_nil, List.nil_append, List.length_nil] at hloop
  have hopen : p.toks.any JsmnTok.isOpen = false := by
    rw [List.any_eq_false]
    intro t ht
    rw [isOpen_eq, Bool.not_eq_true]
    exact hclosed _ (hnew ▸ List.mem_map_of_mem ht)
  have hparse : jsmnParse t₁ n = .ok (p.count, p.toks) := by
    rw [jsmnParse, hloop, jsmnLoop]
    dsimp only
    rw [hopen, if_neg Bool.false_ne_true]
  have hmap : p.toks.map (fun t => t.span.lexeme t₁) = p.spans.map (Span.lexeme t₁) := by
    rw [JsmnParser.spans, List.map_map]
    rfl
  rw [count_jsmnParse hparse] at hparse
  rw [List.append_nil, List.nil_append] at hlex
  exact ⟨p.toks, hparse, by rw [hmap, hnew, hlex]⟩

/-- A text with more tokens than the pool holds. -/
theorem Tokenizes.parse_of_full (h : Tokenizes n Delimited t₁ l₁) (hfull : n < l₁.length) :
    jsmnParse t₁ n = .error .nomem := by
  have hloop := h.overflows 0 [] jsmnInit delimited_nil (Nat.zero_le _)
    (by simpa [jsmnInit] using hfull)
  rw [List.append_nil] at hloop
  rw [jsmnParse, hloop]

/-- **The tokens of a document.** The tokenizer fills in the tokens of the values in the
order in which they start, if the pool has room for them, and stops with
`JSMN_ERROR_NOMEM` if it has not. -/
theorem jsmnParse_document (d : JsonDocument) (n : ℕ) :
    (jsmnParse d.bytes n).map (fun r => (r.1, r.2.map fun t => t.span.lexeme d.bytes)) =
      if d.lexemes.length ≤ n then .ok (d.lexemes.length, d.lexemes) else .error .nomem := by
  split_ifs with hroom
  · obtain ⟨toks, hparse, hlex⟩ := (tokenizes_document n d).parse_of_room hroom
    rw [hparse, ← hlex, List.length_map]
    rfl
  · rw [(tokenizes_document n d).parse_of_full (not_le.mp hroom)]
    rfl

/-! ### The walk over a document -/

/-- An array or an object. -/
def JsonValue.isContainer : JsonValue → Bool
  | .array _ | .object _ => true
  | .str _ | .word _ => false

/-- **The JSON pass over a document** walks over all of its tokens, or does nothing if there
are more of them than the pool holds. -/
theorem jsonPass_bytes {d : JsonDocument} (hd : d.value.isContainer = true) :
    jsonPass d.bytes = if d.lexemes.length ≤ jsmnTokenMax then
      finishJson (secondPass d.lexemes {}) else ([], false) := by
  have hlead : ∀ c ∈ d.lead.val, isspace c = true := by
    intro c hc
    rcases d.lead.2 c hc with rfl | rfl | rfl | rfl <;> rfl
  have hcore : d.core.dropWhile isspace = d.core ∧
      (d.core.head? = some 123 ∨ d.core.head? = some 91) := by
    rw [JsonDocument.core]
    cases hv : d.value with
    | str s => exact absurd hd (by rw [hv]; exact Bool.false_ne_true)
    | word w => exact absurd hd (by rw [hv]; exact Bool.false_ne_true)
    | array es => exact ⟨List.dropWhile_cons_of_neg (by decide), Or.inr rfl⟩
    | object ms => exact ⟨List.dropWhile_cons_of_neg (by decide), Or.inl rfl⟩
  have hdrop : d.bytes.dropWhile isspace = d.core := by
    rw [JsonDocument.bytes, List.dropWhile_append_of_pos hlead, hcore.1]
  rw [jsonPass, hdrop, if_pos hcore.2, parserHandlePacketJson]
  split_ifs with hroom
  · obtain ⟨toks, hparse, hlex⟩ :=
      (tokenizes_document jsmnTokenMax { d with lead := noWs }).parse_of_room hroom
    replace hparse : jsmnParse d.core jsmnTokenMax = .ok (toks.length, toks) := hparse
    have hne : toks.length ≠ 0 := by
      rw [← List.length_map (fun t : JsmnTok => t.span.lexeme d.core)]
      exact hlex ▸ Nat.succ_ne_zero _
    rw [hparse]
    dsimp only
    rw [if_neg hne, List.take_length]
    exact congrArg (fun l => finishJson (secondPass l {})) hlex
  · have hfull : jsmnParse d.core jsmnTokenMax = .error .nomem :=
      (tokenizes_document jsmnTokenMax { d with lead := noWs }).parse_of_full (not_le.mp hroom)
    rw [hfull]

/-- A field: a key that the parser knows, and the token of its value. -/
abbrev Field := PacketKey × Lexeme

mutual

/-- The fields of a value, at any depth, in the order in which they start. -/
def JsonValue.fields : JsonValue → List Field
  | .str _ | .word _ => []
  | .array elems => elems.fields
  | .object members => members.fields

/-- The fields of elements. -/
def JsonElems.fields : JsonElems → List Field
  | .nil _ => []
  | .cons _ value _ rest => value.fields ++ rest.fields

/-- The fields of members: a member with a known name is one itself. -/
def JsonMembers.fields : JsonMembers → List Field
  | .nil _ => []
  | .cons _ name _ _ value _ rest =>
    ((keyOfName (strBytes name)).map (·, value.lexeme)).toList ++ (value.fields ++ rest.fields)

end

/-- The value is a string that is a name the parser knows. -/
def JsonValue.IsName (v : JsonValue) : Prop :=
  v.lexeme.type = .string ∧ keyOfName v.lexeme.text ≠ none

instance (v : JsonValue) : Decidable v.IsName :=
  inferInstanceAs (Decidable (_ ∧ _))

mutual

/-- No string inside the value would be taken for a key: neither an element of an array nor
the value of an unknown member is a known name. -/
def JsonValue.NoStray : JsonValue → Prop
  | .str _ | .word _ => True
  | .array elems => elems.NoStray
  | .object members => members.NoStray

/-- The condition for elements. -/
def JsonElems.NoStray : JsonElems → Prop
  | .nil _ => True
  | .cons _ value _ rest => ¬ value.IsName ∧ value.NoStray ∧ rest.NoStray

/-- The condition for members. -/
def JsonMembers.NoStray : JsonMembers → Prop
  | .nil _ => True
  | .cons _ name _ _ value _ rest =>
    (keyOfName (strBytes name) = none → ¬ value.IsName) ∧ value.NoStray ∧ rest.NoStray

end

/-- What gathering the fields in order leads to. -/
def gatherFields (g : Gather) (fs : List Field) : Gather :=
  fs.foldl (fun g f => gatherValue g f.1 f.2) g

/-- The second pass takes the fields `fs` out of the tokens `lexs`, whatever follows. -/
def Walks (lexs : List Lexeme) (fs : List Field) : Prop :=
  ∀ rest g, secondPass (lexs ++ rest) g = secondPass rest (gatherFields g fs)

variable {f₁ f₂ : List Field}

/-- Two walks, one after the other. -/
theorem Walks.append (h₁ : Walks l₁ f₁) (h₂ : Walks l₂ f₂) : Walks (l₁ ++ l₂) (f₁ ++ f₂) := by
  intro rest g
  rw [List.append_assoc, h₁, h₂, gatherFields, gatherFields, gatherFields, List.foldl_append]

/-- A walk over nothing. -/
theorem walks_nil : Walks [] [] :=
  fun _ _ => rfl

/-- A token that is no string, or no known name, is passed over. -/
theorem walks_pass {t : Lexeme} (ht : t.type = .string → keyOfName t.text = none) :
    Walks [t] [] := by
  intro rest g
  cases rest with
  | nil => rfl
  | cons val rest =>
      rw [List.singleton_append, secondPass]
      split_ifs with htype
      · rfl
      · rw [packetKey_eq, ht (not_not.mp htype)]
        rfl

/-- A known name takes the token behind it as its value, and the walk goes on behind that
token, which may be inside the value. -/
theorem walks_known {name : Bytes} {key : PacketKey} (hkey : keyOfName name = some key)
    (val : Lexeme) : Walks [⟨.string, name⟩, val] [(key, val)] := by
  intro rest g
  rw [List.cons_append, List.singleton_append, secondPass, if_neg (by simp), packetKey_eq, hkey]
  rfl

/-- A value that is no name is passed over. -/
theorem walks_value_lexeme {v : JsonValue} (h : ¬ v.IsName) : Walks [v.lexeme] [] :=
  walks_pass fun htype => not_not.mp fun hkey => h ⟨htype, hkey⟩

mutual

/-- The fields inside a value. -/
theorem walks_value (v : JsonValue) (h : v.NoStray) : Walks v.inner v.fields := by
  cases v with
  | str s => exact walks_nil
  | word w => exact walks_nil
  | array es => exact walks_elems es h
  | object ms => exact walks_members ms h

/-- The fields of elements. -/
theorem walks_elems (es : JsonElems) (h : es.NoStray) : Walks es.lexemes es.fields := by
  cases es with
  | nil ws => exact walks_nil
  | cons before value after rest =>
      obtain ⟨hname, hvalue, hrest⟩ := h
      exact ((walks_value_lexeme hname).append (walks_value value hvalue)).append
        (walks_elems rest hrest)

/-- The fields of members. -/
theorem walks_members (ms : JsonMembers) (h : ms.NoStray) : Walks ms.lexemes ms.fields := by
  cases ms with
  | nil ws => exact walks_nil
  | cons wsName name wsColon wsValue value wsEnd rest =>
      obtain ⟨hname, hvalue, hrest⟩ := h
      have hinner := (walks_value value hvalue).append (walks_members rest hrest)
      rw [JsonMembers.fields]
      cases hkey : keyOfName (strBytes name) with
      | some key => exact (walks_known hkey value.lexeme).append hinner
      | none =>
          have hpass := walks_pass (t := ⟨.string, strBytes name⟩) fun _ => hkey
          exact hpass.append ((walks_value_lexeme (hname hkey)).append hinner)

end

/-! ### What a document does -/

/-- The command of a field, if it is one. -/
def fieldCall (f : Field) : List BizCall :=
  match f.1 with
  | .control c => ((tokenToInt f.2).map (.set c)).toList
  | _ => []

/-- The text of the last field with the key, empty if there is none. -/
def lastText (key : PacketKey) (fs : List Field) : Bytes :=
  (Runs.latest (fun f : Field => if f.1 = key then some f.2.text else none) fs).getD []

/-- Some field with the key has a text. -/
def HasText (key : PacketKey) (fs : List Field) : Prop :=
  ∃ f ∈ fs, f.1 = key ∧ f.2.text ≠ []

instance (key : PacketKey) (fs : List Field) : Decidable (HasText key fs) :=
  inferInstanceAs (Decidable (∃ f ∈ fs, _ ∧ _))

/-- **What the fields of a document do**: the commands in order, and then one credential if
some field names a network. Its strings are those of the last fields. -/
def fieldCalls (fs : List Field) : List BizCall :=
  fs.flatMap fieldCall ++
    if HasText .ssid fs then
      [.applyWifiCredentials (mkCred ((lastText .ssid fs).take wifiSsidMaxLen)
        ((lastText .pass fs).take wifiPassMaxLen))]
    else []

/-- The last field with the key decides. -/
theorem lastText_concat (key : PacketKey) (fs : List Field) (f : Field) :
    lastText key (fs ++ [f]) = if f.1 = key then f.2.text else lastText key fs := by
  rw [lastText, lastText, Runs.latest_concat]
  split_ifs <;> rfl

/-- One field more may have a text. -/
theorem hasText_concat (key : PacketKey) (fs : List Field) (f : Field) :
    HasText key (fs ++ [f]) ↔ HasText key fs ∨ f.1 = key ∧ f.2.text ≠ [] := by
  simp [HasText, or_and_right, exists_or]

/-- Without a text for the key the last one is empty. -/
theorem lastText_of_not_hasText {key : PacketKey} {fs : List Field} (h : ¬ HasText key fs) :
    lastText key fs = [] := by
  induction fs using List.reverseRecOn with
  | nil => rfl
  | append_singleton fs f ih =>
      rw [hasText_concat, not_or, not_and, not_not] at h
      rw [lastText_concat]
      split_ifs with hkey
      · exact h.2 hkey
      · exact ih h.1

/-- A buffer and its flag hold the last text for the key, cut to what fits. -/
def HoldsLast {k : ℕ} (found : Vector UInt8 (k + 1)) (got : Bool) (key : PacketKey)
    (fs : List Field) : Prop :=
  cstr found = (lastText key fs).take k ∧ (got = true ↔ HasText key fs)

/-- A field for another key does not matter to a buffer. -/
theorem HoldsLast.of_ne {k : ℕ} {found : Vector UInt8 (k + 1)} {got : Bool} {key : PacketKey}
    {fs : List Field} (h : HoldsLast found got key fs) (other : PacketKey) (hne : other ≠ key)
    (val : Lexeme) : HoldsLast found got key (fs ++ [(other, val)]) := by
  rw [HoldsLast, lastText_concat, if_neg hne, hasText_concat]
  exact ⟨h.1, h.2.trans (by simp [hne])⟩

/-- A field for the key is copied into its buffer. -/
theorem HoldsLast.of_eq {k : ℕ} (hk : 0 < k) {found : Vector UInt8 (k + 1)} {got : Bool}
    {key : PacketKey} {fs : List Field} {val : Lexeme} (h : HoldsLast found got key fs)
    (h0 : 0 ∉ val.text) :
    HoldsLast (tokenToCstr val found)
      (if (tokenToCstr val found).get ⟨0, Nat.succ_pos k⟩ ≠ 0 then true else got) key
      (fs ++ [(key, val)]) := by
  rw [HoldsLast, lastText_concat, if_pos rfl, hasText_concat]
  refine ⟨cstr_tokenToCstr (Nat.succ_pos k) h0 found, ?_⟩
  have hbyte : (tokenToCstr val found).get ⟨0, Nat.succ_pos k⟩ ≠ 0 ↔ val.text ≠ [] :=
    tokenToCstr_zero_ne_iff hk h0 found
  split_ifs with hne
  · exact ⟨fun _ => Or.inr ⟨rfl, hbyte.mp hne⟩, fun _ => rfl⟩
  · rw [h.2]
    exact ⟨Or.inl, fun h' => h'.resolve_right fun hc => hne (hbyte.mpr hc.2)⟩

/-- What the second pass has gathered after some fields. -/
structure GatheredFields (g : Gather) (fs : List Field) : Prop where
  calls : g.calls = fs.flatMap fieldCall
  ssid : HoldsLast g.foundSsid g.gotSsid .ssid fs
  pass : HoldsLast g.foundPass g.gotPass .pass fs

/-- Nothing has been gathered from no fields. -/
theorem gatheredFields_nil : GatheredFields {} [] :=
  ⟨rfl, ⟨cstr_replicate_zero.trans List.take_nil.symm, by simp [HasText]⟩,
    ⟨cstr_replicate_zero.trans List.take_nil.symm, by simp [HasText]⟩⟩

/-- **One field more.** -/
theorem GatheredFields.concat {g : Gather} {fs : List Field} {key : PacketKey} {val : Lexeme}
    (h : GatheredFields g fs) (h0 : 0 ∉ val.text) :
    GatheredFields (gatherValue g key val) (fs ++ [(key, val)]) := by
  have hcalls : (fs ++ [(key, val)]).flatMap fieldCall = g.calls ++ fieldCall (key, val) := by
    rw [h.calls, List.flatMap_append, List.flatMap_singleton]
  cases key with
  | ssid =>
      have hssid := HoldsLast.of_eq (k := wifiSsidMaxLen) (by decide) h.ssid h0
      have hpass := h.pass.of_ne .ssid (by simp) val
      rw [fieldCall, List.append_nil] at hcalls
      constructor <;> dsimp only [gatherValue]
      · exact hcalls.symm
      · exact hssid
      · exact hpass
  | pass =>
      have hpass := HoldsLast.of_eq (k := wifiPassMaxLen) (by decide) h.pass h0
      have hssid := h.ssid.of_ne .pass (by simp) val
      rw [fieldCall, List.append_nil] at hcalls
      constructor <;> dsimp only [gatherValue]
      · exact hcalls.symm
      · exact hssid
      · exact hpass
  | control c =>
      have hssid := h.ssid.of_ne (.control c) (by simp) val
      have hpass := h.pass.of_ne (.control c) (by simp) val
      rw [fieldCall] at hcalls
      dsimp only at hcalls
      rw [gatherValue]
      cases hint : tokenToInt val with
      | none =>
          rw [hint, Option.map_none, Option.toList_none, List.append_nil] at hcalls
          exact ⟨hcalls.symm, hssid, hpass⟩
      | some v =>
          rw [hint] at hcalls
          exact ⟨hcalls.symm, hssid, hpass⟩
  | device | time =>
      rw [fieldCall, List.append_nil] at hcalls
      exact ⟨hcalls.symm, h.ssid.of_ne _ (by simp) val, h.pass.of_ne _ (by simp) val⟩

/-- **All fields** are gathered, one after the other. -/
theorem gatheredFields {fs : List Field} (h0 : ∀ f ∈ fs, 0 ∉ f.2.text) :
    GatheredFields (gatherFields {} fs) fs := by
  induction fs using List.reverseRecOn with
  | nil => exact gatheredFields_nil
  | append_singleton fs f ih =>
      rw [gatherFields, List.foldl_append]
      exact (ih fun x hx => h0 x (List.mem_append_left _ hx)).concat
        (h0 f (List.mem_append_right _ List.mem_cons_self))

/-- The calls at the end of the JSON pass. -/
theorem finishJson_gathered {g : Gather} {fs : List Field} (h : GatheredFields g fs) :
    (finishJson g).1 = fieldCalls fs := by
  have hpass : (if g.gotPass then cstr g.foundPass else []) =
      (lastText .pass fs).take wifiPassMaxLen := by
    split_ifs with hgot
    · exact h.pass.1
    · rw [lastText_of_not_hasText fun htext => hgot (h.pass.2.mpr htext), List.take_nil]
  rw [finishJson, fieldCalls, ← h.calls]
  by_cases hgot : g.gotSsid = true
  · rw [if_pos hgot, if_pos (h.ssid.2.mp hgot), jsonCred_eq_mkCred, h.ssid.1, hpass,
      List.take_take, List.take_take, Nat.min_self, Nat.min_self]
  · rw [if_neg hgot, if_neg fun htext => hgot (h.ssid.2.mpr htext), List.append_nil]

/-! ### Texts without NUL -/

/-- A string has no NUL. -/
theorem zero_notMem_strBytes (s : JsonStr) : 0 ∉ strBytes s := by
  intro h
  obtain ⟨c, -, hc⟩ := List.mem_flatMap.mp h
  have hhex : ∀ d : {c : UInt8 // isHex c = true}, (0 : UInt8) ≠ d.val := by
    rintro ⟨d, hd⟩ rfl
    exact absurd hd (by decide)
  cases c with
  | plain c => exact c.2.2.2 (List.mem_singleton.mp hc).symm
  | escape c =>
      have hne : (0 : UInt8) ≠ c.val := by
        obtain ⟨c, hesc⟩ := c
        rintro rfl
        exact absurd hesc (by decide)
      simp [StrChar.bytes, hne] at hc
  | unicode d₁ d₂ d₃ d₄ => simp [StrChar.bytes, hhex] at hc

/-- Neither has whitespace. -/
theorem zero_notMem_ws (w : Ws) : 0 ∉ w.val := by
  intro h
  rcases w.2 0 h with h | h | h | h <;> exact absurd h (by decide)

mutual

/-- Neither has a value. -/
theorem zero_notMem_value (v : JsonValue) : 0 ∉ v.bytes := by
  cases v with
  | str s => simp [JsonValue.bytes, zero_notMem_strBytes s]
  | word w => exact fun h => absurd (w.printable 0 h).2.1 (by decide)
  | array es => simp [JsonValue.bytes, zero_notMem_elems es true]
  | object ms => simp [JsonValue.bytes, zero_notMem_members ms true]

/-- Neither have elements. -/
theorem zero_notMem_elems (es : JsonElems) (first : Bool) : 0 ∉ es.bytes first := by
  cases es with
  | nil ws => exact zero_notMem_ws ws
  | cons before value after rest =>
      have hcomma : 0 ∉ comma first := by cases first <;> decide
      simp [JsonElems.bytes, hcomma, zero_notMem_ws, zero_notMem_value value,
        zero_notMem_elems rest false]

/-- Neither have members. -/
theorem zero_notMem_members (ms : JsonMembers) (first : Bool) : 0 ∉ ms.bytes first := by
  cases ms with
  | nil ws => exact zero_notMem_ws ws
  | cons wsName name wsColon wsValue value wsEnd rest =>
      have hcomma : 0 ∉ comma first := by cases first <;> decide
      simp [JsonMembers.bytes, hcomma, zero_notMem_ws, zero_notMem_strBytes,
        zero_notMem_value value, zero_notMem_members rest false]

end

/-- The token of a value has no NUL. -/
theorem zero_notMem_lexeme (v : JsonValue) : 0 ∉ v.lexeme.text := by
  cases v with
  | str s => exact zero_notMem_strBytes s
  | word w => exact zero_notMem_value (.word w)
  | array es => exact zero_notMem_value (.array es)
  | object ms => exact zero_notMem_value (.object ms)

mutual

/-- The values of fields have no NUL. -/
theorem zero_notMem_fields (v : JsonValue) : ∀ f ∈ v.fields, 0 ∉ f.2.text := by
  cases v with
  | str s => exact fun f hf => absurd hf List.not_mem_nil
  | word w => exact fun f hf => absurd hf List.not_mem_nil
  | array es => exact zero_notMem_fields_elems es
  | object ms => exact zero_notMem_fields_members ms

/-- Neither have those of the fields in elements. -/
theorem zero_notMem_fields_elems (es : JsonElems) : ∀ f ∈ es.fields, 0 ∉ f.2.text := by
  cases es with
  | nil ws => exact fun f hf => absurd hf List.not_mem_nil
  | cons before value after rest =>
      intro f hf
      rcases List.mem_append.mp hf with hf | hf
      · exact zero_notMem_fields value f hf
      · exact zero_notMem_fields_elems rest f hf

/-- Neither have those of the fields in members. -/
theorem zero_notMem_fields_members (ms : JsonMembers) : ∀ f ∈ ms.fields, 0 ∉ f.2.text := by
  cases ms with
  | nil ws => exact fun f hf => absurd hf List.not_mem_nil
  | cons wsName name wsColon wsValue value wsEnd rest =>
      intro f hf
      rcases List.mem_append.mp hf with hf | hf
      · obtain ⟨key, -, rfl⟩ := Option.map_eq_some_iff.mp (Option.mem_toList.mp hf)
        exact zero_notMem_lexeme value
      · rcases List.mem_append.mp hf with hf | hf
        · exact zero_notMem_fields value f hf
        · exact zero_notMem_fields_members rest f hf

end

/-- **A packet acts as the flat list of its fields.** For every document that is an array or
an object, fits the pool, and has no string that would be taken for a key, the JSON pass
makes the calls of its fields, however deep they stand. -/
theorem jsonPass_document {d : JsonDocument} (hd : d.value.isContainer = true)
    (hroom : d.lexemes.length ≤ jsmnTokenMax) (hstray : d.value.NoStray) :
    (jsonPass d.bytes).1 = fieldCalls d.value.fields := by
  have htop : ¬ d.value.IsName := by
    rintro ⟨htype, -⟩
    cases hv : d.value <;> rw [hv] at htype hd
    · exact absurd hd Bool.false_ne_true
    · exact absurd hd Bool.false_ne_true
    · exact absurd htype (by simp [JsonValue.lexeme])
    · exact absurd htype (by simp [JsonValue.lexeme])
  have hwalk := ((walks_value_lexeme htop).append (walks_value d.value hstray)) [] {}
  rw [List.append_nil, List.singleton_append, List.nil_append] at hwalk
  rw [jsonPass_bytes hd, if_pos hroom, JsonDocument.lexemes, hwalk]
  exact finishJson_gathered (gatheredFields (zero_notMem_fields d.value))

/-- The string whose characters stand for themselves. -/
def jsonStrOf (s : PlainStr) : JsonStr :=
  s.val.attach.map fun c => .plain ⟨c.val, s.2 c.val c.property⟩

/-- The object `{"speed":d}` for a word of one byte. -/
def speedObject (d : UInt8) (hd : isPrimitiveStart d = true)
    (hprint : ∀ c ∈ [d], isDelim c = false ∧ 32 ≤ c ∧ c < 127) : JsonValue :=
  .object (.cons noWs (jsonStrOf speedName) noWs noWs (.word ⟨d, [], hd, hprint⟩) noWs (.nil noWs))

/-- The packet `{"fan":{"speed":7},"all":[{"speed":9}]}`. -/
def nestedSample : JsonDocument where
  lead := noWs
  trail := noWs
  value := .object
    (.cons noWs (jsonStrOf ⟨ascii "fan", by decide⟩) noWs noWs
      (speedObject 55 (by decide) (by decide)) noWs
    (.cons noWs (jsonStrOf ⟨ascii "all", by decide⟩) noWs noWs
      (.array (.cons noWs (speedObject 57 (by decide) (by decide)) noWs (.nil noWs))) noWs
    (.nil noWs)))

/-- Both speeds are set, in the order in which they stand. -/
theorem jsonPass_nestedSample :
    (jsonPass nestedSample.bytes).1 = [.set .rpm 7, .set .rpm 9] := by
  have hstray : nestedSample.value.NoStray := by
    simp only [nestedSample, speedObject, JsonValue.NoStray, JsonMembers.NoStray,
      JsonElems.NoStray]
    decide +kernel
  exact (jsonPass_document rfl (by decide +kernel) hstray).trans (by decide +kernel)

end AirShifter
