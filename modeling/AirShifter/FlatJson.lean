import AirShifter.Parser

/-!
# Flat JSON Objects

The JSON texts the packet format is about: one object whose values are strings without
escapes or decimal integers. `FlatObject` is the syntax of such a text, with all the
whitespace JSON allows; the conditions on its strings are carried by their types.

The tokenizer is related to this syntax piece by piece. `Reads` says that a piece of text
becomes given lexemes whatever stands before and behind it; pieces compose.

## Main results

* `Reads.append`: reading two pieces one after the other.
* `jsmnParse_flat`: the tokens of a flat object are the object itself and then the name
  and the value of each member.
* `jsonPass_flat`: what the JSON pass does with a flat object.
* `FlatObject.prefix_cases`, `jsonPass_cut`: a prefix of a flat object is a flat object, or
  makes no call.
-/

open CBytes

namespace AirShifter

/-! ### Syntax -/

/-- JSON whitespace between tokens. -/
abbrev Ws := {w : Bytes // ∀ c ∈ w, isWs c}

/-- No whitespace. -/
def noWs : Ws := ⟨[], by simp⟩

/-- Whitespace has no letters. -/
theorem gap_ws (ws : Ws) : Gap ws.val := by
  intro c hc
  rcases ws.2 c hc with rfl | rfl | rfl | rfl <;> rfl

/-- A JSON string without quote, backslash and NUL. -/
abbrev PlainStr := {b : Bytes // ∀ c ∈ b, c ≠ 34 ∧ c ≠ 92 ∧ c ≠ 0}

/-- A value of a flat object. -/
inductive FlatValue
  | str (s : PlainStr)
  | int (n : IntLit)

/-- The text of a value as it stands in the object. -/
def FlatValue.bytes : FlatValue → Bytes
  | .str s => 34 :: (s.val ++ [34])
  | .int n => n.bytes

/-- The token a value becomes. -/
def FlatValue.lexeme : FlatValue → Lexeme
  | .str s => ⟨.string, s.val⟩
  | .int n => ⟨.primitive, n.bytes⟩

/-- A member of a flat object, with the whitespace before its name, around the colon, and
behind its value. -/
structure FlatMember where
  wsName : Ws
  name : PlainStr
  wsColon : Ws
  wsValue : Ws
  value : FlatValue
  wsEnd : Ws

/-- A member without whitespace. -/
def FlatMember.compact (name : PlainStr) (value : FlatValue) : FlatMember :=
  ⟨noWs, name, noWs, noWs, value, noWs⟩

/-- The text of a member. -/
def FlatMember.bytes (m : FlatMember) : Bytes :=
  m.wsName.val ++ (34 :: (m.name.val ++ [34]) ++ (m.wsColon.val ++ ([58] ++
    (m.wsValue.val ++ (m.value.bytes ++ m.wsEnd.val)))))

/-- The tokens of a member. -/
def FlatMember.lexemes (m : FlatMember) : List Lexeme :=
  [⟨.string, m.name.val⟩, m.value.lexeme]

/-- The text of the members behind the first one. -/
def moreBytes : List FlatMember → Bytes
  | [] => []
  | m :: ms => [44] ++ (m.bytes ++ moreBytes ms)

/-- A flat object: its members, whitespace around it, and the whitespace inside an empty
one. -/
structure FlatObject where
  lead : Ws
  members : List FlatMember
  inner : Ws
  trail : Ws

/-- An object without whitespace around it. -/
def FlatObject.compact (members : List FlatMember) : FlatObject :=
  ⟨noWs, members, noWs, noWs⟩

/-- What stands between the braces. -/
def FlatObject.body (o : FlatObject) : Bytes :=
  match o.members with
  | [] => o.inner.val
  | m :: ms => m.bytes ++ moreBytes ms

/-- The text of an object from its opening brace on. -/
def FlatObject.core (o : FlatObject) : Bytes :=
  123 :: (o.body ++ 125 :: o.trail.val)

/-- The text of an object. -/
def FlatObject.bytes (o : FlatObject) : Bytes :=
  o.lead.val ++ o.core

/-- The tokens of the members. -/
def memberLexemes (ms : List FlatMember) : List Lexeme :=
  ms.flatMap FlatMember.lexemes

/-! ### Reading a piece of text -/

/-- The text ends here or goes on with a delimiter. -/
def Delimited (js : Bytes) : Prop :=
  ∀ c ∈ js.head?, isDelim c = true

/-- The tokenizer turns the piece `text` into the tokens `lexs`, if the text behind it
meets `C`, whatever stands before it. -/
def Reads (n : ℕ) (C : Bytes → Prop) (text : Bytes) (lexs : List Lexeme) : Prop :=
  ∀ pre js p, C js → p.toks.length + lexs.length ≤ n →
    ∃ p' new, p'.spans = p.spans ++ new ∧
      new.map (Span.lexeme (pre ++ (text ++ js))) = lexs ∧
      (∀ s ∈ new, s.isOpen = false) ∧
      jsmnLoop n (text ++ js) pre.length 0 p = jsmnLoop n js (pre ++ text).length 0 p'

variable {n : ℕ} {C D : Bytes → Prop} {t₁ t₂ : Bytes} {l₁ l₂ : List Lexeme}

/-- **Reading two pieces one after the other.** -/
theorem Reads.append (h₁ : Reads n C t₁ l₁) (h₂ : Reads n D t₂ l₂)
    (hC : ∀ js, D js → C (t₂ ++ js)) : Reads n D (t₁ ++ t₂) (l₁ ++ l₂) := by
  intro pre js p hjs hroom
  rw [List.length_append] at hroom
  obtain ⟨p₁, new₁, hspans₁, hlex₁, hclosed₁, hloop₁⟩ :=
    h₁ pre (t₂ ++ js) p (hC js hjs) (by omega)
  have hlen : p₁.toks.length = p.toks.length + l₁.length := by
    rw [← p₁.length_spans, hspans₁, List.length_append, p.length_spans, ← hlex₁, List.length_map]
  obtain ⟨p₂, new₂, hspans₂, hlex₂, hclosed₂, hloop₂⟩ :=
    h₂ (pre ++ t₁) js p₁ hjs (by omega)
  refine ⟨p₂, new₁ ++ new₂, ?_, ?_, ?_, ?_⟩
  · rw [hspans₂, hspans₁, List.append_assoc]
  · rw [List.map_append, List.append_assoc t₁, hlex₁, ← List.append_assoc pre, hlex₂]
  · intro s hs
    rcases List.mem_append.mp hs with hs | hs
    · exact hclosed₁ s hs
    · exact hclosed₂ s hs
  · rw [List.append_assoc, hloop₁, hloop₂, List.append_assoc]

/-- Nothing is read as no tokens. -/
theorem reads_nil : Reads n C [] [] :=
  fun pre js p _ _ => ⟨p, [], by simp, rfl, by simp, by simp⟩

/-- Whitespace is passed over. -/
theorem reads_ws (w : Ws) : Reads n C w.val [] := by
  intro pre js p _ _
  refine ⟨p, [], (List.append_nil _).symm, rfl, by simp, ?_⟩
  rw [jsmnLoop_ws n w.2, List.length_append]

/-- A colon or a comma between flat members adds no token. -/
theorem reads_separator {c : UInt8} (hc : c = 58 ∨ c = 44) : Reads n C [c] [] := by
  intro pre js p _ _
  obtain ⟨p', hspans, hloop⟩ := jsmnLoop_separator n hc js pre.length p
  refine ⟨p', [], by rw [hspans, List.append_nil], rfl, by simp, ?_⟩
  rw [List.singleton_append, hloop, List.length_append, List.length_singleton]

/-- The text of a range is what stands there. -/
theorem text_span (type : JsmnType) (a b c : Bytes) :
    Span.text (a ++ (b ++ c)) ⟨type, a.length, a.length + b.length⟩ = b := by
  have hstop : ((a.length : ℤ) + b.length - a.length).toNat = b.length := by omega
  simp only [Span.text, hstop, Int.toNat_natCast]
  rw [List.drop_left, List.take_left]

/-- A string is read as one token. -/
theorem reads_string (s : PlainStr) :
    Reads n C (34 :: (s.val ++ [34])) [⟨.string, s.val⟩] := by
  intro pre js p _ hroom
  rw [List.length_singleton] at hroom
  obtain ⟨p', hspans, hloop⟩ := jsmnLoop_string (n := n) (b := s.val)
    (fun c hc => ⟨(s.2 c hc).1, (s.2 c hc).2.1⟩) js pre.length (p := p) (by omega)
  have htext : 34 :: (s.val ++ [34]) ++ js = 34 :: (s.val ++ 34 :: js) := by simp
  refine ⟨p', _, hspans, ?_, ?_, ?_⟩
  · have hspan := text_span .string (pre ++ [34]) s.val (34 :: js)
    rw [List.append_assoc, List.length_append, List.length_singleton] at hspan
    push_cast at hspan
    rw [htext]
    exact congrArg (fun t => [(⟨.string, t⟩ : Lexeme)]) hspan
  · intro t ht
    rw [List.mem_singleton.mp ht]
    simp only [Span.isOpen, Bool.and_eq_false_iff, bne_eq_false_iff_eq, beq_eq_false_iff_ne]
    right
    omega
  · rw [htext, hloop]
    congr 1
    simp only [List.length_append, List.length_cons, List.length_nil]
    omega

/-- The bytes of a literal are no delimiters, and printable. -/
theorem printable_intLit (l : IntLit) :
    ∀ c ∈ l.bytes, isDelim c = false ∧ 32 ≤ c ∧ c < 127 := by
  have hdigit : ∀ c, isdigit c = true → isDelim c = false ∧ 32 ≤ c ∧ c < 127 := by
    intro c hc
    simp only [isdigit, Bool.and_eq_true, decide_eq_true_eq] at hc
    obtain ⟨hlo, hhi⟩ := hc
    refine ⟨?_, UInt8.le_trans (by decide) hlo, UInt8.lt_of_le_of_lt hhi (by decide)⟩
    simp only [isDelim, Bool.or_eq_false_iff, beq_eq_false_iff_ne]
    refine ⟨⟨⟨⟨⟨⟨⟨?_, ?_⟩, ?_⟩, ?_⟩, ?_⟩, ?_⟩, ?_⟩, ?_⟩ <;> rintro rfl <;>
      first | exact absurd hlo (by decide) | exact absurd hhi (by decide)
  intro c hc
  rw [IntLit.bytes, List.mem_append] at hc
  rcases hc with hc | hc
  · split_ifs at hc
    · rw [List.mem_singleton.mp hc]
      decide
    · exact absurd hc List.not_mem_nil
  · exact hdigit c (l.isdigit_of_mem c hc)

/-- A literal may start a primitive. -/
theorem printable_intLit_start (l : IntLit) :
    ∃ c t, l.bytes = c :: t ∧ isPrimitiveStart c = true := by
  obtain ⟨c, t, hct, hc⟩ := l.exists_cons
  refine ⟨c, t, hct, ?_⟩
  have hdelim := (printable_intLit l c (by rw [hct]; exact List.mem_cons_self)).1
  simp only [isPrimitiveStart, hdelim, Bool.or_false, Bool.not_eq_true', Bool.or_eq_false_iff,
    beq_eq_false_iff_ne]
  rcases hc with rfl | hc
  · decide
  · refine ⟨⟨?_, ?_⟩, ?_⟩ <;> rintro rfl <;> exact absurd hc (by decide)

/-- A literal is read as one token, if something delimits it. -/
theorem reads_int (l : IntLit) : Reads n Delimited l.bytes [⟨.primitive, l.bytes⟩] := by
  intro pre js p hjs hroom
  rw [List.length_singleton] at hroom
  obtain ⟨c, t, hct, hstart⟩ := printable_intLit_start l
  have hprint := printable_intLit l
  rw [hct] at hprint ⊢
  obtain ⟨p', hspans, hloop⟩ := jsmnLoop_primitive (n := n) (p := p) hstart hprint hjs pre.length
    (by omega)
  refine ⟨p', _, hspans, ?_, ?_, ?_⟩
  · have hspan := text_span .primitive pre (c :: t) js
    rw [List.length_cons] at hspan
    push_cast at hspan
    rw [List.map_singleton, Span.lexeme, hspan]
  · intro s hs
    rw [List.mem_singleton.mp hs]
    simp only [Span.isOpen, Bool.and_eq_false_iff, bne_eq_false_iff_eq, beq_eq_false_iff_ne]
    right
    omega
  · rw [List.cons_append, hloop, List.length_append, List.length_cons]
    rfl

/-! ### Reading members -/

/-- Whitespace in front of a delimited text delimits, too. -/
theorem delimited_ws {js : Bytes} (w : Ws) (hjs : Delimited js) : Delimited (w.val ++ js) := by
  obtain ⟨w, hw⟩ := w
  cases w with
  | nil => exact hjs
  | cons c w =>
      intro d hd
      obtain rfl : c = d := by simpa using hd
      rcases hw c List.mem_cons_self with rfl | rfl | rfl | rfl <;> rfl

/-- A value is read as its one token. -/
theorem reads_value (v : FlatValue) : Reads n Delimited v.bytes [v.lexeme] := by
  cases v with
  | str s => exact reads_string s
  | int l => exact reads_int l

/-- A member is read as two tokens. -/
theorem reads_member (m : FlatMember) : Reads n Delimited m.bytes m.lexemes := by
  have hvalue : Reads n Delimited (m.value.bytes ++ m.wsEnd.val) [m.value.lexeme] :=
    (reads_value m.value).append (reads_ws m.wsEnd) fun js hjs => delimited_ws m.wsEnd hjs
  have hcolon : Reads n Delimited (m.wsColon.val ++ ([58] ++
      (m.wsValue.val ++ (m.value.bytes ++ m.wsEnd.val)))) [m.value.lexeme] :=
    (reads_ws (C := fun _ => True) m.wsColon).append
      ((reads_separator (C := fun _ => True) (Or.inl rfl)).append
        ((reads_ws (C := fun _ => True) m.wsValue).append hvalue fun _ _ => trivial)
        fun _ _ => trivial)
      fun _ _ => trivial
  exact (reads_ws (C := fun _ => True) m.wsName).append
    ((reads_string (C := fun _ => True) m.name).append hcolon fun _ _ => trivial)
    fun _ _ => trivial

/-- More members delimit what stands in front of them. -/
theorem delimited_moreBytes {js : Bytes} (ms : List FlatMember) (hjs : Delimited js) :
    Delimited (moreBytes ms ++ js) := by
  cases ms with
  | nil => exact hjs
  | cons m ms =>
      intro d hd
      obtain rfl : 44 = d := by simpa [moreBytes] using hd
      rfl

/-- The members behind the first are read as their tokens. -/
theorem reads_moreBytes (ms : List FlatMember) :
    Reads n Delimited (moreBytes ms) (memberLexemes ms) := by
  induction ms with
  | nil => exact reads_nil
  | cons m ms ih =>
      exact (reads_separator (C := fun _ => True) (Or.inr rfl)).append
        ((reads_member m).append ih fun js hjs => delimited_moreBytes ms hjs) fun _ _ => trivial

/-- So are all the members of an object. -/
theorem reads_body (o : FlatObject) :
    Reads n Delimited o.body (memberLexemes o.members) := by
  rw [FlatObject.body]
  cases o.members with
  | nil => exact reads_ws o.inner
  | cons m ms =>
      exact (reads_member m).append (reads_moreBytes ms) fun js hjs => delimited_moreBytes ms hjs

/-! ### Flat objects -/

/-- Every member has two tokens. -/
theorem length_memberLexemes (ms : List FlatMember) :
    (memberLexemes ms).length = 2 * ms.length := by
  induction ms with
  | nil => rfl
  | cons m ms ih =>
      rw [memberLexemes, List.flatMap_cons, List.length_append]
      rw [memberLexemes] at ih
      rw [ih, List.length_cons]
      simp only [FlatMember.lexemes, List.length_cons, List.length_nil]
      omega

/-- **The tokens of a flat object** are the object and then the name and the value of each
member. -/
theorem jsmnParse_flat (o : FlatObject) (hroom : 1 + 2 * o.members.length ≤ n) :
    ∃ toks text, jsmnParse o.core n = .ok (toks.length, toks) ∧
      toks.map (fun t => t.span.lexeme o.core) = ⟨.object, text⟩ :: memberLexemes o.members := by
  obtain ⟨p₁, hspans₁, hloop₁⟩ := jsmnLoop_openBrace (n := n) (o.body ++ 125 :: o.trail.val) 0
    (p := jsmnInit) (by simp [jsmnInit]; omega)
  have hlen₁ : p₁.toks.length = 1 := by
    rw [← p₁.length_spans, hspans₁]
    rfl
  obtain ⟨p₂, new, hspans₂, hlex, hclosed, hloop₂⟩ := reads_body (n := n) o [123]
    (125 :: o.trail.val) p₁ (fun c hc => Option.some.inj hc ▸ rfl)
    (by rw [hlen₁, length_memberLexemes]; exact hroom)
  have hfirst : p₂.spans = ⟨.object, (0 : ℕ), -1⟩ :: new := by
    rw [hspans₂, hspans₁]
    rfl
  obtain ⟨p₃, hspans₃, hloop₃⟩ := jsmnLoop_closeBrace (n := n) o.trail.val
    ([123] ++ o.body).length hfirst hclosed
  have hloop : jsmnLoop n o.core 0 0 jsmnInit = .ok p₃ := by
    rw [FlatObject.core, hloop₁]
    have hws := jsmnLoop_ws n o.trail.2 [] (([123] ++ o.body).length + 1) p₃
    rw [List.append_nil] at hws
    exact hloop₂.trans (hloop₃.trans hws)
  have hopen : p₃.toks.any JsmnTok.isOpen = false := by
    rw [List.any_eq_false]
    intro t ht
    have hmem : t.span ∈ p₃.spans := List.mem_map_of_mem ht
    rw [hspans₃] at hmem
    rw [isOpen_eq, Bool.not_eq_true]
    rcases List.mem_cons.mp hmem with hfst | hmem
    · rw [hfst]
      simp only [Span.isOpen, Bool.and_eq_false_iff, bne_eq_false_iff_eq, beq_eq_false_iff_ne]
      right
      omega
    · exact hclosed _ hmem
  have hparse : jsmnParse o.core n = .ok (p₃.count, p₃.toks) := by
    rw [jsmnParse, hloop]
    dsimp only
    rw [hopen, if_neg Bool.false_ne_true]
  have hcount := count_jsmnParse hparse
  rw [hcount] at hparse
  refine ⟨p₃.toks, Span.text o.core ⟨.object, (0 : ℕ), ([123] ++ o.body).length + 1⟩, hparse, ?_⟩
  have hmap : p₃.toks.map (fun t => t.span.lexeme o.core) =
      p₃.spans.map (Span.lexeme o.core) := by
    rw [JsmnParser.spans, List.map_map]
    rfl
  rw [hmap, hspans₃, List.map_cons]
  congr 1

/-- The parser starts at the opening brace. -/
theorem dropWhile_bytes (o : FlatObject) : o.bytes.dropWhile isspace = o.core := by
  have hlead : ∀ c ∈ o.lead.val, isspace c = true := by
    intro c hc
    rcases o.lead.2 c hc with rfl | rfl | rfl | rfl <;> rfl
  rw [FlatObject.bytes, List.dropWhile_append_of_pos hlead]
  exact List.dropWhile_cons_of_neg (by decide)

/-- **The JSON pass over a flat object** walks the names and values of its members. -/
theorem jsonPass_flat (o : FlatObject) (hroom : 1 + 2 * o.members.length ≤ jsmnTokenMax) :
    jsonPass o.bytes = finishJson (secondPass (memberLexemes o.members) {}) := by
  obtain ⟨toks, text, hparse, hlex⟩ := jsmnParse_flat o hroom
  have hne : toks.length ≠ 0 := by
    rw [← List.length_map (fun t : JsmnTok => t.span.lexeme o.core), hlex]
    exact Nat.succ_ne_zero _
  have hwalk : ∀ g, secondPass (⟨.object, text⟩ :: memberLexemes o.members) g =
      secondPass (memberLexemes o.members) g := by
    intro g
    cases memberLexemes o.members with
    | nil => rfl
    | cons val rest => rw [secondPass, if_pos (by simp)]
  have hbrace : o.core.head? = some 123 ∨ o.core.head? = some 91 := Or.inl rfl
  rw [jsonPass, dropWhile_bytes, if_pos hbrace, parserHandlePacketJson, hparse]
  dsimp only
  rw [if_neg hne, List.take_length, hlex, hwalk]

/-! ### Objects that are cut off -/

/-- A prefix of two pieces is a prefix of the first one, or it holds the first one and a
prefix of the second. -/
theorem prefix_append_cases {u a b : Bytes} (h : u <+: a ++ b) :
    u <+: a ∨ ∃ v, v <+: b ∧ u = a ++ v := by
  rcases List.prefix_or_prefix_of_prefix h (List.prefix_append a b) with hu | ⟨v, rfl⟩
  · exact Or.inl hu
  · exact Or.inr ⟨v, (List.prefix_append_right_inj a).mp h, rfl⟩

/-- Wherever the piece `text` is cut off, the tokenizer stops with an error or keeps the
tokens it has. -/
def ReadsCut (n : ℕ) (text : Bytes) (lexs : List Lexeme) : Prop :=
  ∀ u pos p, u <+: text → p.toks.length + lexs.length ≤ n →
    (∃ e, jsmnLoop n u pos 0 p = .error e) ∨
      ∃ p', jsmnLoop n u pos 0 p = .ok p' ∧ p.spans <+: p'.spans

/-- Cutting off the second piece behind the first one. -/
theorem ReadsCut.append (h₁ : Reads n C t₁ l₁) (c₁ : ReadsCut n t₁ l₁) (c₂ : ReadsCut n t₂ l₂)
    (hC : ∀ u, u <+: t₂ → C u) : ReadsCut n (t₁ ++ t₂) (l₁ ++ l₂) := by
  intro u pos p hu hroom
  rw [List.length_append] at hroom
  rcases prefix_append_cases hu with hu | ⟨v, hv, rfl⟩
  · exact c₁ u pos p hu (by omega)
  · obtain ⟨p₁, new, hspans, hlex, -, hloop⟩ :=
      h₁ (List.replicate pos 0) v p (hC v hv) (by omega)
    have hlen : p₁.toks.length = p.toks.length + l₁.length := by
      rw [← p₁.length_spans, hspans, List.length_append, p.length_spans, ← hlex, List.length_map]
    rw [List.length_replicate] at hloop
    rw [hloop]
    rcases c₂ v _ p₁ hv (by omega) with herr | ⟨p₂, hok, hpre⟩
    · exact Or.inl herr
    · exact Or.inr ⟨p₂, hok, (List.prefix_append _ _).trans (hspans ▸ hpre)⟩

/-- Nothing can be cut out of nothing. -/
theorem readsCut_nil : ReadsCut n [] [] := by
  intro u pos p hu _
  rw [List.prefix_nil.mp hu]
  exact Or.inr ⟨p, rfl, List.prefix_refl _⟩

/-- Whitespace that is cut off is whitespace. -/
theorem readsCut_ws (w : Ws) : ReadsCut n w.val [] := by
  intro u pos p hu _
  have hws := jsmnLoop_ws n (fun c hc => w.2 c (hu.subset hc)) [] pos p
  rw [List.append_nil] at hws
  exact Or.inr ⟨p, hws, List.prefix_refl _⟩

/-- A separator is there or not. -/
theorem readsCut_separator {c : UInt8} (hc : c = 58 ∨ c = 44) : ReadsCut n [c] [] := by
  intro u pos p hu _
  rcases List.prefix_cons_iff.mp hu with rfl | ⟨v, rfl, hv⟩
  · exact Or.inr ⟨p, rfl, List.prefix_refl _⟩
  · rw [List.prefix_nil.mp hv]
    obtain ⟨p', hspans, hloop⟩ := jsmnLoop_separator n hc [] pos p
    exact Or.inr ⟨p', hloop, by rw [hspans]⟩

/-- A string that is cut off is an error. -/
theorem readsCut_string (s : PlainStr) :
    ReadsCut n (34 :: (s.val ++ [34])) [⟨.string, s.val⟩] := by
  intro u pos p hu hroom
  rw [List.length_singleton] at hroom
  have hplain : PlainText s.val := fun c hc => ⟨(s.2 c hc).1, (s.2 c hc).2.1⟩
  rcases List.prefix_cons_iff.mp hu with rfl | ⟨v, rfl, hv⟩
  · exact Or.inr ⟨p, rfl, List.prefix_refl _⟩
  · rcases List.prefix_concat_iff.mp hv with rfl | hv
    · obtain ⟨p', hspans, hloop⟩ := jsmnLoop_string hplain [] pos (p := p) (n := n) (by omega)
      exact Or.inr ⟨p', hloop, hspans ▸ List.prefix_append _ _⟩
    · exact Or.inl ⟨_, jsmnLoop_string_cut n (fun c hc => hplain c (hv.subset hc)) pos p⟩

/-- A literal that is cut off is a shorter literal, or an error. -/
theorem readsCut_int (l : IntLit) : ReadsCut n l.bytes [⟨.primitive, l.bytes⟩] := by
  intro u pos p hu hroom
  rw [List.length_singleton] at hroom
  cases u with
  | nil => exact Or.inr ⟨p, rfl, List.prefix_refl _⟩
  | cons c u =>
      obtain ⟨d, t, hdt, hstart⟩ := printable_intLit_start l
      obtain rfl : c = d := by
        rw [hdt] at hu
        exact (List.cons_prefix_cons.mp hu).1
      have hnil : ∀ d ∈ ([] : Bytes).head?, isDelim d = true := by simp
      obtain ⟨p', hspans, hloop⟩ := jsmnLoop_primitive (n := n) (p := p) hstart
        (fun d hd => printable_intLit l d (hu.subset hd)) hnil pos (by omega)
      rw [List.append_nil] at hloop
      exact Or.inr ⟨p', hloop, hspans ▸ List.prefix_append _ _⟩

/-- A value can be cut off anywhere. -/
theorem readsCut_value (v : FlatValue) : ReadsCut n v.bytes [v.lexeme] := by
  cases v with
  | str s => exact readsCut_string s
  | int l => exact readsCut_int l

/-- The front of some whitespace delimits. -/
theorem delimited_of_prefix_ws {u : Bytes} {w : Ws} (h : u <+: w.val) : Delimited u := by
  have hnil : Delimited [] := by simp [Delimited]
  have hd := delimited_ws ⟨u, fun c hc => w.2 c (h.subset hc)⟩ hnil
  rwa [List.append_nil] at hd

/-- So can a member. -/
theorem readsCut_member (m : FlatMember) : ReadsCut n m.bytes m.lexemes := by
  have hvalue : ReadsCut n (m.value.bytes ++ m.wsEnd.val) [m.value.lexeme] :=
    ReadsCut.append (reads_value m.value) (readsCut_value m.value) (readsCut_ws m.wsEnd)
      fun u hu => delimited_of_prefix_ws hu
  have hcolon : ReadsCut n (m.wsColon.val ++ ([58] ++
      (m.wsValue.val ++ (m.value.bytes ++ m.wsEnd.val)))) [m.value.lexeme] :=
    ReadsCut.append (reads_ws (C := fun _ => True) m.wsColon) (readsCut_ws m.wsColon)
      (ReadsCut.append (reads_separator (C := fun _ => True) (Or.inl rfl))
        (readsCut_separator (Or.inl rfl))
        (ReadsCut.append (reads_ws (C := fun _ => True) m.wsValue) (readsCut_ws m.wsValue) hvalue
          fun _ _ => trivial)
        fun _ _ => trivial)
      fun _ _ => trivial
  exact ReadsCut.append (reads_ws (C := fun _ => True) m.wsName) (readsCut_ws m.wsName)
    (ReadsCut.append (reads_string (C := fun _ => True) m.name) (readsCut_string m.name) hcolon
      fun _ _ => trivial)
    fun _ _ => trivial

/-- The front of more members delimits. -/
theorem delimited_of_prefix_moreBytes {u : Bytes} {ms : List FlatMember}
    (h : u <+: moreBytes ms) : Delimited u := by
  intro c hc
  cases u with
  | nil => exact absurd hc (by simp)
  | cons d u =>
      cases ms with
      | nil => exact absurd h (by simp [moreBytes])
      | cons m ms =>
          obtain rfl : d = c := by simpa using hc
          obtain rfl : d = 44 := (List.cons_prefix_cons.mp h).1
          rfl

/-- So can more members. -/
theorem readsCut_moreBytes (ms : List FlatMember) :
    ReadsCut n (moreBytes ms) (memberLexemes ms) := by
  induction ms with
  | nil => exact readsCut_nil
  | cons m ms ih =>
      have hmember : ReadsCut n (m.bytes ++ moreBytes ms) (m.lexemes ++ memberLexemes ms) :=
        ReadsCut.append (reads_member m) (readsCut_member m) ih
          fun _ hu => delimited_of_prefix_moreBytes hu
      have hcomma : ReadsCut n ([44] ++ (m.bytes ++ moreBytes ms))
          ([] ++ (m.lexemes ++ memberLexemes ms)) :=
        ReadsCut.append (reads_separator (C := fun _ => True) (Or.inr rfl))
          (readsCut_separator (Or.inr rfl)) hmember fun _ _ => trivial
      exact hcomma

/-- So can all the members of an object. -/
theorem readsCut_body (o : FlatObject) : ReadsCut n o.body (memberLexemes o.members) := by
  rw [FlatObject.body]
  cases o.members with
  | nil => exact readsCut_ws o.inner
  | cons m ms =>
      exact ReadsCut.append (reads_member m) (readsCut_member m) (readsCut_moreBytes ms)
        fun _ hu => delimited_of_prefix_moreBytes hu

/-- **An object that is cut off** before its closing brace is refused by the tokenizer,
wherever it is cut. -/
theorem jsmnParse_cut (o : FlatObject) (hroom : 1 + 2 * o.members.length ≤ n) {u : Bytes}
    (hu : u <+: o.body) : ∃ e, jsmnParse (123 :: u) n = .error e := by
  obtain ⟨p₁, hspans₁, hloop₁⟩ := jsmnLoop_openBrace (n := n) u 0 (p := jsmnInit)
    (by simp [jsmnInit]; omega)
  have hlen₁ : p₁.toks.length = 1 := by
    rw [← p₁.length_spans, hspans₁]
    rfl
  rw [jsmnParse, hloop₁]
  rcases readsCut_body (n := n) o u (0 + 1) p₁ hu
    (by rw [hlen₁, length_memberLexemes]; exact hroom) with ⟨e, herr⟩ | ⟨p₂, hok, hpre⟩
  · rw [herr]
    exact ⟨e, rfl⟩
  · have hopen : p₂.toks.any JsmnTok.isOpen = true := by
      have hmem : (⟨.object, (0 : ℕ), -1⟩ : Span) ∈ p₂.spans := by
        refine hpre.subset ?_
        rw [hspans₁]
        exact List.mem_append_right _ List.mem_cons_self
      obtain ⟨t, ht, hspan⟩ := List.mem_map.mp hmem
      rw [List.any_eq_true]
      exact ⟨t, ht, by rw [isOpen_eq, hspan]; rfl⟩
    rw [hok]
    dsimp only
    rw [if_pos hopen]
    exact ⟨_, rfl⟩

/-- A prefix of an object is cut off before the closing brace, or it is an object itself,
with less whitespace behind it. -/
theorem FlatObject.prefix_cases (o : FlatObject) {t : Bytes} (ht : t <+: o.bytes) :
    t <+: o.lead.val ++ 123 :: o.body ∨
      ∃ trail : Ws, t = ({ o with trail := trail } : FlatObject).bytes := by
  have hbytes : ∀ u : Bytes, o.lead.val ++ 123 :: (o.body ++ 125 :: u) =
      (o.lead.val ++ 123 :: o.body) ++ 125 :: u := by simp
  rw [FlatObject.bytes, FlatObject.core, hbytes] at ht
  rcases prefix_append_cases ht with ht | ⟨v, hv, rfl⟩
  · exact Or.inl ht
  · rcases List.prefix_cons_iff.mp hv with rfl | ⟨u, rfl, hu⟩
    · exact Or.inl (by rw [List.append_nil])
    · exact Or.inr ⟨⟨u, fun c hc => o.trail.2 c (hu.subset hc)⟩, (hbytes u).symm⟩

/-- The JSON pass makes no call for a text that is cut off before the closing brace. -/
theorem jsonPass_cut (o : FlatObject) (hroom : 1 + 2 * o.members.length ≤ jsmnTokenMax)
    {t : Bytes} (ht : t <+: o.lead.val ++ 123 :: o.body) : jsonPass t = ([], false) := by
  have hspace : ∀ c ∈ o.lead.val, isspace c = true := by
    intro c hc
    rcases o.lead.2 c hc with rfl | rfl | rfl | rfl <;> rfl
  rcases prefix_append_cases ht with ht | ⟨v, hv, rfl⟩
  · have hnil : t.dropWhile isspace = [] :=
      List.dropWhile_eq_nil_iff.mpr fun c hc => hspace c (ht.subset hc)
    rw [jsonPass, hnil]
    rfl
  · rw [jsonPass, List.dropWhile_append_of_pos hspace]
    rcases List.prefix_cons_iff.mp hv with rfl | ⟨u, rfl, hu⟩
    · rfl
    · obtain ⟨e, he⟩ := jsmnParse_cut o hroom hu
      have hdrop : (123 :: u).dropWhile isspace = 123 :: u :=
        List.dropWhile_cons_of_neg (by decide)
      have hbrace : (123 :: u).head? = some 123 ∨ (123 :: u).head? = some 91 := Or.inl rfl
      rw [hdrop, if_pos hbrace, parserHandlePacketJson, he]

end AirShifter
