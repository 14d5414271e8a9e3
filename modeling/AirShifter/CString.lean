import AirShifter.CBytes

/-!
# The String Functions of a C Program

The parts of `ctype.h`, `string.h` and `stdlib.h` that text parsers lean on, over byte
strings and byte buffers: character classes in the C locale, substring search, bounded
copies, and the conversion of decimal digits on a machine whose `long` has 32 bits.

## Main results

* `isSome_strstr_iff`: the search succeeds exactly when the key occurs.
* `strstr_append_cons`: a byte that does not occur in the key splits the search.
* `Word.strstr_gap`, `Word.strstr_append`: where a key made of letters is looked for.
* `cstr_strncpy`, `toList_strncpy_eq_iff`, `copyLoop_eq`: what the bounded copies leave in a
  buffer.
* `FirstOccurrence.strstr_eq`, `isLongestPrefix_iff`: the search and the scans by what they
  find.
* `strtol10_append`: a decimal literal in front of a non-digit converts to its value,
  saturated to 32 bits.
* `value_decimal`: an integer written in decimal has its value.
-/

namespace CBytes

/-! ### Character classes -/

/-- `isspace`. -/
def isspace (b : UInt8) : Bool :=
  b == 32 || (9 ≤ b && b ≤ 13)

/-- `isdigit`. -/
def isdigit (b : UInt8) : Bool :=
  48 ≤ b && b ≤ 57

/-- `isalpha`. -/
def isalpha (b : UInt8) : Bool :=
  (65 ≤ b && b ≤ 90) || (97 ≤ b && b ≤ 122)

/-- `tolower`. -/
def tolower (b : UInt8) : UInt8 :=
  if 65 ≤ b && b ≤ 90 then b + 32 else b

/-- A digit is no whitespace. -/
theorem isspace_of_isdigit {b : UInt8} (h : isdigit b = true) : isspace b = false := by
  simp only [isdigit, isspace, Bool.and_eq_true, decide_eq_true_eq, UInt8.le_iff_toNat_le,
    Bool.or_eq_false_iff, beq_eq_false_iff_ne, Bool.and_eq_false_iff, decide_eq_false_iff_not]
    at h ⊢
  have h48 : (48 : UInt8).toNat = 48 := rfl
  have h13 : (13 : UInt8).toNat = 13 := rfl
  refine ⟨?_, Or.inr (by omega)⟩
  rintro rfl
  exact absurd h.1 (by decide)

/-- A digit is no letter. -/
theorem isalpha_of_isdigit {b : UInt8} (h : isdigit b = true) : isalpha b = false := by
  simp only [isdigit, isalpha, Bool.and_eq_true, decide_eq_true_eq, UInt8.le_iff_toNat_le,
    Bool.or_eq_false_iff, Bool.and_eq_false_iff, decide_eq_false_iff_not] at h ⊢
  have h57 : (57 : UInt8).toNat = 57 := rfl
  have h65 : (65 : UInt8).toNat = 65 := rfl
  have h97 : (97 : UInt8).toNat = 97 := rfl
  exact ⟨Or.inl (by omega), Or.inl (by omega)⟩

/-- Whitespace is no letter. -/
theorem isalpha_of_isspace {b : UInt8} (h : isspace b = true) : isalpha b = false := by
  simp only [isspace, isalpha, Bool.or_eq_true, beq_iff_eq, Bool.and_eq_true, decide_eq_true_eq,
    UInt8.le_iff_toNat_le, Bool.or_eq_false_iff, Bool.and_eq_false_iff,
    decide_eq_false_iff_not] at h ⊢
  have h13 : (13 : UInt8).toNat = 13 := rfl
  have h65 : (65 : UInt8).toNat = 65 := rfl
  have h97 : (97 : UInt8).toNat = 97 := rfl
  rcases h with rfl | ⟨-, h⟩
  · exact ⟨Or.inl (by decide), Or.inl (by decide)⟩
  · exact ⟨Or.inl (by omega), Or.inl (by omega)⟩

/-! ### Substring search -/

/-- `strstr`: the rest of `s` from the first occurrence of `key` on. -/
def strstr : Bytes → Bytes → Option Bytes
  | [], key => if key = [] then some [] else none
  | b :: s, key => if key.isPrefixOf (b :: s) then some (b :: s) else strstr s key

/-- The search finds a key in front. -/
theorem strstr_prefix (key s : Bytes) : strstr (key ++ s) key = some (key ++ s) := by
  have hpre : key.isPrefixOf (key ++ s) = true := List.isPrefixOf_iff_prefix.mpr ⟨s, rfl⟩
  match hs : key ++ s with
  | [] =>
      rw [strstr, if_pos (List.append_eq_nil_iff.mp hs).1]
  | b :: t =>
      rw [hs] at hpre
      rw [strstr, if_pos hpre]

/-- What the search finds starts with the key and is the rest of the text. -/
theorem strstr_eq_some {s key r : Bytes} (h : strstr s key = some r) :
    key <+: r ∧ r <:+ s := by
  induction s with
  | nil =>
      rw [strstr] at h
      split_ifs at h with hkey
      obtain rfl := Option.some.inj h
      exact ⟨by rw [hkey], List.suffix_refl _⟩
  | cons b s ih =>
      rw [strstr] at h
      split_ifs at h with hpre
      · obtain rfl := Option.some.inj h
        exact ⟨List.isPrefixOf_iff_prefix.mp hpre, List.suffix_refl _⟩
      · obtain ⟨hkey, hsuf⟩ := ih h
        exact ⟨hkey, hsuf.trans (List.suffix_cons b s)⟩

/-- The search succeeds exactly when the key occurs. -/
theorem isSome_strstr_iff {s key : Bytes} : (strstr s key).isSome = true ↔ key <:+: s := by
  constructor
  · intro h
    obtain ⟨r, hr⟩ := Option.isSome_iff_exists.mp h
    obtain ⟨hkey, hsuf⟩ := strstr_eq_some hr
    exact hkey.isInfix.trans hsuf.isInfix
  · rintro ⟨a, b, rfl⟩
    rw [List.append_assoc]
    induction a with
    | nil =>
        rw [List.nil_append, strstr_prefix]
        rfl
    | cons x a ih =>
        rw [List.cons_append, strstr]
        split_ifs
        · rfl
        · exact ih

/-- A search fails exactly if the text does not contain the key. -/
theorem strstr_eq_none_iff {s key : Bytes} : strstr s key = none ↔ ¬ key <:+: s := by
  rw [← isSome_strstr_iff, Bool.not_eq_true, Option.isSome_eq_false_iff,
    Option.isNone_iff_eq_none]

/-- A key stands in a text with `before` in front of it and `behind` behind it, and nowhere
earlier. -/
structure FirstOccurrence (s key before behind : Bytes) : Prop where
  eq : s = before ++ (key ++ behind)
  first : ∀ a b, s = a ++ (key ++ b) → before.length ≤ a.length

/-- There is only one first occurrence. -/
theorem FirstOccurrence.unique {s key a b a' b' : Bytes} (h : FirstOccurrence s key a b)
    (h' : FirstOccurrence s key a' b') : a = a' ∧ b = b' := by
  have hlen : a.length = a'.length := le_antisymm (h.first _ _ h'.eq) (h'.first _ _ h.eq)
  obtain ⟨ha, hrest⟩ := List.append_inj (h.eq.symm.trans h'.eq) hlen
  exact ⟨ha, List.append_cancel_left hrest⟩

/-- **The search finds the first occurrence.** -/
theorem firstOccurrence_of_strstr {s key r : Bytes} (h : strstr s key = some r) :
    ∃ a b, r = key ++ b ∧ FirstOccurrence s key a b := by
  induction s with
  | nil =>
      rw [strstr] at h
      split_ifs at h with hkey
      obtain rfl := Option.some.inj h
      exact ⟨[], [], by rw [hkey, List.append_nil], by rw [hkey]; rfl, fun _ _ _ => Nat.zero_le _⟩
  | cons c s ih =>
      rw [strstr] at h
      split_ifs at h with hpre
      · obtain rfl := Option.some.inj h
        obtain ⟨b, hb⟩ := List.isPrefixOf_iff_prefix.mp hpre
        exact ⟨[], b, hb.symm, hb.symm, fun _ _ _ => Nat.zero_le _⟩
      · obtain ⟨a, b, hr, heq, hfirst⟩ := ih h
        refine ⟨c :: a, b, hr, by rw [heq]; rfl, fun a' b' hab => ?_⟩
        cases a' with
        | nil => exact absurd (List.isPrefixOf_iff_prefix.mpr ⟨b', hab.symm⟩) hpre
        | cons c' a' =>
            rw [List.cons_append] at hab
            exact Nat.succ_le_succ (hfirst a' b' (List.cons.inj hab).2)

/-- A text whose first occurrence of the key is known is found from there on. -/
theorem FirstOccurrence.strstr_eq {s key a b : Bytes} (h : FirstOccurrence s key a b) :
    strstr s key = some (key ++ b) := by
  have hin : (strstr s key).isSome = true :=
    isSome_strstr_iff.mpr ⟨a, b, by rw [List.append_assoc, h.eq]⟩
  obtain ⟨r, hr⟩ := Option.isSome_iff_exists.mp hin
  obtain ⟨a', b', rfl, h'⟩ := firstOccurrence_of_strstr hr
  rw [hr, (h.unique h').2]

/-- A key that lacks a byte does not reach beyond it. -/
theorem isPrefixOf_append_cons {key : Bytes} {x : UInt8} (hx : x ∉ key) (a b : Bytes) :
    key.isPrefixOf (a ++ x :: b) = key.isPrefixOf a := by
  induction a generalizing key with
  | nil =>
      cases key with
      | nil => rfl
      | cons k ks =>
          rw [List.mem_cons, not_or] at hx
          simp [List.isPrefixOf, Ne.symm hx.1]
  | cons y a ih =>
      cases key with
      | nil => rfl
      | cons k ks =>
          rw [List.mem_cons, not_or] at hx
          simp only [List.cons_append, List.isPrefixOf, ih hx.2]

/-- **A byte that does not occur in the key splits the search**: the key is found before
it or after it. -/
theorem strstr_append_cons {key : Bytes} (hkey : key ≠ []) {x : UInt8} (hx : x ∉ key)
    (a b : Bytes) : strstr (a ++ x :: b) key =
      ((strstr a key).map (· ++ x :: b)).or (strstr b key) := by
  induction a with
  | nil =>
      have hpre := isPrefixOf_append_cons hx [] b
      have hnil : key.isPrefixOf [] = false := by
        rw [← Bool.not_eq_true, List.isPrefixOf_iff_prefix, List.prefix_nil]
        exact hkey
      rw [hnil, List.nil_append] at hpre
      have hskip : strstr (x :: b) key = strstr b key := by
        rw [strstr, hpre, if_neg Bool.false_ne_true]
      have hnone : strstr [] key = none := by rw [strstr, if_neg hkey]
      rw [List.nil_append, hskip, hnone]
      rfl
  | cons y a ih =>
      have hpre := isPrefixOf_append_cons hx (y :: a) b
      rw [List.cons_append] at hpre ⊢
      rw [strstr, strstr, ih, hpre]
      split_ifs <;> rfl

/-! ### Searching for words -/

/-- A key that is a word: at least one byte, all of them letters. -/
structure Word (key : Bytes) : Prop where
  ne_nil : key ≠ []
  isalpha_of_mem : ∀ c ∈ key, isalpha c = true

instance (key : Bytes) : Decidable (Word key) :=
  decidable_of_iff (key ≠ [] ∧ ∀ c ∈ key, isalpha c = true)
    ⟨fun h => ⟨h.1, h.2⟩, fun h => ⟨h.ne_nil, h.isalpha_of_mem⟩⟩

/-- A text without letters. -/
def Gap (g : Bytes) : Prop :=
  ∀ c ∈ g, isalpha c = false

section Words

variable {key a b g : Bytes} {c : UInt8}

/-- A byte that is no letter is not in a word. -/
theorem Word.notMem (h : Word key) (hc : isalpha c = false) : c ∉ key := by
  intro hmem
  rw [h.isalpha_of_mem c hmem] at hc
  exact absurd hc (by decide)

/-- A word is looked for behind a byte that is no letter, if it does not stand before. -/
theorem Word.strstr_append (h : Word key) (hc : isalpha c = false) (ha : ¬ key <:+: a) :
    strstr (a ++ c :: b) key = strstr b key := by
  rw [strstr_append_cons h.ne_nil (h.notMem hc), strstr_eq_none_iff.mpr ha]
  rfl

/-- No word stands in the empty text. -/
theorem Word.not_infix_nil (h : Word key) : ¬ key <:+: [] :=
  fun hnil => h.ne_nil (List.infix_nil.mp hnil)

/-- A byte that is no letter does not matter to the search for a word. -/
theorem Word.strstr_cons (h : Word key) (hc : isalpha c = false) :
    strstr (c :: b) key = strstr b key :=
  h.strstr_append hc h.not_infix_nil

/-- A word is looked for behind a gap. -/
theorem Word.strstr_gap (h : Word key) (hg : Gap g) : strstr (g ++ b) key = strstr b key := by
  induction g with
  | nil => rfl
  | cons c g ih =>
      rw [List.cons_append, h.strstr_cons (hg c List.mem_cons_self)]
      exact ih fun d hd => hg d (List.mem_cons_of_mem c hd)

/-- A byte that is no letter separates words. -/
theorem Word.infix_append_iff (h : Word key) (hc : isalpha c = false) :
    key <:+: a ++ c :: b ↔ key <:+: a ∨ key <:+: b := by
  rw [← isSome_strstr_iff, ← isSome_strstr_iff, ← isSome_strstr_iff,
    strstr_append_cons h.ne_nil (h.notMem hc), Option.isSome_or, Option.isSome_map,
    Bool.or_eq_true]

/-- A byte that is no letter starts no word. -/
theorem Word.infix_cons_iff (h : Word key) (hc : isalpha c = false) :
    key <:+: c :: b ↔ key <:+: b := by
  rw [← isSome_strstr_iff, h.strstr_cons hc, isSome_strstr_iff]

/-- A gap in front has no word. -/
theorem Word.infix_gap_iff (h : Word key) (hg : Gap g) : key <:+: g ++ b ↔ key <:+: b := by
  rw [← isSome_strstr_iff, h.strstr_gap hg, isSome_strstr_iff]

/-- No word stands in a gap. -/
theorem Word.not_infix_gap (h : Word key) (hg : Gap g) : ¬ key <:+: g := by
  have hiff := h.infix_gap_iff (b := []) hg
  rw [List.append_nil] at hiff
  exact fun hin => h.not_infix_nil (hiff.mp hin)

end Words

/-! ### Strings in buffers -/

variable {n : ℕ}

/-- The string a buffer holds: its bytes before the first NUL. -/
def cstr (v : Vector UInt8 n) : Bytes :=
  v.toList.takeWhile (· != 0)

/-- A buffer that holds the bytes `s` and then a NUL holds the string `s`. -/
theorem cstr_eq {v : Vector UInt8 n} {s : Bytes} (hs : 0 ∉ s) (hlen : s.length < n)
    (hget : ∀ i (hi : i < s.length), v[i] = s[i]) (hnul : v[s.length] = 0) :
    cstr v = s := by
  have hsplit : v.toList = s ++ 0 :: v.toList.drop (s.length + 1) := by
    apply List.ext_getElem
    · simp only [Vector.length_toList, List.length_append, List.length_cons, List.length_drop]
      omega
    · intro i hi hi'
      rw [Vector.length_toList] at hi
      rw [Vector.getElem_toList, List.getElem_append]
      split_ifs with hlt
      · exact hget i hlt
      · rw [List.getElem_cons]
        split_ifs with heq
        · have hi : i = s.length := by omega
          subst hi
          exact hnul
        · rw [List.getElem_drop, Vector.getElem_toList]
          congr 1
          omega
  rw [cstr, hsplit, List.takeWhile_append_of_pos, List.takeWhile_cons_of_neg, List.append_nil]
  · simp
  · intro b hb
    exact bne_iff_ne.mpr fun h => hs (h ▸ hb)

/-- A buffer to which a string was copied with its terminator holds the string. -/
theorem cstr_terminated (v : Vector UInt8 n) {s : Bytes} (hs : 0 ∉ s) (hlen : s.length < n) :
    cstr (memcpy (memcpy v 0 s) s.length [0]) = s := by
  refine cstr_eq hs hlen (fun i hi => ?_) ?_
  · rw [getElem_memcpy, if_neg (by omega), getElem_memcpy, if_pos (by omega), Nat.sub_zero,
      List.getD_eq_getElem _ _ hi]
  · rw [getElem_memcpy, if_pos (by simp), Nat.sub_self]
    rfl

/-- A buffer whose string does not fill it has a NUL. -/
theorem zero_mem_of_length_cstr_lt {v : Vector UInt8 n} (h : (cstr v).length < n) :
    0 ∈ v.toList := by
  by_contra h0
  have hall : cstr v = v.toList :=
    List.takeWhile_eq_self_iff.mpr fun b hb => bne_iff_ne.mpr fun hb0 => h0 (hb0 ▸ hb)
  rw [hall, Vector.length_toList] at h
  exact absurd h (lt_irrefl n)

/-- A string copied with its terminator to the front of a buffer. -/
theorem cstr_memcpy_nul {s : Bytes} (hs : 0 ∉ s) (hlen : s.length < n) (out : Vector UInt8 n) :
    cstr (memcpy out 0 (s ++ [0])) = s := by
  refine cstr_eq hs hlen (fun i hi => ?_) ?_
  · rw [getElem_memcpy, if_pos (by simp; omega), Nat.sub_zero,
      List.getD_append _ _ _ _ hi, List.getD_eq_getElem _ _ hi]
  · rw [getElem_memcpy, if_pos (by simp), Nat.sub_zero, List.getD_append_right _ _ _ _ le_rfl,
      Nat.sub_self]
    rfl

/-- The buffer of a string variable that was set to zero holds the empty string. -/
theorem cstr_replicate_zero : cstr (Vector.replicate n 0) = [] := by
  cases n with
  | zero => rfl
  | succ n =>
      rw [cstr, Vector.toList_replicate, List.replicate_succ]
      exact List.takeWhile_cons_of_neg (by decide)

/-- `strncpy(dst, src, k)`: the string is cut or padded with NULs to `k` bytes. -/
def strncpy (dst : Vector UInt8 n) (src : Bytes) (k : ℕ) : Vector UInt8 n :=
  memcpy dst 0 ((src ++ List.replicate k 0).take k)

/-- `strncpy` fills up with NULs, up to the count. -/
theorem getElem_strncpy (dst : Vector UInt8 n) (src : Bytes) (k : ℕ) {i : ℕ} (hi : i < n) :
    (strncpy dst src k)[i] = if i < k then src.getD i 0 else dst[i] := by
  rw [strncpy, getElem_memcpy]
  simp only [List.length_take, List.length_append, List.length_replicate]
  by_cases hik : i < k
  · rw [if_pos (by omega), if_pos hik, Nat.sub_zero,
      List.getD_eq_getElem _ _ (by simp; omega), List.getElem_take]
    by_cases hsrc : i < src.length
    · rw [List.getElem_append_left hsrc, List.getD_eq_getElem _ _ hsrc]
    · rw [List.getElem_append_right (by omega), List.getElem_replicate,
        List.getD_eq_default _ _ (by omega)]
  · rw [if_neg (by omega), if_neg hik]

/-- **The copy into a zeroed buffer, all but its last byte, is the whole string** padded
with NULs exactly when the string does not reach the last byte. -/
theorem toList_strncpy_eq_iff {src : Bytes} (hsrc : 0 ∉ src) (hlen : src.length ≤ n + 1) :
    (strncpy (Vector.replicate (n + 1) 0) src n).toList =
      src ++ List.replicate (n + 1 - src.length) 0 ↔ src.length ≤ n := by
  constructor
  · intro h
    by_contra hfull
    have hn : n < src.length := by omega
    have hlast : (strncpy (Vector.replicate (n + 1) 0) src n)[n] = src[n] := by
      rw [← Vector.getElem_toList (by simp), List.getElem_of_eq h,
        List.getElem_append_left hn]
    rw [getElem_strncpy, if_neg (lt_irrefl n), Vector.getElem_replicate] at hlast
    exact hsrc (hlast ▸ List.getElem_mem hn)
  · intro hfit
    apply List.ext_getElem
    · simp only [Vector.length_toList, List.length_append, List.length_replicate]
      omega
    · intro i hi _
      rw [Vector.length_toList] at hi
      rw [Vector.getElem_toList, getElem_strncpy, List.getElem_append]
      split_ifs with hin hsrc hsrc
      · rw [List.getD_eq_getElem _ _ hsrc]
      · rw [List.getD_eq_default _ _ (by omega), List.getElem_replicate]
      · omega
      · rw [Vector.getElem_replicate, List.getElem_replicate]

/-- Only the first `k` bytes of the source matter. -/
theorem strncpy_take (dst : Vector UInt8 n) (src : Bytes) (k : ℕ) :
    strncpy dst (src.take k) k = strncpy dst src k := by
  apply Vector.ext
  intro i hi
  rw [getElem_strncpy, getElem_strncpy]
  split_ifs with hik
  · rw [List.getD_eq_getElem?_getD, List.getElem?_take, if_pos hik, List.getD_eq_getElem?_getD]
  · rfl

/-- Copying a string into a zeroed buffer, all but the last byte of it: the string comes
out cut to what fits. -/
theorem cstr_strncpy {src : Bytes} (hsrc : 0 ∉ src) (hn : 0 < n) :
    cstr (strncpy (Vector.replicate n 0) src (n - 1)) = src.take (n - 1) := by
  have hlen : (src.take (n - 1)).length ≤ n - 1 := List.length_take_le _ _
  refine cstr_eq (fun h => hsrc (List.mem_of_mem_take h)) (by omega) (fun i hi => ?_) ?_
  · rw [getElem_strncpy, if_pos (by omega), List.getElem_take, List.getD_eq_getElem]
  · rw [getElem_strncpy]
    split_ifs with hlt
    · rw [List.getD_eq_default _ _ (by rw [List.length_take] at hlt ⊢; omega)]
    · exact Vector.getElem_replicate ..

/-- The loop `while (*pos && p(*pos) && i + 1 < n) out[i++] = *pos++; out[i] = '\0';`
over the text `s` at `pos`, with the index it ends at. -/
def copyLoop (p : UInt8 → Bool) : Bytes → ℕ → Vector UInt8 n → Vector UInt8 n × ℕ
  | [], i, out => (out.setIfInBounds i 0, i)
  | b :: s, i, out =>
    if p b && decide (i + 1 < n) then copyLoop p s (i + 1) (out.setIfInBounds i b)
    else (out.setIfInBounds i 0, i)

/-- **The copy loop** writes the longest run of bytes with `p`, cut to the room there is,
then a NUL, and nothing else. -/
theorem copyLoop_eq (p : UInt8 → Bool) (s : Bytes) {i : ℕ} (hi : i < n)
    (out : Vector UInt8 n) :
    (copyLoop p s i out).2 = i + ((s.takeWhile p).take (n - 1 - i)).length ∧
      ∀ j (hj : j < n), (copyLoop p s i out).1[j] =
        if j < i then out[j]
        else if j < (copyLoop p s i out).2 then ((s.takeWhile p).take (n - 1 - i)).getD (j - i) 0
        else if j = (copyLoop p s i out).2 then 0 else out[j] := by
  have hstop : ∀ (i : ℕ) (out : Vector UInt8 n) (j : ℕ) (hj : j < n),
      (out.setIfInBounds i 0)[j] =
        if j < i then out[j] else if j < i then ([] : Bytes).getD (j - i) 0
          else if j = i then 0 else out[j] := by
    intro i out j hj
    rw [Vector.getElem_setIfInBounds]
    split_ifs <;> first | rfl | omega
  induction s generalizing i out with
  | nil =>
      rw [List.takeWhile_nil, List.take_nil]
      exact ⟨rfl, hstop i out⟩
  | cons b s ih =>
      rw [copyLoop]
      by_cases hp : p b = true
      · rw [List.takeWhile_cons_of_pos hp]
        by_cases hroom : i + 1 < n
        · have hlen : n - 1 - i = (n - 1 - (i + 1)) + 1 := by omega
          rw [if_pos (by simp [hp, hroom]), hlen, List.take_succ_cons, List.length_cons]
          obtain ⟨hcount, hget⟩ := ih hroom (out.setIfInBounds i b)
          refine ⟨by omega, fun j hj => ?_⟩
          rw [hget j hj, Vector.getElem_setIfInBounds]
          rcases Nat.lt_trichotomy j i with hlt | rfl | hgt
          · rw [if_pos (by omega), if_neg (by omega), if_pos hlt]
          · rw [if_pos (by omega), if_pos rfl, if_neg (by omega), if_pos (by omega),
              Nat.sub_self]
            rfl
          · have hsub : j - i = (j - (i + 1)) + 1 := by omega
            rw [if_neg (by omega), if_neg (by omega : ¬ j < i), if_neg (by omega : ¬ i = j), hsub,
              List.getD_cons_succ]
        · have hlen : n - 1 - i = 0 := by omega
          rw [if_neg (by simp [hroom]), hlen, List.take_zero]
          exact ⟨rfl, hstop i out⟩
      · rw [if_neg (by simp [hp]), List.takeWhile_cons_of_neg hp, List.take_nil]
        exact ⟨rfl, hstop i out⟩

/-- The string the copy loop leaves, and the flag whether it copied anything. -/
theorem cstr_copyLoop (p : UInt8 → Bool) {s : Bytes} (hs : 0 ∉ s) (hn : 0 < n)
    (out : Vector UInt8 n) :
    cstr (copyLoop p s 0 out).1 = (s.takeWhile p).take (n - 1) ∧
      (copyLoop p s 0 out).2 = ((s.takeWhile p).take (n - 1)).length := by
  obtain ⟨hcount, hget⟩ := copyLoop_eq p s hn out
  rw [Nat.sub_zero, Nat.zero_add] at hcount
  have hlen : ((s.takeWhile p).take (n - 1)).length ≤ n - 1 := List.length_take_le _ _
  refine ⟨cstr_eq (fun h => hs ?_) (by omega) (fun i hi => ?_) ?_, hcount⟩
  · exact (List.takeWhile_prefix p).subset (List.mem_of_mem_take h)
  · rw [hget i (by omega), if_neg (by omega), if_pos (by omega), Nat.sub_zero, Nat.sub_zero,
      List.getD_eq_getElem _ _ hi]
  · rw [hget _ (by omega), if_neg (by omega), if_neg (by omega), if_pos hcount.symm]

/-! ### Decimal numbers -/

/-- The value of a run of digits. -/
def digitsVal (ds : Bytes) : ℕ :=
  ds.foldl (fun v d => 10 * v + (d.toNat - 48)) 0

/-- The value of `strtol` when the mathematical value is `v`: a `long` of 32 bits
saturates. -/
def clampLong (v : ℤ) : ℤ :=
  max (-2 ^ 31) (min v (2 ^ 31 - 1))

/-- `strtol(s, &end, 10)`; `none` when no digit is converted. -/
def strtol10 (s : Bytes) : Option ℤ :=
  let s := s.dropWhile isspace
  let neg := s.head? == some 45
  let s := if s.head? = some 45 ∨ s.head? = some 43 then s.tail else s
  let ds := s.takeWhile isdigit
  if ds = [] then none
  else some (clampLong (if neg then -digitsVal ds else digitsVal ds))

/-- `atoi`. -/
def atoi (s : Bytes) : ℤ :=
  (strtol10 s).getD 0

/-- A run that stops at the start of a text does not go on in it. -/
theorem takeWhile_append_of_head {α : Type*} {p : α → Bool} {s : List α}
    (hs : ∀ x ∈ s.head?, p x = false) (t : List α) : (t ++ s).takeWhile p = t.takeWhile p := by
  induction t with
  | nil =>
      cases s with
      | nil => rfl
      | cons x s =>
          rw [List.nil_append, List.takeWhile_cons, hs x rfl, if_neg Bool.false_ne_true]
          rfl
  | cons y t ih => rw [List.cons_append, List.takeWhile_cons, List.takeWhile_cons, ih]

/-- `w` is the longest prefix of `t` with `p`. -/
structure IsLongestPrefix {α : Type*} (p : α → Prop) (t w : List α) : Prop where
  isPrefix : w <+: t
  all : ∀ x ∈ w, p x
  longest : ∀ v, v <+: t → (∀ x ∈ v, p x) → v.length ≤ w.length

/-- **The longest prefix is a run**, if the property can be tested. -/
theorem isLongestPrefix_iff {α : Type*} {p : α → Prop} {q : α → Bool} (hq : ∀ x, q x = true ↔ p x)
    {t w : List α} : IsLongestPrefix p t w ↔ w = t.takeWhile q := by
  have hlongest : ∀ v, v <+: t → (∀ x ∈ v, p x) → v <+: t.takeWhile q := by
    rintro v ⟨rest, rfl⟩ hv
    rw [List.takeWhile_append_of_pos fun x hx => (hq x).mpr (hv x hx)]
    exact List.prefix_append _ _
  have hall : ∀ x ∈ t.takeWhile q, p x := fun x hx => (hq x).mp (List.mem_takeWhile_imp hx)
  constructor
  · rintro ⟨hpre, hw, hmax⟩
    exact (hlongest w hpre hw).eq_of_length_le (hmax _ (List.takeWhile_prefix q) hall)
  · rintro rfl
    exact ⟨List.takeWhile_prefix q, hall, fun v hpre hv => (hlongest v hpre hv).length_le⟩

/-- Only the elements of the list matter to its longest run. -/
theorem takeWhile_congr_of_mem {α : Type*} {p q : α → Bool} {s : List α}
    (h : ∀ x ∈ s, p x = q x) : s.takeWhile p = s.takeWhile q := by
  induction s with
  | nil => rfl
  | cons x s ih =>
      rw [List.takeWhile_cons, List.takeWhile_cons, h x List.mem_cons_self,
        ih fun y hy => h y (List.mem_cons_of_mem x hy)]

/-- What stands behind a number does not belong to it, unless it starts with a digit. -/
theorem atoi_append {b : UInt8} (hb : (isdigit b || b == 45) = true) {s : Bytes}
    (hs : ∀ x ∈ s.head?, isdigit x = false) (rest : Bytes) :
    atoi (b :: (rest ++ s)) = atoi (b :: rest) := by
  have hspace : isspace b = false := by
    rw [Bool.or_eq_true, beq_iff_eq] at hb
    rcases hb with hb | rfl
    · exact isspace_of_isdigit hb
    · rfl
  have hskip : ∀ t, (b :: t).dropWhile isspace = b :: t :=
    fun t => List.dropWhile_cons_of_neg (by rw [hspace]; exact Bool.false_ne_true)
  have htake : (if (b :: (rest ++ s)).head? = some 45 ∨ (b :: (rest ++ s)).head? = some 43 then
      (b :: (rest ++ s)).tail else b :: (rest ++ s)).takeWhile isdigit =
      (if (b :: rest).head? = some 45 ∨ (b :: rest).head? = some 43 then (b :: rest).tail
        else b :: rest).takeWhile isdigit := by
    by_cases hsign : (b :: rest).head? = some 45 ∨ (b :: rest).head? = some 43
    · have hsign' : (b :: (rest ++ s)).head? = some 45 ∨ (b :: (rest ++ s)).head? = some 43 := hsign
      rw [if_pos hsign, if_pos hsign']
      exact takeWhile_append_of_head hs rest
    · have hsign' : ¬ ((b :: (rest ++ s)).head? = some 45 ∨ (b :: (rest ++ s)).head? = some 43) :=
        hsign
      rw [if_neg hsign, if_neg hsign']
      exact takeWhile_append_of_head hs (b :: rest)
  rw [atoi, atoi, strtol10, strtol10, hskip, hskip, htake]
  rfl

/-- A decimal integer literal: an optional minus sign and at least one digit. -/
structure IntLit where
  neg : Bool
  digits : Bytes
  digits_ne_nil : digits ≠ []
  isdigit_of_mem : ∀ d ∈ digits, isdigit d = true

/-- The text of a literal. -/
def IntLit.bytes (l : IntLit) : Bytes :=
  (if l.neg then [45] else []) ++ l.digits

/-- The number a literal writes. -/
def IntLit.value (l : IntLit) : ℤ :=
  if l.neg then -digitsVal l.digits else digitsVal l.digits

/-- A literal starts with a minus sign or a digit. -/
theorem IntLit.exists_cons (l : IntLit) :
    ∃ b t, l.bytes = b :: t ∧ (b = 45 ∨ isdigit b = true) := by
  obtain ⟨d, ds, hds⟩ := List.exists_cons_of_ne_nil l.digits_ne_nil
  cases hneg : l.neg with
  | true => exact ⟨45, l.digits, by rw [IntLit.bytes, hneg]; rfl, Or.inl rfl⟩
  | false =>
      refine ⟨d, ds, by rw [IntLit.bytes, hneg, hds]; rfl, Or.inr (l.isdigit_of_mem d ?_)⟩
      rw [hds]
      exact List.mem_cons_self

/-- A literal has no letter. -/
theorem gap_intLit (l : IntLit) : Gap l.bytes := by
  intro c hc
  rw [IntLit.bytes, List.mem_append] at hc
  rcases hc with hc | hc
  · split_ifs at hc
    · rw [List.mem_singleton.mp hc]
      rfl
    · exact absurd hc List.not_mem_nil
  · exact isalpha_of_isdigit (l.isdigit_of_mem c hc)

/-- **Conversion of a literal** in front of a text that does not go on with a digit. -/
theorem strtol10_append (l : IntLit) {s : Bytes} (hs : ∀ b ∈ s.head?, isdigit b = false) :
    strtol10 (l.bytes ++ s) = some (clampLong l.value) := by
  have hdigits : (l.digits ++ s).takeWhile isdigit = l.digits := by
    rw [takeWhile_append_of_head hs, List.takeWhile_eq_self_iff]
    exact l.isdigit_of_mem
  obtain ⟨d, ds, hds⟩ := List.exists_cons_of_ne_nil l.digits_ne_nil
  have hd : isdigit d = true := l.isdigit_of_mem d (by rw [hds]; exact List.mem_cons_self)
  have hsign : d ≠ 45 ∧ d ≠ 43 := by
    constructor <;> rintro rfl <;> exact absurd hd (by decide)
  cases hneg : l.neg with
  | true =>
      have hskip : (l.bytes ++ s).dropWhile isspace = 45 :: (l.digits ++ s) := by
        rw [IntLit.bytes, hneg]
        exact List.dropWhile_cons_of_neg (by decide)
      simp only [strtol10, hskip, List.head?_cons, true_or, if_true, List.tail_cons, hdigits,
        if_neg l.digits_ne_nil, IntLit.value, hneg, beq_self_eq_true]
  | false =>
      have hskip : (l.bytes ++ s).dropWhile isspace = l.digits ++ s := by
        rw [IntLit.bytes, hneg, hds]
        exact List.dropWhile_cons_of_neg (by rw [isspace_of_isdigit hd]; exact Bool.false_ne_true)
      have hhead : (l.digits ++ s).head? = some d := by
        rw [hds]
        rfl
      simp [strtol10, hskip, hhead, hsign.1, hsign.2, hdigits, l.digits_ne_nil, IntLit.value,
        hneg]

/-! ### Writing decimal numbers -/

/-- The decimal digits of a number, without leading zeros. -/
def decDigits (v : ℕ) : Bytes :=
  if v = 0 then [48] else (Nat.digits 10 v).reverse.map fun d => UInt8.ofNat (48 + d)

/-- The code of a digit. -/
theorem toNat_digit {d : ℕ} (hd : d < 10) : (UInt8.ofNat (48 + d)).toNat = 48 + d := by
  rw [UInt8.toNat_ofNat', Nat.mod_eq_of_lt (by omega)]

/-- **The digits of a number have its value.** -/
theorem digitsVal_decDigits (v : ℕ) : digitsVal (decDigits v) = v := by
  have hfold : ∀ ds : List ℕ, (∀ d ∈ ds, d < 10) →
      digitsVal (ds.reverse.map fun d => UInt8.ofNat (48 + d)) = Nat.ofDigits 10 ds := by
    intro ds hds
    induction ds with
    | nil => rfl
    | cons d ds ih =>
        have hd := toNat_digit (hds d List.mem_cons_self)
        have hrest := ih fun e he => hds e (List.mem_cons_of_mem d he)
        rw [digitsVal] at hrest
        rw [List.reverse_cons, List.map_append, digitsVal, List.foldl_append, hrest,
          Nat.ofDigits_cons]
        simp only [List.map_cons, List.map_nil, List.foldl_cons, List.foldl_nil, hd]
        omega
  rw [decDigits]
  split_ifs with hv
  · rw [hv]
    rfl
  · rw [hfold _ fun d hd => Nat.digits_lt_base (by omega) hd, Nat.ofDigits_digits]

/-- An integer written in decimal. -/
def decimal (v : ℤ) : IntLit where
  neg := decide (v < 0)
  digits := decDigits v.natAbs
  digits_ne_nil := by
    rw [decDigits]
    split_ifs with hv
    · exact List.cons_ne_nil _ _
    · simpa [Nat.digits_ne_nil_iff_ne_zero] using hv
  isdigit_of_mem := by
    intro b hb
    rw [decDigits] at hb
    split_ifs at hb with hv
    · rw [List.mem_singleton.mp hb]
      rfl
    · obtain ⟨d, hd, rfl⟩ := List.mem_map.mp hb
      have hlt : d < 10 := Nat.digits_lt_base (by omega) (List.mem_reverse.mp hd)
      have h48 : (48 : UInt8).toNat = 48 := rfl
      have h57 : (57 : UInt8).toNat = 57 := rfl
      simp only [isdigit, Bool.and_eq_true, decide_eq_true_eq, UInt8.le_iff_toNat_le,
        toNat_digit hlt, h48, h57]
      omega

/-- A number is the value of its decimal literal. -/
theorem value_decimal (v : ℤ) : (decimal v).value = v := by
  simp only [IntLit.value, decimal, digitsVal_decDigits, decide_eq_true_eq]
  split_ifs <;> omega

/-- A number of 32 bits has at most ten digits. -/
theorem length_decimal_le {v : ℤ} (hv : v.natAbs < 10 ^ 10) : (decimal v).bytes.length ≤ 11 := by
  have hdigits : (decDigits v.natAbs).length ≤ 10 := by
    rw [decDigits]
    split_ifs
    · simp
    · rw [List.length_map, List.length_reverse, Nat.digits_length_le_iff (by omega)]
      exact hv
  have hsign : (if (decimal v).neg then [45] else [] : Bytes).length ≤ 1 := by
    split_ifs <;> simp
  rw [IntLit.bytes, List.length_append]
  exact Nat.add_le_add hsign hdigits

end CBytes
