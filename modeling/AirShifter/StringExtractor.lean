import AirShifter.CMemory
import AirShifter.LegacyText

/-!
# The Legacy String Extractor

What `legacy_extract_str_field` leaves in a buffer of any size, byte by byte, for any text
and any key. The specification splits the text at the first occurrence of the key and takes
longest prefixes of what stands behind it; it does not search and it does not copy. The
extractor is written once more with each of its writes checked.

## Main results

* `fieldValue_iff`: the value of a field is the one the legacy format reads.
* `Checked.legacyExtractStrField_eq`: the extractor writes within its buffer.
* `string_extractor_spec`: the buffer and the value it returns.
-/

open CBytes

namespace AirShifter

/-! ### The specification -/

/-- `v` is the value at the start of a text: what stands in front of the closing quote if the
text starts with a quote, and what stands in front of a comma or whitespace otherwise. -/
inductive ValueAt : Bytes → Bytes → Prop
  | quoted {q : UInt8} {rest v : Bytes} (hq : q = 34 ∨ q = 39)
      (hv : IsLongestPrefix (fun b => b ≠ q) rest v) : ValueAt (q :: rest) v
  | bare {t v : Bytes} (ht : ∀ q ∈ t.head?, q ≠ 34 ∧ q ≠ 39)
      (hv : IsLongestPrefix (fun b => b ≠ 44 ∧ isspace b = false) t v) : ValueAt t v

/-- `v` is the value of a field: it is at the start of the text behind the first occurrence of
the key and all the colons, equals signs and whitespace that follow. -/
def FieldValue (src key v : Bytes) : Prop :=
  ∃ before behind seps t, FirstOccurrence src key before behind ∧
    IsLongestPrefix (fun b => b = 58 ∨ b = 61 ∨ isspace b = true) behind seps ∧
    behind = seps ++ t ∧ ValueAt t v

/-- A buffer whose contents were `old` holds the string `v` as far as it fits, and behind it
what it held before. -/
def HoldsCut {n : ℕ} (old new : Vector UInt8 n) (v : Bytes) : Prop :=
  ∀ i (hi : i < n), new[i] =
    if i < min v.length (n - 1) then v.getD i 0
    else if i = min v.length (n - 1) then 0 else old[i]

/-! ### The extractor with checked writes -/

namespace Checked

variable {n : ℕ}

/-- The copy at the end of `legacy_extract_str_field`. -/
def legacyCopyValue (pos : Bytes) (out : Vector UInt8 n) : Option (Vector UInt8 n × ℕ) :=
  match pos with
  | [] => Checked.copyLoop (fun b => b != 44 && !isspace b) [] 0 out
  | q :: rest =>
    if q = 34 ∨ q = 39 then Checked.copyLoop (fun b => b != q) rest 0 out
    else Checked.copyLoop (fun b => b != 44 && !isspace b) (q :: rest) 0 out

/-- `legacy_extract_str_field`: the buffer it leaves and the value it returns. -/
def legacyExtractStrField (src key : Bytes) (out : Vector UInt8 n) :
    Option (Vector UInt8 n × Bool) :=
  match strstr src key with
  | none => some (out, false)
  | some pos =>
    (legacyCopyValue ((pos.drop key.length).dropWhile isFieldSep) out).map fun r =>
      (r.1, decide (r.2 > 0))

/-- `extract_str_field` of `parser.c`. -/
def extractStrField (src key : Bytes) (out : Vector UInt8 n) : Option (Vector UInt8 n × Bool) :=
  legacyExtractStrField src key out

/-- **The extractor writes within its buffer**, and does what the model without checks does. -/
theorem legacyExtractStrField_eq (hn : 0 < n) (src key : Bytes) (out : Vector UInt8 n) :
    legacyExtractStrField src key out =
      some (AirShifter.legacyExtractStrField src key out) := by
  have hcopy : ∀ pos, legacyCopyValue pos out = some (AirShifter.legacyCopyValue pos out) := by
    intro pos
    cases pos with
    | nil => exact Checked.copyLoop_eq _ _ hn out
    | cons q rest =>
        rw [legacyCopyValue, AirShifter.legacyCopyValue]
        split_ifs
        · exact Checked.copyLoop_eq _ _ hn out
        · exact Checked.copyLoop_eq _ _ hn out
  rw [legacyExtractStrField, AirShifter.legacyExtractStrField]
  cases strstr src key with
  | none => rfl
  | some pos =>
      dsimp only
      rw [hcopy, Option.map_some]

end Checked

/-! ### The value -/

/-- The value at the start of a text is what the extractor copies. -/
theorem valueAt_iff (t v : Bytes) : ValueAt t v ↔ v = strValue t := by
  have hquoted : ∀ (q : UInt8) (rest : Bytes),
      IsLongestPrefix (fun b => b ≠ q) rest v ↔ v = rest.takeWhile (· != q) :=
    fun q rest => isLongestPrefix_iff fun b => bne_iff_ne
  have hbare : ∀ t : Bytes, IsLongestPrefix (fun b => b ≠ 44 ∧ isspace b = false) t v ↔
      v = t.takeWhile fun b => b != 44 && !isspace b :=
    fun t => isLongestPrefix_iff fun b => by simp
  constructor
  · intro h
    cases h with
    | quoted hq hv => rw [strValue, if_pos hq, (hquoted _ _).mp hv]
    | bare ht hv =>
        rw [(hbare t).mp hv]
        cases t with
        | nil => rfl
        | cons q rest =>
            have hq := ht q rfl
            rw [strValue, if_neg (by simp [hq])]
  · rintro rfl
    cases t with
    | nil => exact .bare (by simp) ((hbare []).mpr rfl)
    | cons q rest =>
        by_cases hq : q = 34 ∨ q = 39
        · exact .quoted hq ((hquoted q rest).mpr (by rw [strValue, if_pos hq]))
        · refine .bare ?_ ((hbare _).mpr (by rw [strValue, if_neg hq]))
          intro b hb
          obtain rfl := Option.some.inj hb
          exact not_or.mp hq

/-- **The value of a field** is the one that the legacy format reads. -/
theorem fieldValue_iff (src key v : Bytes) :
    FieldValue src key v ↔ (fieldText src key).map strValue = some v := by
  have hseps : ∀ behind seps : Bytes,
      IsLongestPrefix (fun b => b = 58 ∨ b = 61 ∨ isspace b = true) behind seps ↔
        seps = behind.takeWhile isFieldSep := by
    refine fun behind seps => isLongestPrefix_iff fun b => ?_
    rw [isFieldSep, Bool.or_eq_true, Bool.or_eq_true, beq_iff_eq, beq_iff_eq, or_assoc]
  rw [fieldText, Option.map_map]
  constructor
  · rintro ⟨before, behind, seps, t, hfirst, hlongest, hsplit, hvalue⟩
    have ht : behind.dropWhile isFieldSep = t := by
      have hparts := List.takeWhile_append_dropWhile (p := isFieldSep) (l := behind)
      rw [← (hseps behind seps).mp hlongest] at hparts
      exact List.append_cancel_left (hparts.trans hsplit)
    rw [hfirst.strstr_eq, Option.map_some, Function.comp_apply, List.drop_left, ht,
      (valueAt_iff t v).mp hvalue]
  · intro h
    obtain ⟨pos, hpos, rfl⟩ := Option.map_eq_some_iff.mp h
    obtain ⟨before, behind, rfl, hfirst⟩ := firstOccurrence_of_strstr hpos
    refine ⟨before, behind, _, _, hfirst, (hseps _ _).mpr rfl,
      List.takeWhile_append_dropWhile.symm, (valueAt_iff _ _).mpr ?_⟩
    rw [Function.comp_apply, List.drop_left]

/-- There is a value exactly if the key occurs. -/
theorem exists_fieldValue_iff (src key : Bytes) :
    (∃ v, FieldValue src key v) ↔ key <:+: src := by
  simp only [fieldValue_iff]
  rw [← isSome_strstr_iff, ← Option.isSome_iff_exists, Option.isSome_map, fieldText,
    Option.isSome_map]

/-- There is only one value. -/
theorem FieldValue.unique {src key v v' : Bytes} (h : FieldValue src key v)
    (h' : FieldValue src key v') : v = v' := by
  rw [fieldValue_iff] at h h'
  exact Option.some.inj (h.symm.trans h')

/-! ### The buffer -/

/-- The copy of a value leaves it in the buffer, cut to what fits. -/
theorem holdsCut_legacyCopyValue {n : ℕ} (hn : 0 < n) (t : Bytes) (out : Vector UInt8 n) :
    HoldsCut out (legacyCopyValue t out).1 (strValue t) ∧
      (legacyCopyValue t out).2 = min (strValue t).length (n - 1) := by
  obtain ⟨p, s, -, hvalue, hcopy⟩ := legacyCopyValue_eq t out
  obtain ⟨hcount, hget⟩ := copyLoop_eq p s hn out
  rw [← hvalue, Nat.zero_add, Nat.sub_zero, List.length_take, min_comm] at hcount
  rw [← hvalue, hcount] at hget
  rw [hcopy]
  refine ⟨fun i hi => ?_, hcount⟩
  rw [hget i hi, if_neg (Nat.not_lt_zero i), Nat.sub_zero, Nat.sub_zero]
  split_ifs with hlt
  · rw [List.getD_eq_getElem _ _ (by rw [List.length_take]; omega), List.getElem_take,
      List.getD_eq_getElem _ _ (by omega)]
  · rfl
  · rfl

/-- **The string extractor meets its specification**: there is a value to extract exactly if the
key occurs; without it the buffer is left alone; and with it the buffer holds the value, cut
to what fits, all writes are within the buffer, and the result tells whether anything was
copied. -/
theorem string_extractor_spec {n : ℕ} (hn : 1 ≤ n) (src key : Bytes) (out : Vector UInt8 n) :
    ((∃ v, FieldValue src key v) ↔ key <:+: src) ∧
      (¬ key <:+: src → Checked.legacyExtractStrField src key out = some (out, false)) ∧
      ∀ v, FieldValue src key v → ∃ new,
        Checked.legacyExtractStrField src key out =
          some (new, decide (v.take (n - 1) ≠ [])) ∧ HoldsCut out new v := by
  refine ⟨exists_fieldValue_iff src key, fun hno => ?_, fun v hv => ?_⟩
  · rw [Checked.legacyExtractStrField, strstr_eq_none_iff.mpr hno]
  · rw [Checked.legacyExtractStrField_eq hn, legacyExtractStrField]
    obtain ⟨t, ht, rfl⟩ := Option.map_eq_some_iff.mp ((fieldValue_iff src key v).mp hv)
    obtain ⟨pos, hpos, rfl⟩ := Option.map_eq_some_iff.mp ht
    obtain ⟨hholds, hcount⟩ :=
      holdsCut_legacyCopyValue hn ((pos.drop key.length).dropWhile isFieldSep) out
    refine ⟨_, ?_, hholds⟩
    rw [hpos]
    dsimp only
    rw [hcount]
    congr 2
    rw [decide_eq_decide, ← List.length_pos_iff, List.length_take, min_comm]

/-- A quoted value, cut to the three bytes that fit. -/
theorem string_extractor_spec_cut :
    ∃ new : Vector UInt8 4,
      Checked.legacyExtractStrField (ascii "ssid:'home'") (ascii "ssid") (Vector.replicate 4 7) =
        some (new, true) ∧ HoldsCut (Vector.replicate 4 7) new (ascii "home") := by
  obtain ⟨-, -, hfound⟩ := string_extractor_spec (n := 4) (by decide) (ascii "ssid:'home'")
    (ascii "ssid") (Vector.replicate 4 7)
  exact hfound (ascii "home") ((fieldValue_iff _ _ _).mpr (by decide +kernel))

end AirShifter
