import AirShifter.CString

/-!
# Checked Accesses of a C Program

Reads and writes of arrays that fail where a C program would leave the array. A string is an
array with its bytes and a NUL behind them; a token of a text is given by a start and an
end of the type `int`, so positions are integers.

A function written with these accesses returns `none` as soon as one access is out of range.
The lemmas say when an access succeeds, and that it then does what the unchecked function of
the same name does.

## Main results

* `load_eq`, `loadRange_eq`: reads within a text succeed.
* `store_eq`, `storeRange_eq`: writes within a buffer succeed.
* `loadStr_terminated`: a string that was copied with its terminator can be read back.
* `Checked.copyLoop_eq`: the copy loop stays in its buffer.
-/

namespace CBytes

/-! ### Reads -/

/-- `s[i]`. -/
def load (s : Bytes) (i : ℤ) : Option UInt8 :=
  if 0 ≤ i then (s ++ [0])[i.toNat]? else none

/-- The bytes that `memcpy(dst, &s[i], len)` reads. -/
def loadRange (s : Bytes) (i : ℤ) (len : ℕ) : Option Bytes :=
  if 0 ≤ i ∧ i + len ≤ s.length + 1 then some (((s ++ [0]).drop i.toNat).take len) else none

/-- A read within the text gives the byte there. -/
theorem load_eq {s : Bytes} {i : ℕ} (h : i < s.length) : load s i = some s[i] := by
  rw [load, if_pos (Int.natCast_nonneg i), Int.toNat_natCast,
    List.getElem?_append_left h, List.getElem?_eq_getElem h]

/-- A read of a range within the text gives the bytes there. -/
theorem loadRange_eq {s : Bytes} {i len : ℕ} (h : i + len ≤ s.length) :
    loadRange s i len = some ((s.drop i).take len) := by
  have hrange : (0 : ℤ) ≤ i ∧ (i : ℤ) + len ≤ s.length + 1 := ⟨by omega, by omega⟩
  rw [loadRange, if_pos hrange, Int.toNat_natCast, List.drop_append_of_le_length (by omega),
    List.take_append_of_le_length (by rw [List.length_drop]; omega)]

/-! ### Writes -/

section Buffers

variable {n : ℕ}

/-- `dst[i] = b`. -/
def store (dst : Vector UInt8 n) (i : ℕ) (b : UInt8) : Option (Vector UInt8 n) :=
  if i < n then some (dst.setIfInBounds i b) else none

/-- `memcpy(&dst[off], src, |src|)`. -/
def storeRange (dst : Vector UInt8 n) (off : ℕ) (src : Bytes) : Option (Vector UInt8 n) :=
  if off + src.length ≤ n then some (memcpy dst off src) else none

/-- The string in a buffer, for a function that reads it up to its NUL. -/
def loadStr (v : Vector UInt8 n) : Option Bytes :=
  if 0 ∈ v.toList then some (cstr v) else none

/-- A write within the buffer is a copy of one byte. -/
theorem store_eq {dst : Vector UInt8 n} {i : ℕ} (h : i < n) (b : UInt8) :
    store dst i b = some (memcpy dst i [b]) := by
  rw [store, if_pos h]
  congr 1
  apply Vector.ext
  intro j hj
  rw [Vector.getElem_setIfInBounds, getElem_memcpy, List.length_singleton]
  by_cases hij : i = j
  · rw [if_pos hij, if_pos (by omega), hij, Nat.sub_self]
    rfl
  · rw [if_neg hij, if_neg (by omega)]

/-- A write of a range within the buffer is a copy. -/
theorem storeRange_eq {dst : Vector UInt8 n} {off : ℕ} {src : Bytes} (h : off + src.length ≤ n) :
    storeRange dst off src = some (memcpy dst off src) :=
  if_pos h

/-- A buffer with a NUL can be read. -/
theorem loadStr_eq {v : Vector UInt8 n} (h : 0 ∈ v.toList) : loadStr v = some (cstr v) :=
  if_pos h

/-- A buffer with a NUL in it is terminated. -/
theorem zero_mem_memcpy_nul (v : Vector UInt8 n) {i : ℕ} (h : i < n) :
    0 ∈ (memcpy v i [0]).toList := by
  have hget : (memcpy v i [0])[i] = 0 := by
    rw [getElem_memcpy, if_pos (by simp), Nat.sub_self]
    rfl
  have hmem : (memcpy v i [0])[i] ∈ (memcpy v i [0]).toList := by simp
  rwa [hget] at hmem

/-- **A string that was copied with its terminator** can be read back. -/
theorem loadStr_terminated (v : Vector UInt8 n) {s : Bytes} (hs : 0 ∉ s) (h : s.length < n) :
    loadStr (memcpy (memcpy v 0 s) s.length [0]) = some s := by
  rw [loadStr_eq (zero_mem_memcpy_nul _ h), cstr_terminated v hs h]

/-- A copy of no bytes changes nothing. -/
theorem memcpy_nil (v : Vector UInt8 n) (off : ℕ) : memcpy v off [] = v := by
  apply Vector.ext
  intro i hi
  rw [getElem_memcpy, if_neg (by simp)]

/-- A copy that fills the buffer. -/
theorem toList_memcpy_of_length (v : Vector UInt8 n) {s : Bytes} (h : s.length = n) :
    (memcpy v 0 s).toList = s := by
  apply List.ext_getElem
  · rw [Vector.length_toList, h]
  · intro i hi hi'
    rw [Vector.getElem_toList, getElem_memcpy, if_pos (by omega), Nat.sub_zero,
      List.getD_eq_getElem _ _ hi']

/-! ### Copies -/

/-- `strncpy(dst, src, k)` from a buffer with a string. -/
def Checked.strncpy {m : ℕ} (dst : Vector UInt8 n) (src : Vector UInt8 m) (k : ℕ) :
    Option (Vector UInt8 n) :=
  (loadStr src).bind fun s => if k ≤ n then some (CBytes.strncpy dst s k) else none

/-- `strncpy` stays within its buffers if the source is terminated and the count fits. -/
theorem Checked.strncpy_eq {m : ℕ} (dst : Vector UInt8 n) {src : Vector UInt8 m} {k : ℕ}
    (hsrc : 0 ∈ src.toList) (hk : k ≤ n) :
    Checked.strncpy dst src k = some (CBytes.strncpy dst (cstr src) k) := by
  rw [Checked.strncpy, loadStr_eq hsrc, Option.bind_some, if_pos hk]

/-- A string that was copied to all but the last byte of a zeroed buffer can be read. -/
theorem loadStr_strncpy (src : Bytes) :
    loadStr (CBytes.strncpy (Vector.replicate (n + 1) 0) src n) =
      some (cstr (CBytes.strncpy (Vector.replicate (n + 1) 0) src n)) := by
  have hlast : (CBytes.strncpy (Vector.replicate (n + 1) 0) src n)[n] = 0 := by
    rw [getElem_strncpy, if_neg (lt_irrefl n), Vector.getElem_replicate]
  have hmem : (CBytes.strncpy (Vector.replicate (n + 1) 0) src n)[n] ∈
      (CBytes.strncpy (Vector.replicate (n + 1) 0) src n).toList := by simp
  rw [hlast] at hmem
  exact loadStr_eq hmem

/-- The copy loop. -/
def Checked.copyLoop (p : UInt8 → Bool) : Bytes → ℕ → Vector UInt8 n → Option (Vector UInt8 n × ℕ)
  | [], i, out => (store out i 0).map (·, i)
  | b :: s, i, out =>
    if p b && decide (i + 1 < n) then (store out i b).bind (Checked.copyLoop p s (i + 1))
    else (store out i 0).map (·, i)

/-- **The copy loop stays in its buffer.** -/
theorem Checked.copyLoop_eq (p : UInt8 → Bool) (s : Bytes) {i : ℕ} (h : i < n)
    (out : Vector UInt8 n) : Checked.copyLoop p s i out = some (CBytes.copyLoop p s i out) := by
  have hstore : ∀ (out : Vector UInt8 n) {i b}, i < n →
      store out i b = some (out.setIfInBounds i b) := fun out _ _ hi => if_pos hi
  induction s generalizing i out with
  | nil =>
      rw [Checked.copyLoop, hstore out h]
      rfl
  | cons b s ih =>
      rw [Checked.copyLoop, CBytes.copyLoop, hstore out h, hstore out h]
      split_ifs with hnext
      · have hroom : i + 1 < n := by
          rw [Bool.and_eq_true, decide_eq_true_eq] at hnext
          exact hnext.2
        exact ih hroom _
      · rfl

end Buffers

end CBytes
