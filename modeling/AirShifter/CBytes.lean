import Mathlib

/-!
# Bytes and Buffers of a C Program

Byte strings are lists of `UInt8`, a C array of bytes is a `Vector UInt8 n`, and a
pointer into a string is the rest of the string from that position on. A string handed
to one of the functions below is the text before its terminating NUL.
-/

namespace CBytes

/-- A string of bytes. -/
abbrev Bytes := List UInt8

/-- A property of all elements of a list is decided along the list, also where the element
type is finite, as bytes and handles are, and could be enumerated instead. -/
instance (priority := high) instDecidableForallMem {α : Type*} {p : α → Prop} [DecidablePred p]
    (l : List α) : Decidable (∀ x ∈ l, p x) :=
  List.decidableBAll p l

/-- The bytes of an ASCII literal. -/
def ascii (s : String) : Bytes :=
  s.toList.map fun c => UInt8.ofNat c.toNat

/-- The bytes of a 32-bit word in memory, little-endian. -/
def leBytes (r : UInt32) : Bytes :=
  [r.toUInt8, (r >>> 8).toUInt8, (r >>> 16).toUInt8, (r >>> 24).toUInt8]

/-- A word has four bytes. -/
@[simp] theorem length_leBytes (r : UInt32) : (leBytes r).length = 4 := rfl

/-- The 32-bit word with the given bytes in memory, little-endian. -/
def leWord (b : Bytes) : UInt32 :=
  b.foldr (fun b w => w <<< 8 ||| b.toUInt32) 0

/-- A word that is shifted by a byte, with the byte put in. -/
theorem toNat_shiftLeft_or (w : UInt32) (b : UInt8) :
    (w <<< 8 ||| b.toUInt32).toNat = 2 ^ 8 * (w.toNat % 2 ^ 24) + b.toNat := by
  have h8 : (8 : UInt32).toNat % 32 = 8 := rfl
  have hcut : w.toNat * 2 ^ 8 % 2 ^ 32 = (w.toNat % 2 ^ 24) * 2 ^ 8 := by omega
  rw [UInt32.toNat_or, UInt32.toNat_shiftLeft, UInt8.toNat_toUInt32, h8, Nat.shiftLeft_eq, hcut,
    ← Nat.shiftLeft_eq, ← Nat.shiftLeft_add_eq_or_of_lt b.toNat_lt, Nat.shiftLeft_eq,
    Nat.mul_comm]

/-- **The bytes of a word read from memory** are those it was read from. -/
theorem leBytes_leWord {b : Bytes} (h : b.length = 4) : leBytes (leWord b) = b := by
  obtain ⟨x, y, z, t, rfl⟩ := List.length_eq_four.mp h
  have hx := x.toNat_lt
  have hy := y.toNat_lt
  have hz := z.toNat_lt
  have ht := t.toNat_lt
  have hw : (leWord [x, y, z, t]).toNat =
      2 ^ 8 * (2 ^ 8 * (2 ^ 8 * t.toNat + z.toNat) + y.toNat) + x.toNat := by
    simp only [leWord, List.foldr_cons, List.foldr_nil, toNat_shiftLeft_or, UInt32.toNat_zero]
    omega
  simp only [leBytes, List.cons.injEq, and_true, ← UInt8.toNat_inj, UInt32.toNat_toUInt8,
    UInt32.toNat_shiftRight, hw, UInt32.reduceToNat, Nat.reduceMod, Nat.shiftRight_eq_div_pow]
  omega

/-- `memcpy(&dst[off], src, |src|)`. -/
def memcpy {n : ℕ} (dst : Vector UInt8 n) (off : ℕ) (src : Bytes) : Vector UInt8 n :=
  Vector.ofFn fun i => if off ≤ i ∧ i < off + src.length then src.getD (i - off) 0 else dst.get i

/-- A copy changes the bytes of its range, and no others. -/
theorem getElem_memcpy {n : ℕ} (dst : Vector UInt8 n) (off : ℕ) (src : Bytes) {i : ℕ}
    (hi : i < n) : (memcpy dst off src)[i] =
      if off ≤ i ∧ i < off + src.length then src.getD (i - off) 0 else dst[i] := by
  simp [memcpy, Vector.get_eq_getElem]

/-- The bytes of consecutive little-endian words, indexed. -/
theorem getD_flatMap_leBytes (ws : List UInt32) (i : ℕ) :
    (ws.flatMap leBytes).getD i 0 = (leBytes (ws.getD (i / 4) 0)).getD (i % 4) 0 := by
  induction ws generalizing i with
  | nil =>
      have hlt : i % 4 < 4 := Nat.mod_lt _ (by omega)
      simp only [List.flatMap_nil, List.getD_nil]
      generalize i % 4 = k at hlt ⊢
      obtain rfl | rfl | rfl | rfl : k = 0 ∨ k = 1 ∨ k = 2 ∨ k = 3 := by omega
      all_goals rfl
  | cons w ws ih =>
      rw [List.flatMap_cons]
      by_cases hi : i < 4
      · rw [List.getD_append _ _ _ _ (by simpa using hi), Nat.div_eq_of_lt hi,
          Nat.mod_eq_of_lt hi, List.getD_cons_zero]
      · rw [List.getD_append_right _ _ _ _ (by simpa using hi), ih, length_leBytes]
        have hdiv : i / 4 = (i - 4) / 4 + 1 := by omega
        have hmod : i % 4 = (i - 4) % 4 := by omega
        rw [hdiv, hmod, List.getD_cons_succ]

end CBytes
