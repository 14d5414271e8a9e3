import Mathlib

/-!
# Fixed Slot Tables with First-Match Lookup

Embedded code often keeps a small map as a fixed array of entries. An entry carries its
own key, some keys mark the entry as free, a lookup scans the array and returns the
first entry with the wanted key, an allocation takes the first free entry. This module
develops such tables over an arbitrary entry type: `key` reads the key of an entry and
`free` tells the keys that mark a free slot.

As long as no two slots carry the same non-free key (`Distinct`), the table *is* a map
on the non-free keys, whatever the free slots hold and in whatever order the slots
stand.

## Main results

* `entryOf_eq_some_iff`: lookup of a non-free key finds exactly the entries of the table.
* `entryOf_set`: one rule for the lookup after any single-slot write, be it an update in
  place, an allocation, or a release.
* `Distinct.set`: the writes that keep the table distinct.
* `entryOf_map`: the lookup after a sweep over all slots that frees some of them.
* `card_occupied_lt_iff`: the table has a free slot exactly when fewer than `n`
  non-free keys are present.
-/

namespace SlotTable

variable {α κ : Type*} {n : ℕ}

/-! ### The search loop -/

/-- The search loop over the slots: the first index whose entry satisfies `p`. -/
def first (p : α → Bool) (t : Vector α n) : Option (Fin n) :=
  Fin.find? fun i => p t[i]

/-- The first slot with a property has it, and none before. -/
theorem first_eq_some_iff {p : α → Bool} {t : Vector α n} {i : Fin n} :
    first p t = some i ↔ p t[i] = true ∧ ∀ j, j < i → p t[j] = false := by
  rw [first, Fin.find?_eq_some_iff]

/-- There is none exactly if no slot has the property. -/
theorem first_eq_none_iff {p : α → Bool} {t : Vector α n} :
    first p t = none ↔ ∀ i : Fin n, p t[i] = false := by
  rw [first, Fin.find?_eq_none_iff]

/-- There is one exactly if some slot has the property. -/
theorem isSome_first_iff {p : α → Bool} {t : Vector α n} :
    (first p t).isSome = true ↔ ∃ i : Fin n, p t[i] = true := by
  rw [← not_iff_not, Bool.not_eq_true, Option.isSome_eq_false_iff, Option.isNone_iff_eq_none,
    first_eq_none_iff]
  simp

/-- The entry found by a successful search satisfies the search condition. -/
theorem first_spec {p : α → Bool} {t : Vector α n} {i : Fin n} (h : first p t = some i) :
    p t[i] = true :=
  (first_eq_some_iff.mp h).1

/-- Reading a slot after a write. -/
theorem get_set (t : Vector α n) (i j : Fin n) (e : α) :
    (t.set i e)[j] = if i = j then e else t[j] := by
  simp [Vector.getElem_set, Fin.ext_iff]

/-- Overwriting the slot found by an entry that still satisfies the condition leaves the
search result as it is. -/
theorem first_set_self {p : α → Bool} {t : Vector α n} {i : Fin n} {e : α}
    (h : first p t = some i) (he : p e = true) : first p (t.set i e) = some i := by
  obtain ⟨-, hlt⟩ := first_eq_some_iff.mp h
  refine first_eq_some_iff.mpr ⟨by rwa [get_set, if_pos rfl], fun j hj => ?_⟩
  rw [get_set, if_neg (ne_of_gt hj)]
  exact hlt j hj

/-- Overwriting a slot behind the one found leaves the search result as it is. -/
theorem first_set_of_lt {p : α → Bool} {t : Vector α n} {i z : Fin n} (e : α)
    (h : first p t = some z) (hz : z < i) : first p (t.set i e) = some z := by
  obtain ⟨hpz, hlt⟩ := first_eq_some_iff.mp h
  refine first_eq_some_iff.mpr ⟨by rwa [get_set, if_neg (ne_of_gt hz)], fun j hj => ?_⟩
  rw [get_set, if_neg (ne_of_gt (hj.trans hz))]
  exact hlt j hj

/-- Overwriting a slot that fails the condition by an entry that fails it leaves the
search result as it is. -/
theorem first_set_of_neg {p : α → Bool} {t : Vector α n} {i : Fin n} {e : α}
    (hi : p t[i] = false) (he : p e = false) : first p (t.set i e) = first p t := by
  have hpt : ∀ j : Fin n, p (t.set i e)[j] = p t[j] := by
    intro j
    rw [get_set]
    split_ifs with hij
    · rw [← hij, hi, he]
    · rfl
  rw [first, first]
  exact congrArg Fin.find? (funext hpt)

/-- After an entry was overwritten by one that satisfies the condition, the search finds it,
or what it found before, in front of it. -/
theorem first_set_of_pos {p : α → Bool} (t : Vector α n) (i : Fin n) {e : α} (he : p e = true) :
    first p (t.set i e) = some i ∨
      ∃ z, z < i ∧ first p (t.set i e) = some z ∧ first p t = some z := by
  have hi : p (t.set i e)[i] = true := by rwa [get_set, if_pos rfl]
  obtain ⟨z, hz⟩ := Option.isSome_iff_exists.mp (isSome_first_iff.mpr ⟨i, hi⟩)
  obtain ⟨hpz, hlt⟩ := first_eq_some_iff.mp hz
  rcases lt_trichotomy z i with hlo | rfl | hhi
  · refine Or.inr ⟨z, hlo, hz, first_eq_some_iff.mpr ⟨?_, fun j hj => ?_⟩⟩
    · rwa [get_set, if_neg (ne_of_gt hlo)] at hpz
    · have hj' := hlt j hj
      rwa [get_set, if_neg (ne_of_gt (hj.trans hlo))] at hj'
  · exact Or.inl hz
  · rw [hlt i hhi] at hi
    exact absurd hi Bool.false_ne_true

/-- Filling a slot that does not count adds its new entry to those that count. -/
theorem filter_set_perm {p : α → Bool} {l : List α} {i : ℕ} {x e : α} (hi : l[i]? = some x)
    (hx : p x = false) (he : p e = true) : ((l.set i e).filter p).Perm (e :: l.filter p) := by
  induction l generalizing i with
  | nil => exact absurd hi (by simp)
  | cons y l ih =>
      cases i with
      | zero =>
          obtain rfl : y = x := Option.some.inj hi
          rw [List.set_cons_zero, List.filter_cons_of_pos he,
            List.filter_cons_of_neg (by rw [hx]; exact Bool.false_ne_true)]
      | succ i =>
          have htail := ih (i := i) hi
          rw [List.set_cons_succ, List.filter_cons, List.filter_cons]
          split_ifs
          · exact (htail.cons y).trans (List.Perm.swap e y _)
          · exact htail

/-! ### Tables keyed by their entries -/

section Keyed

variable [DecidableEq κ] (key : α → κ) (free : κ → Prop)

/-- The slot found by looking up the key `k`. -/
def slotOf (t : Vector α n) (k : κ) : Option (Fin n) :=
  first (fun e => key e == k) t

/-- The entry found by looking up the key `k`. -/
def entryOf (t : Vector α n) (k : κ) : Option α :=
  (slotOf key t k).map fun i => t[i]

/-- No two slots carry the same non-free key. -/
def Distinct (t : Vector α n) : Prop :=
  ∀ i j : Fin n, ¬ free (key t[i]) → key t[i] = key t[j] → i = j

variable {key free}

/-- A key has no slot exactly if no slot has the key. -/
theorem slotOf_eq_none_iff {t : Vector α n} {k : κ} :
    slotOf key t k = none ↔ ∀ i : Fin n, key t[i] ≠ k := by
  simp [slotOf, first_eq_none_iff]

/-- The slot of a key has the key. -/
theorem key_of_slotOf {t : Vector α n} {k : κ} {i : Fin n} (h : slotOf key t k = some i) :
    key t[i] = k := by
  simpa using first_spec h

/-- In a distinct table the search for a non-free key finds the one slot that carries
it. -/
theorem slotOf_eq_some_iff {t : Vector α n} (hd : Distinct key free t) {k : κ}
    (hk : ¬ free k) {i : Fin n} : slotOf key t k = some i ↔ key t[i] = k := by
  constructor
  · exact key_of_slotOf
  · intro hi
    rw [slotOf, first_eq_some_iff]
    refine ⟨by simpa using hi, fun j hj => ?_⟩
    by_contra hc
    have hjk : key t[j] = k := by simpa using hc
    exact absurd (hd i j (by rwa [hi]) (by rw [hi, hjk])) (ne_of_gt hj)

/-- A key has no entry exactly if no slot has the key. -/
theorem entryOf_eq_none_iff {t : Vector α n} {k : κ} :
    entryOf key t k = none ↔ ∀ i : Fin n, key t[i] ≠ k := by
  rw [entryOf, Option.map_eq_none_iff, slotOf_eq_none_iff]

/-- Lookup of a non-free key finds exactly the entries of the table. -/
theorem entryOf_eq_some_iff {t : Vector α n} (hd : Distinct key free t) {k : κ}
    (hk : ¬ free k) {e : α} :
    entryOf key t k = some e ↔ ∃ i : Fin n, t[i] = e ∧ key e = k := by
  rw [entryOf, Option.map_eq_some_iff]
  constructor
  · rintro ⟨i, hi, rfl⟩
    exact ⟨i, rfl, key_of_slotOf hi⟩
  · rintro ⟨i, rfl, hi⟩
    exact ⟨i, (slotOf_eq_some_iff hd hk).mpr hi, rfl⟩

omit [DecidableEq κ] in
/-- **Writing a slot keeps the table distinct** if the new entry is free, keeps the key
of the slot, or brings a key that no slot carries. -/
theorem Distinct.set {t : Vector α n} (hd : Distinct key free t) {i : Fin n} {e : α}
    (h : free (key e) ∨ key e = key t[i] ∨ ∀ j : Fin n, key t[j] ≠ key e) :
    Distinct key free (t.set i e) := by
  intro a b ha hab
  rw [get_set] at ha hab
  rw [get_set] at hab
  by_cases hia : i = a <;> by_cases hib : i = b
  · exact hia.symm.trans hib
  · rw [if_pos hia] at ha hab
    rw [if_neg hib] at hab
    rcases h with h | h | h
    · exact absurd h ha
    · exact hia ▸ hd i b (h ▸ ha) (h ▸ hab)
    · exact absurd hab.symm (h b)
  · rw [if_neg hia] at ha hab
    rw [if_pos hib] at hab
    rcases h with h | h | h
    · exact absurd (hab ▸ h) ha
    · exact hib ▸ hd a i ha (hab.trans h)
    · exact absurd hab (h a)
  · rw [if_neg hia] at ha hab
    rw [if_neg hib] at hab
    exact hd a b ha hab

/-- **Lookup after a write.** The written key finds the new entry, the key the slot
carried before is gone unless it is the written one, every other key is untouched. -/
theorem entryOf_set {t : Vector α n} (hd : Distinct key free t) {i : Fin n} {e : α}
    (hd' : Distinct key free (t.set i e)) {k : κ} (hk : ¬ free k) :
    entryOf key (t.set i e) k =
      if key e = k then some e else if key t[i] = k then none else entryOf key t k := by
  split_ifs with he hi
  · exact (entryOf_eq_some_iff hd' hk).mpr ⟨i, by rw [get_set, if_pos rfl], he⟩
  · rw [entryOf_eq_none_iff]
    intro j hj
    rw [get_set] at hj
    by_cases hij : i = j
    · exact he (by rwa [if_pos hij] at hj)
    · rw [if_neg hij] at hj
      exact hij (hd i j (by rwa [hi]) (by rw [hi, hj]))
  · apply Option.ext
    intro x
    rw [entryOf_eq_some_iff hd' hk, entryOf_eq_some_iff hd hk]
    constructor
    · rintro ⟨j, rfl, hj⟩
      rw [get_set] at hj ⊢
      by_cases hij : i = j
      · exact absurd (by rwa [if_pos hij] at hj) he
      · exact ⟨j, by rw [if_neg hij], hj⟩
    · rintro ⟨j, rfl, hj⟩
      have hij : i ≠ j := fun h => hi (by rw [h, hj])
      exact ⟨j, by rw [get_set, if_neg hij], hj⟩

omit [DecidableEq κ] in
/-- **A sweep keeps the table distinct** if it leaves every key alone or frees it. -/
theorem Distinct.map {t : Vector α n} (hd : Distinct key free t) {f : α → α}
    (hf : ∀ e, free (key (f e)) ∨ key (f e) = key e) : Distinct key free (t.map f) := by
  intro i j hi hij
  simp only [Fin.getElem_fin, Vector.getElem_map] at hi hij
  have hei := (hf _).resolve_left hi
  have hej := (hf _).resolve_left (hij ▸ hi)
  rw [hei] at hi
  rw [hei, hej] at hij
  exact hd i j hi hij

/-- **Lookup after a sweep** that leaves every key alone or frees it. -/
theorem entryOf_map {t : Vector α n} (hd : Distinct key free t) {f : α → α}
    (hf : ∀ e, free (key (f e)) ∨ key (f e) = key e) {k : κ} (hk : ¬ free k) :
    entryOf key (t.map f) k =
      (entryOf key t k).bind fun e => if key (f e) = k then some (f e) else none := by
  apply Option.ext
  intro x
  rw [entryOf_eq_some_iff (hd.map hf) hk, Option.bind_eq_some_iff]
  constructor
  · rintro ⟨i, rfl, hi⟩
    simp only [Fin.getElem_fin, Vector.getElem_map] at hi ⊢
    have hkey := (hf _).resolve_left (hi ▸ hk)
    exact ⟨t[i], (entryOf_eq_some_iff hd hk).mpr ⟨i, rfl, hkey.symm.trans hi⟩, if_pos hi⟩
  · rintro ⟨e, he, hx⟩
    obtain ⟨i, rfl, hi⟩ := (entryOf_eq_some_iff hd hk).mp he
    split_ifs at hx with hfk
    obtain rfl := Option.some.inj hx
    exact ⟨i, by simp, hfk⟩

/-! ### Free slots -/

variable [DecidablePred free]

/-- The first free slot. -/
def freeSlot (key : α → κ) (free : κ → Prop) [DecidablePred free] (t : Vector α n) :
    Option (Fin n) :=
  first (fun e => decide (free (key e))) t

omit [DecidableEq κ] in
/-- A free slot is free. -/
theorem free_of_freeSlot {t : Vector α n} {i : Fin n} (h : freeSlot key free t = some i) :
    free (key t[i]) := by
  simpa using first_spec h

/-- The non-free keys present in the table. -/
def occupied (key : α → κ) (free : κ → Prop) [DecidablePred free] (t : Vector α n) :
    Finset κ :=
  (Finset.univ.filter fun i : Fin n => ¬ free (key t[i])).image fun i => key t[i]

/-- The occupied keys are those that have an entry and are not free. -/
theorem mem_occupied {t : Vector α n} {k : κ} :
    k ∈ occupied key free t ↔ ¬ free k ∧ (entryOf key t k).isSome = true := by
  have hsome : (entryOf key t k).isSome = true ↔ ∃ i : Fin n, key t[i] = k := by
    rw [← not_iff_not, Bool.not_eq_true, Option.isSome_eq_false_iff,
      Option.isNone_iff_eq_none, entryOf_eq_none_iff]
    simp
  rw [hsome]
  simp only [occupied, Finset.mem_image, Finset.mem_filter, Finset.mem_univ, true_and]
  constructor
  · rintro ⟨i, hi, rfl⟩
    exact ⟨hi, i, rfl⟩
  · rintro ⟨hk, i, rfl⟩
    exact ⟨i, hk, rfl⟩

/-- **Room.** A distinct table has a free slot exactly when fewer than `n` non-free keys
are present. -/
theorem card_occupied_lt_iff {t : Vector α n} (hd : Distinct key free t) :
    (occupied key free t).card < n ↔ (freeSlot key free t).isSome = true := by
  have hcard : (occupied key free t).card =
      (Finset.univ.filter fun i : Fin n => ¬ free (key t[i])).card := by
    refine Finset.card_image_of_injOn ?_
    intro i hi j _ hij
    exact hd i j (by simpa using hi) hij
  rw [hcard, freeSlot, isSome_first_iff]
  constructor
  · intro hlt
    by_contra hc
    push Not at hc
    have hall : (Finset.univ.filter fun i : Fin n => ¬ free (key t[i])) = Finset.univ := by
      rw [Finset.filter_eq_self]
      intro i _
      simpa using hc i
    rw [hall, Finset.card_univ, Fintype.card_fin] at hlt
    exact absurd hlt (lt_irrefl n)
  · rintro ⟨i, hi⟩
    have hlt := Finset.card_lt_univ_of_notMem
      (s := Finset.univ.filter fun i : Fin n => ¬ free (key t[i])) (x := i)
      (by simpa using hi)
    rwa [Fintype.card_fin] at hlt

end Keyed

end SlotTable
