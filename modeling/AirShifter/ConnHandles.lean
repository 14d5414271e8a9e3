import AirShifter.AuthTable
import AirShifter.Runs

/-!
# Tracked Connections

`gatt_svr.c` keeps a table of two connection handles of its own, beside the tables of
`security.c` and `biz_logix.c`. Other than those two it is written by explicit calls only,
and it does not look for a handle before it adds it.

## Main results

* `connHandles_refine`: along every sequence of calls the table is a bag of at most two
  handles, and every call returns what it returns for the bag.
-/

open Runs SlotTable

namespace AirShifter

/-! ### The functions -/

/-- `MAX_CONNECTIONS` of `gatt_svr.c`. -/
abbrev maxConnections : ℕ := 2

/-- `conn_handles`. -/
abbrev ConnHandles := Vector UInt16 maxConnections

/-- `conn_handles` at start-up. -/
def initConnHandles : ConnHandles :=
  Vector.replicate _ bleHsConnHandleNone

/-- `add_connection_handle`: the table, and the return value. -/
def addConnectionHandle (t : ConnHandles) (connHandle : UInt16) : ConnHandles × ℤ :=
  match first (· == bleHsConnHandleNone) t with
  | some i => (t.set i connHandle, (i : ℕ))
  | none => (t, -1)

/-- `remove_connection_handle`. -/
def removeConnectionHandle (t : ConnHandles) (connHandle : UInt16) : ConnHandles :=
  t.map fun h => if h = connHandle then bleHsConnHandleNone else h

/-- `count_active_connections`. -/
def countActiveConnections (t : ConnHandles) : ℤ :=
  t.toList.foldl (fun count h => if h ≠ bleHsConnHandleNone then count + 1 else count) 0

/-- `get_connection_index`. -/
def getConnectionIndex (t : ConnHandles) (connHandle : UInt16) : ℤ :=
  match first (· == connHandle) t with
  | some i => (i : ℕ)
  | none => -1

/-! ### Sequences of calls -/

/-- A call that writes the table. -/
inductive ConnCall
  | add (connHandle : UInt16)
  | remove (connHandle : UInt16)

/-- The effect of a call. -/
def connStep (t : ConnHandles) : ConnCall → ConnHandles
  | .add h => (addConnectionHandle t h).1
  | .remove h => removeConnectionHandle t h

/-- The table after a sequence of calls. -/
def connAfter (es : List ConnCall) : ConnHandles :=
  es.foldl connStep initConnHandles

/-- The bag: a handle that is added joins it, if it has room and the handle is one; a handle
that is removed leaves it, however often it was added. -/
def bagStep (bag : Multiset UInt16) : ConnCall → Multiset UInt16
  | .add h =>
    if Multiset.card bag < maxConnections ∧ h ≠ bleHsConnHandleNone then h ::ₘ bag else bag
  | .remove h => bag.filter (· ≠ h)

/-- The bag after a sequence of calls. -/
def bagAfter (es : List ConnCall) : Multiset UInt16 :=
  es.foldl bagStep 0

/-- The handles in the table. -/
def active (t : ConnHandles) : Multiset UInt16 :=
  (t.toList.filter (· ≠ bleHsConnHandleNone) : List UInt16)

/-! ### One call -/

section Table

variable {t : ConnHandles}

/-- A search finds a handle exactly if it stands in the table. -/
theorem isSome_first_handle (h : UInt16) : (first (· == h) t).isSome = true ↔ h ∈ t.toList := by
  rw [isSome_first_iff, Vector.mem_toList_iff, Vector.mem_iff_getElem]
  constructor
  · rintro ⟨i, hi⟩
    exact ⟨i, i.2, beq_iff_eq.mp hi⟩
  · rintro ⟨i, hi, rfl⟩
    exact ⟨⟨i, hi⟩, beq_self_eq_true _⟩

/-- There is room exactly if a slot is free. -/
theorem card_active_lt_iff :
    Multiset.card (active t) < maxConnections ↔ bleHsConnHandleNone ∈ t.toList := by
  have hlen := List.length_filter_lt_length_iff_exists (l := t.toList)
    (p := fun h => decide (h ≠ bleHsConnHandleNone))
  rw [t.length_toList] at hlen
  rw [active, Multiset.coe_card, hlen]
  simp

/-- An active handle is one in a slot. -/
theorem mem_active {h : UInt16} (hh : h ≠ bleHsConnHandleNone) : h ∈ active t ↔ h ∈ t.toList := by
  rw [active, Multiset.mem_coe, List.mem_filter, and_iff_left (decide_eq_true hh)]

/-- **Adding** a handle to the table adds it to the bag. -/
theorem active_addConnectionHandle (h : UInt16) :
    active (addConnectionHandle t h).1 = bagStep (active t) (.add h) := by
  have hroom := card_active_lt_iff (t := t)
  rw [← isSome_first_handle] at hroom
  rw [bagStep, addConnectionHandle]
  cases hfirst : first (· == bleHsConnHandleNone) t with
  | none =>
      rw [hfirst] at hroom
      rw [if_neg fun hc => absurd (hroom.mp hc.1) Bool.false_ne_true]
  | some i =>
      rw [hfirst] at hroom
      have hfree : t.toList[(i : ℕ)]? = some bleHsConnHandleNone := by
        rw [List.getElem?_eq_getElem (by rw [t.length_toList]; exact i.2), Vector.getElem_toList]
        exact congrArg some (beq_iff_eq.mp (first_spec hfirst))
      dsimp only
      rw [active, active, Vector.toList_set]
      by_cases hh : h = bleHsConnHandleNone
      · obtain ⟨hi, hget⟩ := List.getElem?_eq_some_iff.mp hfree
        have hsame : t.toList.set i h = t.toList := by
          rw [hh, ← hget]
          exact List.set_getElem_self hi
        rw [if_neg fun hc => hc.2 hh, hsame]
      · rw [if_pos ⟨hroom.mpr rfl, hh⟩, Multiset.cons_coe, Multiset.coe_eq_coe]
        exact filter_set_perm hfree (by simp) (decide_eq_true hh)

/-- **Removing** a handle from the table removes it from the bag. -/
theorem active_removeConnectionHandle (h : UInt16) :
    active (removeConnectionHandle t h) = bagStep (active t) (.remove h) := by
  rw [bagStep, active, active, removeConnectionHandle, Vector.toList_map, Multiset.filter_coe]
  congr 1
  induction t.toList with
  | nil => rfl
  | cons x l ih =>
      rw [List.map_cons]
      by_cases hx : x = h
      · -- a removed handle does not count before, and not after
        rw [if_pos hx, List.filter_cons_of_neg (by simp), ih, List.filter_cons]
        split_ifs
        · rw [List.filter_cons_of_neg (by simp [hx])]
        · rfl
      · rw [if_neg hx, List.filter_cons, List.filter_cons, ih]
        split_ifs
        · rw [List.filter_cons_of_pos (by simp [hx])]
        · rfl

/-- The count is the number of active handles. -/
theorem countActiveConnections_eq : countActiveConnections t = Multiset.card (active t) := by
  have hcount : ∀ (l : List UInt16) (n : ℤ),
      l.foldl (fun count h => if h ≠ bleHsConnHandleNone then count + 1 else count) n =
        n + (l.filter (· ≠ bleHsConnHandleNone)).length := by
    intro l
    induction l with
    | nil => simp
    | cons x l ih =>
        intro n
        rw [List.foldl_cons, ih]
        by_cases hx : x ≠ bleHsConnHandleNone
        · rw [if_pos hx, List.filter_cons_of_pos (by simpa using hx), List.length_cons]
          omega
        · rw [if_neg hx, List.filter_cons_of_neg (by simpa using hx)]
  rw [countActiveConnections, hcount, zero_add, active, Multiset.coe_card]

end Table

/-! ### The bag -/

/-- **The table is a bag** of at most two handles. After every sequence of calls it holds the
handles of the bag; `add_connection_handle` finds a slot exactly if the bag has room,
`count_active_connections` counts the bag, and `get_connection_index` finds exactly its
handles. -/
theorem connHandles_refine (es : List ConnCall) :
    active (connAfter es) = bagAfter es ∧ Multiset.card (bagAfter es) ≤ maxConnections ∧
      (∀ h, 0 ≤ (addConnectionHandle (connAfter es) h).2 ↔
        Multiset.card (bagAfter es) < maxConnections) ∧
      countActiveConnections (connAfter es) = Multiset.card (bagAfter es) ∧
      ∀ h, h ≠ bleHsConnHandleNone →
        (0 ≤ getConnectionIndex (connAfter es) h ↔ h ∈ bagAfter es) := by
  have hbag : active (connAfter es) = bagAfter es := by
    induction es using List.reverseRecOn with
    | nil => rfl
    | append_singleton es e ih =>
        rw [connAfter, bagAfter, List.foldl_append, List.foldl_append, ← connAfter, ← bagAfter,
          ← ih]
        cases e with
        | add h => exact active_addConnectionHandle h
        | remove h => exact active_removeConnectionHandle h
  rw [← hbag]
  refine ⟨rfl, ?_, fun h => ?_, countActiveConnections_eq, fun h hh => ?_⟩
  · rw [active, Multiset.coe_card]
    exact (List.length_filter_le _ _).trans_eq (connAfter es).length_toList
  · rw [card_active_lt_iff, ← isSome_first_handle, addConnectionHandle]
    cases first (· == bleHsConnHandleNone) (connAfter es) with
    | none => simp
    | some i => simp
  · rw [mem_active hh, ← isSome_first_handle, getConnectionIndex]
    cases first (· == h) (connAfter es) with
    | none => simp
    | some i => simp

end AirShifter
