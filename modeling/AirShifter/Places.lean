import Mathlib

/-!
# A Fixed Number of Places

The members of a type ask for a place and give it up again; one who asks gets a place while
there is room, and then holds it. This module compares two histories of requests of which the
second has one request more. From then on their holders differ by at most one member on
either side: `Gap` says by whom, and how the requests that follow change that.

## Main results

* `Gap.Fits.steps`, `Gap.Fits.run`: one request, and any requests, in both histories.
* `Gap.opened_spec`: the gap that the one request more opens.
* `Gap.grants_iff`: whether a member is granted a place depends on the history exactly where
  the gap decides it.
-/

namespace Places

variable {α : Type*}

/-! ### Requests -/

/-- A member asks for a place, or leaves. -/
inductive Request (α : Type*)
  | ask (x : α)
  | leave (x : α)

/-- `x` holds one of the `cap` places, or would get one. -/
def Grants (cap : ℕ) (held : Finset α) (x : α) : Prop :=
  x ∈ held ∨ held.card < cap

variable [DecidableEq α]

/-- The holders after a request. -/
def step (cap : ℕ) (held : Finset α) : Request α → Finset α
  | .ask x => if held.card < cap then insert x held else held
  | .leave x => held.erase x

/-- The holders after requests. -/
def run (cap : ℕ) (held : Finset α) (rs : List (Request α)) : Finset α :=
  rs.foldl (step cap) held

/-- A request never takes the places beyond their number. -/
theorem card_step_le {cap : ℕ} {held : Finset α} (h : held.card ≤ cap) (r : Request α) :
    (step cap held r).card ≤ cap := by
  cases r with
  | ask x =>
      rw [step]
      split_ifs with hroom
      · exact (Finset.card_insert_le x held).trans hroom
      · exact h
  | leave x => exact Finset.card_erase_le.trans h

/-- One who holds a place can ask again. -/
theorem step_ask_of_mem {cap : ℕ} {held : Finset α} {x : α} (h : x ∈ held) :
    step cap held (.ask x) = held := by
  rw [step, Finset.insert_eq_of_mem h, ite_self]

/-! ### The gap -/

/-- How the holders of the second history differ from those of the first: not at all; by `g`,
who holds a place in the second only; by `g` in the place of `h`; by `h`, who holds a place in
the first only. -/
inductive Gap (α : Type*)
  | none
  | more (g : α)
  | swapped (h g : α)
  | fewer (h : α)

/-- The holders of the second history, from those of the first. -/
def Gap.apply : Gap α → Finset α → Finset α
  | .none, held => held
  | .more g, held => insert g held
  | .swapped h g, held => insert g (held.erase h)
  | .fewer h, held => held.erase h

/-- The gap fits the holders of the first history: neither history has more than `cap`
holders, and the members named are on their side only. -/
def Gap.Fits (cap : ℕ) (held : Finset α) : Gap α → Prop
  | .none => held.card ≤ cap
  | .more g => g ∉ held ∧ held.card < cap
  | .swapped h g => h ∈ held ∧ g ∉ held ∧ held.card ≤ cap
  | .fewer h => h ∈ held ∧ held.card ≤ cap

/-- The gap after a request, made when the first history has the holders `held`. -/
def Gap.step (cap : ℕ) (held : Finset α) : Gap α → Request α → Gap α
  | .none, _ => .none
  | .more g, .ask x =>
    if x = g then .none
    else if x ∉ held ∧ held.card + 1 = cap then .swapped x g
    else .more g
  | .more g, .leave x => if x = g then .none else .more g
  | .swapped h g, .ask x =>
    if held.card = cap then .swapped h g
    else if x = h then .more g
    else if x = g then .fewer h
    else .swapped h g
  | .swapped h g, .leave x => if x = h then .more g else if x = g then .fewer h else .swapped h g
  | .fewer h, .ask x =>
    if x = h then .none
    else if x ∉ held ∧ held.card = cap then .swapped h x
    else .fewer h
  | .fewer h, .leave x => if x = h then .none else .fewer h

variable {cap : ℕ} {held : Finset α} {d : Gap α}

/-- With room left, whoever asks gets a place. -/
theorem step_ask_of_room {x : α} (h : held.card < cap) :
    step cap held (.ask x) = insert x held :=
  if_pos h

/-- With no room left, nobody does. -/
theorem step_ask_of_full {x : α} (h : cap ≤ held.card) : step cap held (.ask x) = held :=
  if_neg (not_lt.mpr h)

/-- One request across a gap: the gap that follows is right, and fits. -/
def Gap.Steps (cap : ℕ) (held : Finset α) (d : Gap α) (r : Request α) : Prop :=
  Places.step cap (d.apply held) r = (d.step cap held r).apply (Places.step cap held r) ∧
    (d.step cap held r).Fits cap (Places.step cap held r)

/-- A request when one more holds a place in the second history. -/
theorem Gap.steps_more_ask {g : α} (hg : g ∉ held) (hroom : held.card < cap) (x : α) :
    (Gap.more g).Steps cap held (.ask x) := by
  have hcard : (insert g held).card = held.card + 1 := Finset.card_insert_of_notMem hg
  rw [Gap.Steps, step_ask_of_room hroom]
  dsimp only [Gap.apply, Gap.step]
  by_cases hxg : x = g
  · rw [if_pos hxg, hxg, step_ask_of_mem (Finset.mem_insert_self g held)]
    exact ⟨rfl, by rw [Gap.Fits, hcard]; exact hroom⟩
  rw [if_neg hxg]
  have hgx : g ∉ insert x held := Finset.mem_insert.not.mpr (not_or.mpr ⟨Ne.symm hxg, hg⟩)
  by_cases hx : x ∈ held
  · rw [if_neg fun hlast => hlast.1 hx, step_ask_of_mem (Finset.mem_insert_of_mem hx),
      Finset.insert_eq_of_mem hx]
    exact ⟨rfl, hg, hroom⟩
  have hcardx : (insert x held).card = held.card + 1 := Finset.card_insert_of_notMem hx
  by_cases hlast : held.card + 1 = cap
  · -- `x` takes the last place in the first history and finds none in the second
    rw [if_pos ⟨hx, hlast⟩, step_ask_of_full (by omega)]
    refine ⟨?_, Finset.mem_insert_self x held, hgx, by omega⟩
    dsimp only [Gap.apply]
    rw [Finset.erase_insert hx]
  · rw [if_neg fun h => hlast h.2, step_ask_of_room (by omega)]
    exact ⟨Finset.insert_comm x g held, hgx, by omega⟩

/-- A request when one place is held by different ones. -/
theorem Gap.steps_swapped_ask {h g : α} (hh : h ∈ held) (hg : g ∉ held) (hle : held.card ≤ cap)
    (x : α) : (Gap.swapped h g).Steps cap held (.ask x) := by
  have hgh : g ≠ h := fun hgh => hg (hgh ▸ hh)
  have hcard : (insert g (held.erase h)).card = held.card := by
    rw [Finset.card_insert_of_notMem fun hmem => hg (Finset.mem_of_mem_erase hmem),
      Finset.card_erase_add_one hh]
  rw [Gap.Steps]
  dsimp only [Gap.apply, Gap.step]
  by_cases hfull : held.card = cap
  · rw [if_pos hfull, step_ask_of_full (by omega), step_ask_of_full (by omega)]
    exact ⟨rfl, hh, hg, hle⟩
  rw [if_neg hfull, step_ask_of_room (by omega), step_ask_of_room (by omega)]
  by_cases hxh : x = h
  · rw [if_pos hxh, hxh, Finset.insert_comm, Finset.insert_erase hh, Finset.insert_eq_of_mem hh]
    exact ⟨rfl, hg, by omega⟩
  rw [if_neg hxh]
  have hswap : insert x (insert g (held.erase h)) = insert g ((insert x held).erase h) := by
    rw [Finset.insert_comm, Finset.erase_insert_of_ne hxh]
  have hcardx := Finset.card_insert_le x held
  by_cases hxg : x = g
  · rw [if_pos hxg, hswap, hxg]
    refine ⟨Finset.insert_eq_of_mem ?_, Finset.mem_insert_of_mem hh, by rw [← hxg]; omega⟩
    exact Finset.mem_erase.mpr ⟨hgh, Finset.mem_insert_self g held⟩
  · rw [if_neg hxg]
    exact ⟨hswap, Finset.mem_insert_of_mem hh,
      Finset.mem_insert.not.mpr (not_or.mpr ⟨Ne.symm hxg, hg⟩), by omega⟩

/-- A request when one less holds a place in the second history. -/
theorem Gap.steps_fewer_ask {h : α} (hh : h ∈ held) (hle : held.card ≤ cap) (x : α) :
    (Gap.fewer h).Steps cap held (.ask x) := by
  have hcard : (held.erase h).card + 1 = held.card := Finset.card_erase_add_one hh
  rw [Gap.Steps]
  dsimp only [Gap.apply, Gap.step]
  rw [step_ask_of_room (by omega : (held.erase h).card < cap)]
  by_cases hxh : x = h
  · rw [if_pos hxh, hxh, step_ask_of_mem hh, Finset.insert_erase hh]
    exact ⟨rfl, hle⟩
  rw [if_neg hxh]
  by_cases hx : x ∈ held
  · rw [if_neg fun hfull => hfull.1 hx, step_ask_of_mem hx,
      Finset.insert_eq_of_mem (Finset.mem_erase.mpr ⟨hxh, hx⟩)]
    exact ⟨rfl, hh, hle⟩
  by_cases hfull : held.card = cap
  · -- `x` finds no place in the first history and takes the one of `h` in the second
    rw [if_pos ⟨hx, hfull⟩, step_ask_of_full (by omega)]
    exact ⟨rfl, hh, hx, hle⟩
  · have hcardx := Finset.card_insert_le x held
    rw [if_neg fun h => hfull h.2, step_ask_of_room (by omega)]
    refine ⟨?_, Finset.mem_insert_of_mem hh, by omega⟩
    dsimp only [Gap.apply]
    rw [Finset.erase_insert_of_ne hxh]

/-- Someone leaves, across any gap. -/
theorem Gap.steps_leave (hd : d.Fits cap held) (x : α) : d.Steps cap held (.leave x) := by
  have hcard : (held.erase x).card ≤ held.card := Finset.card_erase_le
  rw [Gap.Steps]
  cases d with
  | none => exact ⟨rfl, hcard.trans hd⟩
  | more g =>
      obtain ⟨hg, hroom⟩ := hd
      dsimp only [Gap.apply, Gap.step, Places.step]
      by_cases hxg : x = g
      · rw [if_pos hxg, hxg, Finset.erase_insert hg, Finset.erase_eq_of_notMem hg]
        exact ⟨rfl, hroom.le⟩
      · rw [if_neg hxg]
        exact ⟨Finset.erase_insert_of_ne (Ne.symm hxg),
          fun hmem => hg (Finset.mem_of_mem_erase hmem), by omega⟩
  | swapped h g =>
      obtain ⟨hh, hg, hle⟩ := hd
      have hgh : g ≠ h := fun hgh => hg (hgh ▸ hh)
      have hge : g ∉ held.erase h := fun hmem => hg (Finset.mem_of_mem_erase hmem)
      dsimp only [Gap.apply, Gap.step, Places.step]
      by_cases hxh : x = h
      · have hless := Finset.card_erase_add_one hh
        rw [if_pos hxh, hxh, Finset.erase_insert_of_ne hgh, Finset.erase_idem]
        exact ⟨rfl, hge, by omega⟩
      rw [if_neg hxh]
      by_cases hxg : x = g
      · rw [if_pos hxg, hxg, Finset.erase_insert hge, Finset.erase_eq_of_notMem hg]
        exact ⟨rfl, hh, hle⟩
      · rw [if_neg hxg]
        refine ⟨?_, Finset.mem_erase.mpr ⟨Ne.symm hxh, hh⟩,
          fun hmem => hg (Finset.mem_of_mem_erase hmem), by omega⟩
        dsimp only [Gap.apply]
        rw [Finset.erase_insert_of_ne (Ne.symm hxg), Finset.erase_right_comm]
  | fewer h =>
      obtain ⟨hh, hle⟩ := hd
      dsimp only [Gap.apply, Gap.step, Places.step]
      by_cases hxh : x = h
      · rw [if_pos hxh, hxh, Finset.erase_idem]
        exact ⟨rfl, Finset.card_erase_le.trans hle⟩
      · rw [if_neg hxh]
        exact ⟨Finset.erase_right_comm, Finset.mem_erase.mpr ⟨Ne.symm hxh, hh⟩, by omega⟩

/-- **One request in both histories** leads to the gap after the request, and that fits
again. -/
theorem Gap.Fits.steps (hd : d.Fits cap held) (r : Request α) : d.Steps cap held r := by
  cases r with
  | leave x => exact Gap.steps_leave hd x
  | ask x =>
      cases d with
      | none => exact ⟨rfl, card_step_le hd _⟩
      | more g => exact Gap.steps_more_ask hd.1 hd.2 x
      | swapped h g => exact Gap.steps_swapped_ask hd.1 hd.2.1 hd.2.2 x
      | fewer h => exact Gap.steps_fewer_ask hd.1 hd.2 x

/-! ### Runs -/

/-- The gap after requests. -/
def Gap.run (cap : ℕ) : Finset α → Gap α → List (Request α) → Gap α
  | _, d, [] => d
  | held, d, r :: rs => Gap.run cap (Places.step cap held r) (d.step cap held r) rs

/-- A longer run of requests. -/
theorem run_concat (cap : ℕ) (held : Finset α) (rs : List (Request α)) (r : Request α) :
    run cap held (rs ++ [r]) = step cap (run cap held rs) r :=
  List.foldl_append ..

/-- **Any requests in both histories** lead to the gap after them. -/
theorem Gap.Fits.run (hd : d.Fits cap held) (rs : List (Request α)) :
    Places.run cap (d.apply held) rs = (Gap.run cap held d rs).apply (Places.run cap held rs) ∧
      (Gap.run cap held d rs).Fits cap (Places.run cap held rs) := by
  induction rs generalizing held d with
  | nil => exact ⟨rfl, hd⟩
  | cons r rs ih =>
      obtain ⟨happly, hfits⟩ := hd.steps r
      rw [Places.run, List.foldl_cons, happly]
      exact ih hfits

/-- A gap that is closed stays closed. -/
theorem Gap.run_none (cap : ℕ) (held : Finset α) (rs : List (Request α)) :
    Gap.run cap held .none rs = .none := by
  induction rs generalizing held with
  | nil => rfl
  | cons r rs ih => exact ih _

/-- The gap that one request of `g` more opens. -/
def Gap.opened (cap : ℕ) (held : Finset α) (g : α) : Gap α :=
  if g ∉ held ∧ held.card < cap then .more g else .none

/-- The gap that a request opens leads to what the request leaves. -/
theorem Gap.opened_spec (h : held.card ≤ cap) (g : α) :
    (Gap.opened cap held g).apply held = Places.step cap held (.ask g) ∧
      (Gap.opened cap held g).Fits cap held := by
  rw [Gap.opened]
  split_ifs with hopen
  · rw [step_ask_of_room hopen.2]
    exact ⟨rfl, hopen⟩
  · refine ⟨?_, h⟩
    by_cases hg : g ∈ held
    · rw [step_ask_of_mem hg]
      rfl
    · rw [step_ask_of_full (not_lt.mp fun hroom => hopen ⟨hg, hroom⟩)]
      rfl

/-! ### Where the gap shows -/

/-- The gap decides whether `x` is granted a place: `x` would take the last one, which `g`
holds in the second history; or it is one of the two swapped members, and all places are
taken; or it is new, and the place that `h` holds in the first history is the only free one in
the second. -/
def Gap.Decides (cap : ℕ) (held : Finset α) : Gap α → α → Prop
  | .none, _ => False
  | .more g, x => x ≠ g ∧ x ∉ held ∧ held.card + 1 = cap
  | .swapped h g, x => (x = h ∨ x = g) ∧ held.card = cap
  | .fewer _, x => x ∉ held ∧ held.card = cap

instance (cap : ℕ) (held : Finset α) :
    ∀ (d : Gap α) (x : α), Decidable (d.Decides cap held x)
  | .none, _ => inferInstanceAs (Decidable False)
  | .more _, _ => inferInstanceAs (Decidable (_ ∧ _ ∧ _))
  | .swapped _ _, _ => inferInstanceAs (Decidable (_ ∧ _))
  | .fewer _, _ => inferInstanceAs (Decidable (_ ∧ _))

/-- **A member is granted a place in both histories or in neither**, except where the gap
decides it. -/
theorem Gap.grants_iff (hd : d.Fits cap held) (x : α) :
    (Grants cap held x ↔ Grants cap (d.apply held) x) ↔ ¬ d.Decides cap held x := by
  cases d with
  | none => exact ⟨fun _ => id, fun _ => Iff.rfl⟩
  | more g =>
      obtain ⟨hg, hroom⟩ := hd
      have hfirst : Grants cap held x := Or.inr hroom
      rw [iff_true_left hfirst]
      dsimp only [Grants, Gap.apply, Gap.Decides]
      rw [Finset.mem_insert, Finset.card_insert_of_notMem hg]
      constructor
      · rintro ((hxg | hx) | hlt) ⟨hne, hnot, hlast⟩
        · exact hne hxg
        · exact hnot hx
        · omega
      · intro hnot
        by_contra hno
        rw [not_or, not_or] at hno
        exact hnot ⟨hno.1.1, hno.1.2, by omega⟩
  | swapped h g =>
      obtain ⟨hh, hg, hle⟩ := hd
      have hgh : g ≠ h := fun hgh => hg (hgh ▸ hh)
      have hcard : (insert g (held.erase h)).card = held.card := by
        rw [Finset.card_insert_of_notMem fun hmem => hg (Finset.mem_of_mem_erase hmem),
          Finset.card_erase_add_one hh]
      dsimp only [Grants, Gap.apply, Gap.Decides]
      rw [Finset.mem_insert, Finset.mem_erase, hcard]
      by_cases hfull : held.card = cap
      · rw [hfull]
        by_cases hxh : x = h
        · simp [hxh, hh, Ne.symm hgh]
        · by_cases hxg : x = g
          · simp [hxg, hg]
          · simp [hxh, hxg]
      · have hroom : held.card < cap := by omega
        simp [hfull, hroom]
  | fewer h =>
      obtain ⟨hh, hle⟩ := hd
      have hcard : (held.erase h).card + 1 = held.card := Finset.card_erase_add_one hh
      have hsecond : Grants cap (held.erase h) x := Or.inr (by omega)
      rw [Gap.apply, iff_true_right hsecond]
      dsimp only [Grants, Gap.Decides]
      rw [not_and_or, not_not]
      exact or_congr_right (by omega)

end Places
