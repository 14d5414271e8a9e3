import AirShifter.AuthTable
import AirShifter.Places

/-!
# What a Query of the Authentication Table Does to Later Answers

`biz_is_authenticated` looks its handle up with the function that also allocates, so a query
for an unknown handle takes one of the four slots. Two runs of the table are compared, of
which the second has one query more. Their answers are those of two histories of requests for
four places, and the gap between them says where they differ.

## Main results

* `queryUnseen_iff_grants`: a query is unseen exactly if every later verification with the
  right key is granted a slot in both runs or in neither.
* `holders_query`: the holders of the two runs differ by the gap.
* `queryUnseen_of_takes_none`: a query that takes no slot is unseen.
* `query_unseen_iff`: a query is unseen exactly if the gap decides no later verification with
  the right key.
-/

open CBytes SlotTable Runs Places

namespace AirShifter

/-! ### Calls as requests for a slot -/

/-- The handle a call is about. -/
def AuthCall.handle : AuthCall → UInt16
  | .verify h _ | .query h | .clear h => h

/-- What a call returns; a clear returns nothing. -/
def authAnswer (t : AuthTable) : AuthCall → Option Bool
  | .verify h key => some (bizVerifyAuthKey t h key).2
  | .query h => some (bizIsAuthenticated t h).2
  | .clear _ => none

/-- What a call asks of the slots. -/
def AuthCall.request : AuthCall → Request UInt16
  | .verify h _ | .query h => .ask h
  | .clear h => .leave h

/-- A query takes a place like any request. -/
theorem takeSlot_eq {h : UInt16} (hh : ¬ FreeHandle h) (held : Finset UInt16) :
    takeSlot held h = Places.step maxBleConnections held (.ask h) := by
  rw [takeSlot, Places.step, if_congr (and_iff_right hh) rfl rfl]

/-- A call is a request for a place, or gives one back. -/
theorem holdStep_eq {e : AuthCall} (he : ¬ FreeHandle e.handle) (held : Finset UInt16) :
    holdStep held e = Places.step maxBleConnections held e.request := by
  cases e with
  | verify h key => exact takeSlot_eq he held
  | query h => exact takeSlot_eq he held
  | clear h => rfl

/-- The holders after calls on handles that are not reserved. -/
theorem holders_append (pre : List AuthCall) {mid : List AuthCall}
    (hmid : ∀ e ∈ mid, ¬ FreeHandle e.handle) :
    holders (pre ++ mid) =
      Places.run maxBleConnections (holders pre) (mid.map AuthCall.request) := by
  induction mid using List.reverseRecOn with
  | nil => rw [List.append_nil]; rfl
  | append_singleton mid e ih =>
      rw [← List.append_assoc, holders_concat, List.map_append, List.map_singleton, run_concat,
        ih fun x hx => hmid x (List.mem_append_left _ hx),
        holdStep_eq (hmid e (List.mem_append_right _ List.mem_cons_self))]

/-- No more handles hold a slot than there are. -/
theorem card_holders_le (es : List AuthCall) : (holders es).card ≤ maxBleConnections := by
  refine foldl_history (I := fun _ (held : Finset UInt16) => held.card ≤ maxBleConnections)
    (by decide) ?_ es
  intro pre e ih
  rw [← holders] at ih ⊢
  have htake : ∀ h, (takeSlot (holders pre) h).card ≤ maxBleConnections := by
    intro h
    by_cases hh : FreeHandle h
    · rw [takeSlot, if_neg fun hc => hc.1 hh]
      exact ih
    · rw [takeSlot_eq hh]
      exact card_step_le ih _
  cases e with
  | verify h key => exact htake h
  | query h => exact htake h
  | clear h => exact Finset.card_erase_le.trans ih

/-! ### A query that is not seen -/

/-- **The query of `g` after the calls `pre` is not seen** by the calls `post`: each of them
returns the same with and without it. -/
def QueryUnseen (pre : List AuthCall) (g : UInt16) (post : List AuthCall) : Prop :=
  ∀ mid e rest, post = mid ++ e :: rest →
    authAnswer (authAfter (pre ++ mid)) e = authAnswer (authAfter (pre ++ .query g :: mid)) e

/-- A verification with the key of the device is granted a slot in both runs or in neither. -/
def GrantedAlike (pre : List AuthCall) (g : UInt16) (post : List AuthCall) : Prop :=
  ∀ mid h rest, post = mid ++ .verify h (some deviceAuthKey) :: rest →
    (Grants maxBleConnections (holders (pre ++ mid)) h ↔
      Grants maxBleConnections (holders (pre ++ .query g :: mid)) h)

variable {pre post : List AuthCall} {g : UInt16}

/-- If verifications are granted alike, they are answered alike. -/
theorem GrantedAlike.verify_eq (halike : GrantedAlike pre g post) {mid rest : List AuthCall}
    {h : UInt16} {key : Option Bytes} (hsplit : post = mid ++ .verify h key :: rest)
    (hh : ¬ FreeHandle h) : (bizVerifyAuthKey (authAfter (pre ++ mid)) h key).2 =
      (bizVerifyAuthKey (authAfter (pre ++ .query g :: mid)) h key).2 := by
  rw [Bool.eq_iff_iff, bizVerifyAuthKey_authAfter _ hh, bizVerifyAuthKey_authAfter _ hh]
  refine and_congr_right fun hkey => ?_
  subst hkey
  exact halike mid h rest hsplit

/-- Then the same handles are verified after each call. -/
theorem GrantedAlike.verifiedSince_iff (halike : GrantedAlike pre g post)
    {mid rest : List AuthCall} (hsplit : post = mid ++ rest) {h : UInt16} (hh : ¬ FreeHandle h) :
    VerifiedSince (pre ++ mid) h ↔ VerifiedSince (pre ++ .query g :: mid) h := by
  induction mid using List.reverseRecOn generalizing rest with
  | nil =>
      rw [List.append_nil, verifiedSince_concat, or_iff_right nofun, and_iff_right nofun]
  | append_singleton mid e ih =>
      rw [List.append_assoc, List.singleton_append] at hsplit
      rw [← List.append_assoc, ← List.cons_append, ← List.append_assoc, verifiedSince_concat,
        verifiedSince_concat, ih hsplit]
      refine or_congr_left (exists_congr fun key => and_congr_right fun he => ?_)
      subst he
      rw [halike.verify_eq hsplit hh]

/-- **A query is unseen exactly if the verifications that follow are granted alike.** -/
theorem queryUnseen_iff_grants (hpost : ∀ e ∈ post, ¬ FreeHandle e.handle) :
    QueryUnseen pre g post ↔ GrantedAlike pre g post := by
  constructor
  · intro hunseen mid h rest hsplit
    have hh : ¬ FreeHandle h := hpost (.verify h (some deviceAuthKey)) (by simp [hsplit])
    have hanswer := Option.some.inj (hunseen mid (.verify h (some deviceAuthKey)) rest hsplit)
    rw [Bool.eq_iff_iff, bizVerifyAuthKey_authAfter _ hh, bizVerifyAuthKey_authAfter _ hh,
      and_iff_right rfl, and_iff_right rfl] at hanswer
    exact hanswer
  · intro halike mid e rest hsplit
    have hh : ¬ FreeHandle e.handle := hpost e (by simp [hsplit])
    cases e with
    | verify h key => exact congrArg some (halike.verify_eq hsplit hh)
    | query h =>
        replace hh : ¬ FreeHandle h := hh
        refine congrArg some ?_
        rw [Bool.eq_iff_iff, bizIsAuthenticated_authAfter _ hh, bizIsAuthenticated_authAfter _ hh,
          halike.verifiedSince_iff hsplit hh]
    | clear h => rfl

/-! ### The gap that a query opens -/

/-- The gap between the holders right after the calls `pre` and after one query of `g`
more. -/
def gapOpened (pre : List AuthCall) (g : UInt16) : Places.Gap UInt16 :=
  if FreeHandle g then .none else .opened maxBleConnections (holders pre) g

/-- The gap once the calls `mid` followed. -/
def gapAfter (pre : List AuthCall) (g : UInt16) (mid : List AuthCall) : Places.Gap UInt16 :=
  (gapOpened pre g).run maxBleConnections (holders pre) (mid.map AuthCall.request)

/-- The gap that a query opens leads to what the query leaves. -/
theorem gapOpened_spec (pre : List AuthCall) (g : UInt16) :
    (gapOpened pre g).apply (holders pre) = takeSlot (holders pre) g ∧
      (gapOpened pre g).Fits maxBleConnections (holders pre) := by
  have hcard := card_holders_le pre
  rw [gapOpened]
  split_ifs with hg
  · rw [takeSlot, if_neg fun h => h.1 hg]
    exact ⟨rfl, hcard⟩
  · rw [takeSlot_eq hg]
    exact Gap.opened_spec hcard g

/-- **The holders of the two runs differ by the gap.** -/
theorem holders_query (pre : List AuthCall) (g : UInt16) {mid : List AuthCall}
    (hmid : ∀ e ∈ mid, ¬ FreeHandle e.handle) :
    holders (pre ++ .query g :: mid) = (gapAfter pre g mid).apply (holders (pre ++ mid)) ∧
      (gapAfter pre g mid).Fits maxBleConnections (holders (pre ++ mid)) := by
  obtain ⟨hopened, hfits⟩ := gapOpened_spec pre g
  have hquery : holders (pre ++ [.query g]) = (gapOpened pre g).apply (holders pre) := by
    rw [holders_concat, hopened]
    rfl
  rw [List.append_cons, holders_append _ hmid, holders_append _ hmid, hquery]
  exact hfits.run _

/-- **A query that takes no slot is unseen**: one of a reserved handle, of a handle that holds
a slot, or with all slots taken. -/
theorem queryUnseen_of_takes_none (hpost : ∀ e ∈ post, ¬ FreeHandle e.handle)
    (hnone : FreeHandle g ∨ g ∈ holders pre ∨ (holders pre).card = maxBleConnections) :
    QueryUnseen pre g post := by
  have hclosed : gapOpened pre g = .none := by
    rw [gapOpened, Gap.opened]
    split_ifs with hg hopen
    · rfl
    · rcases hnone with hfree | hheld | hfull
      · exact absurd hfree hg
      · exact absurd hheld hopen.1
      · omega
    · rfl
  refine (queryUnseen_iff_grants hpost).mpr fun mid h rest hsplit => ?_
  have hmid : ∀ e ∈ mid, ¬ FreeHandle e.handle := fun e he => hpost e (by simp [hsplit, he])
  rw [(holders_query pre g hmid).1, gapAfter, hclosed, Gap.run_none, Gap.apply]

/-- **Exactly when a query has no influence.** One query more after the calls `pre` changes
no answer of the calls `post` if and only if no verification with the right key among them is
for a handle whose slot the gap decides. -/
theorem query_unseen_iff (pre post : List AuthCall) (g : UInt16)
    (hcalls : ∀ e ∈ pre ++ post, ¬ FreeHandle e.handle) :
    QueryUnseen pre g post ↔
      ∀ mid h rest, post = mid ++ .verify h (some deviceAuthKey) :: rest →
        ¬ (gapAfter pre g mid).Decides maxBleConnections (holders (pre ++ mid)) h := by
  have hpost : ∀ e ∈ post, ¬ FreeHandle e.handle :=
    fun e he => hcalls e (List.mem_append_right _ he)
  rw [queryUnseen_iff_grants hpost]
  refine forall_congr' fun mid => forall_congr' fun h => forall_congr' fun rest =>
    forall_congr' fun hsplit => ?_
  have hmid : ∀ e ∈ mid, ¬ FreeHandle e.handle := fun e he => hpost e (by simp [hsplit, he])
  obtain ⟨happly, hfits⟩ := holders_query pre g hmid
  rw [happly]
  exact Gap.grants_iff hfits h

/-- With room for both, the query of one handle does not keep out the other. -/
theorem query_unseen_iff_room :
    QueryUnseen [.verify 1 (some deviceAuthKey)] 2 [.verify 3 (some deviceAuthKey)] := by
  refine (query_unseen_iff [.verify 1 (some deviceAuthKey)] [.verify 3 (some deviceAuthKey)] 2
    (by decide)).mpr fun mid h rest hsplit => ?_
  cases mid with
  | nil =>
      obtain ⟨hverify, -⟩ := List.cons.inj hsplit
      obtain ⟨rfl, -⟩ := AuthCall.verify.inj hverify
      decide
  | cons e mid => exact absurd (List.cons.inj hsplit).2 (by simp)

/-- **A query keeps out a handle that comes after it**: three handles hold slots; with a query
of 9 in between, the verification of 4 with the right key fails. -/
theorem query_locks_out :
    (∀ e ∈ [AuthCall.query 1, .query 2, .query 3, .verify 4 (some deviceAuthKey)],
      ¬ FreeHandle e.handle) ∧
    (bizVerifyAuthKey (authAfter [.query 1, .query 2, .query 3]) 4
      (some deviceAuthKey)).2 = true ∧
    (bizVerifyAuthKey (authAfter [.query 1, .query 2, .query 3, .query 9]) 4
      (some deviceAuthKey)).2 = false ∧
    ¬ QueryUnseen [.query 1, .query 2, .query 3] 9 [.verify 4 (some deviceAuthKey)] := by
  have hwithout : (bizVerifyAuthKey (authAfter [.query 1, .query 2, .query 3]) 4
      (some deviceAuthKey)).2 = true := by
    decide
  have hwith : (bizVerifyAuthKey (authAfter [.query 1, .query 2, .query 3, .query 9]) 4
      (some deviceAuthKey)).2 = false := by
    decide
  refine ⟨by decide, hwithout, hwith, fun hunseen => ?_⟩
  have hanswer := Option.some.inj (hunseen [] (.verify 4 (some deviceAuthKey)) [] rfl)
  rw [List.append_nil, hwithout] at hanswer
  exact absurd (hanswer.trans hwith) (by decide)

end AirShifter
