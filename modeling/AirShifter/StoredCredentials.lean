import AirShifter.Provisioning
import AirShifter.Runs

/-!
# Stored Credentials

The SSID and the password are stored under two keys, by two calls, and committed by a
third. Any of the calls can fail, and the power can go off between them; what was set may
then survive, key by key, whether it was committed or not. Nothing is rolled back.

So a pair can be torn: the new SSID next to the old password. This module says exactly in
which runs that does not happen.

## Main results

* `flashStep_message`, `flashStep_cut`: what a message leaves, by the call its store gets to.
* `PairsSent.flashStep`: a step that tears no pair keeps every pair that can survive among
  those that were sent together.
* `PairsSent.untorn_iff`: a step that tears a pair shows at once.
* `never_mixed_iff`: the runs along which the stored credentials are never mixed.
-/

open CBytes Runs

namespace AirShifter

/-! ### The storage -/

/-- The storage with its uncommitted writes: `f k n` is the string that key `k` has if the
latest `n` writes to it since the last commit are lost, `none` if it has none. -/
abbrev Flash := NvsKey → ℕ → Option Bytes

/-- The strings that the keys have now. -/
def Flash.visible (f : Flash) : NvsKey → Option Bytes :=
  fun k => f k 0

/-- The effect of an `nvs_set_str` that succeeds. -/
def Flash.setStr (f : Flash) (k : NvsKey) (s : Bytes) : Flash :=
  fun k' n => if k' = k then (match n with | 0 => some s | n + 1 => f k n) else f k' n

/-- A string that is set is the latest. -/
@[simp] theorem Flash.setStr_self_zero (f : Flash) (k : NvsKey) (s : Bytes) :
    f.setStr k s k 0 = some s :=
  if_pos rfl

/-- What was there stays behind it. -/
@[simp] theorem Flash.setStr_self_succ (f : Flash) (k : NvsKey) (s : Bytes) (n : ℕ) :
    f.setStr k s k (n + 1) = f k n :=
  if_pos rfl

/-- The other key is not changed. -/
@[simp] theorem Flash.setStr_of_ne {k k' : NvsKey} (h : k' ≠ k) (f : Flash) (s : Bytes) (n : ℕ) :
    f.setStr k s k' n = f k' n :=
  if_neg h

/-- The effect of an `nvs_commit` that succeeds: no write can be lost any more. -/
def Flash.commit (f : Flash) : Flash :=
  fun k _ => f k 0

/-- The power goes off, and of each key the latest `lost k` uncommitted writes are lost. -/
def Flash.powerLoss (f : Flash) (lost : NvsKey → ℕ) : Flash :=
  fun k _ => f k (lost k)

/-- A loss of power takes the latest strings of a key. -/
theorem Flash.powerLoss_apply (f : Flash) (lost : NvsKey → ℕ) (k : NvsKey) (n : ℕ) :
    f.powerLoss lost k n = f k (lost k) :=
  rfl

/-- The storage as a platform. -/
def flashNvs : Nvs Flash where
  setStr := Flash.setStr
  getStr f k n := mapNvs.getStr f.visible k n
  getStr_setStr_self f k _ _ h := by
    refine getStr_mapNvs_of_some ?_ h
    simp [Flash.visible, Flash.setStr]
  getStr_setStr_of_ne f k k' s n h := by
    simp [mapNvs, Flash.visible, Flash.setStr, h]

/-! ### Runs -/

/-- A message that the Wi-Fi task takes from the queue; the queue holds no others. -/
abbrev Message := {cred : WifiCredentials // cred.Consistent}

/-- The calls of `store_credentials_nvs`. -/
inductive StoreCall
  | nvsOpen | setSsid | setPass | commit

/-- The codes of a store that does not get past a call. -/
def StoreCall.stopped : StoreCall → StoreCodes
  | .nvsOpen => { nvsOpen := -1 }
  | .setSsid => { setSsid := -1 }
  | .setPass => { setPass := -1 }
  | .commit => { commit := -1 }

/-- What happens to the storage: the task takes a message and handles it; it takes a message
and the power goes off while it is stored, before the given call; the power goes off while
nothing is stored. The device boots after each loss of power. -/
inductive FlashEvent
  | message (cred : Message) (store : StoreCodes) (start : StartCodes)
  | cut (cred : Message) (call : StoreCall) (lost : NvsKey → ℕ)
  | boot (lost : NvsKey → ℕ)

/-- The effect of an event. A store that returns `ESP_OK` has committed; one that is cut
leaves what a store leaves that fails in this call. -/
def flashStep (f : Flash) : FlashEvent → Flash
  | .message cred store start =>
    let st := (wifiManagerStep flashNvs f store start cred.val).1
    if lengthsValid cred.val = true ∧
        (storeCredentialsNvs flashNvs f store cred.val.ssidStr cred.val.passStr).1 = espOk then
      st.commit
    else st
  | .cut cred call lost =>
    (wifiManagerStep flashNvs f call.stopped {} cred.val).1.powerLoss lost
  | .boot lost => f.powerLoss lost

/-- The storage after the events `es`, from an erased one. -/
def flashAfter (es : List FlashEvent) : Flash :=
  es.foldl flashStep fun _ _ => none

/-- The storage after a longer run. -/
theorem flashAfter_concat (es : List FlashEvent) (e : FlashEvent) :
    flashAfter (es ++ [e]) = flashStep (flashAfter es) e :=
  List.foldl_append ..

/-- The message that an event takes from the queue. -/
def FlashEvent.message? : FlashEvent → Option Message
  | .message cred _ _ => some cred
  | .cut cred _ _ => some cred
  | .boot _ => none

/-- Some message of the run holds both strings. -/
def Sent (es : List FlashEvent) (ssid pass : Bytes) : Prop :=
  ∃ cred ∈ es.filterMap FlashEvent.message?, cred.val.ssidStr = ssid ∧ cred.val.passStr = pass

/-- Two storages give the same result when they are loaded: the same code, and with
`ESP_OK` the same credential. -/
def SameLoad (f g : Flash) : Prop :=
  ∀ nvsOpen out,
    (loadCredentialsNvs flashNvs g nvsOpen out).1 = (loadCredentialsNvs flashNvs f nvsOpen out).1 ∧
      ((loadCredentialsNvs flashNvs f nvsOpen out).1 = espOk →
        (loadCredentialsNvs flashNvs g nvsOpen out).2 =
          (loadCredentialsNvs flashNvs f nvsOpen out).2)

/-- Loading a storage gives `ESP_OK` only with strings that were sent together. -/
def LoadsSent (es : List FlashEvent) (f : Flash) : Prop :=
  ∀ nvsOpen out, (loadCredentialsNvs flashNvs f nvsOpen out).1 = espOk →
    Sent es (loadCredentialsNvs flashNvs f nvsOpen out).2.ssidStr
      (loadCredentialsNvs flashNvs f nvsOpen out).2.passStr

/-- If an event is a store that returns an error, loading gives what it gave before. -/
def ErrorKeeps (f : Flash) (e : FlashEvent) : Prop :=
  ∀ cred store start, e = .message cred store start → lengthsValid cred.val = true →
    (storeCredentialsNvs flashNvs f store cred.val.ssidStr cred.val.passStr).1 ≠ espOk →
    SameLoad f (flashStep f e)

/-- **Stored credentials are never mixed** along a run: in every state of it a load that
succeeds finds a pair that was sent together, and a store that fails changes no load. -/
def NeverMixed (es : List FlashEvent) : Prop :=
  (∀ pre post, es = pre ++ post → LoadsSent pre (flashAfter pre)) ∧
    Along flashStep (fun _ _ => none) (fun _ f e => ErrorKeeps f e) es

/-! ### What a load finds -/

/-- The longest string that a key is read with. -/
def NvsKey.maxLen : NvsKey → ℕ
  | .ssid => wifiSsidMaxLen
  | .pass => wifiPassMaxLen

/-- Every string that the storage can come to hold is a C string that fits its field. -/
def Flash.Fits (f : Flash) : Prop :=
  ∀ k n, ∀ s ∈ f k n, 0 ∉ s ∧ s.length ≤ k.maxLen

/-- The two strings in the storage, if it has both. -/
def Flash.pair (f : Flash) : Option (Bytes × Bytes) :=
  (f .ssid 0).bind fun s => (f .pass 0).map fun p => (s, p)

/-- The stored pair are the latest strings of both keys. -/
theorem Flash.pair_eq_some_iff {f : Flash} {s p : Bytes} :
    f.pair = some (s, p) ↔ f .ssid 0 = some s ∧ f .pass 0 = some p := by
  rw [Flash.pair]
  cases f .ssid 0 <;> cases f .pass 0 <;> simp

variable {f g : Flash} {es : List FlashEvent}

/-- A stored pair is loaded. -/
theorem load_of_pair_some (hf : f.Fits) {s p : Bytes} (h : f.pair = some (s, p))
    (out : WifiCredentials) :
    loadCredentialsNvs flashNvs f espOk out = (espOk, loadedCred out s p) ∧
      (loadedCred out s p).Holds s p := by
  obtain ⟨hs, hp⟩ := Flash.pair_eq_some_iff.mp h
  obtain ⟨hs0, hslen⟩ := hf _ _ s hs
  obtain ⟨hp0, hplen⟩ := hf _ _ p hp
  exact ⟨load_of_getStr flashNvs (getStr_mapNvs_of_some hs (Nat.lt_succ_of_le hslen))
    (getStr_mapNvs_of_some hp (Nat.lt_succ_of_le hplen)) hs0 hp0 hslen hplen out,
    holds_loadedCred hs0 hp0 hslen hplen out⟩

/-- Without a stored pair the load reports that nothing was found. -/
theorem load_of_pair_none (hf : f.Fits) (h : f.pair = none) (out : WifiCredentials) :
    (loadCredentialsNvs flashNvs f espOk out).1 = 0x1102 := by
  have hget : ∀ k n, f k 0 = none → flashNvs.getStr f k n = (0x1102, []) :=
    fun k n hk => getStr_mapNvs_of_none hk n
  cases hs : f .ssid 0 with
  | none => simp [loadCredentialsNvs, hget .ssid _ hs]
  | some s =>
      have hp : f .pass 0 = none := by simpa [Flash.pair, hs] using h
      have hgets : flashNvs.getStr f .ssid (wifiSsidMaxLen + 1) = (espOk, s) :=
        getStr_mapNvs_of_some hs (Nat.lt_succ_of_le (hf _ _ s hs).2)
      simp [loadCredentialsNvs, hgets, hget .pass _ hp]

/-- The code of a load that does not open the storage. -/
theorem load_of_not_open {nvsOpen : EspErr} (h : nvsOpen ≠ espOk) (f : Flash)
    (out : WifiCredentials) : loadCredentialsNvs flashNvs f nvsOpen out = (nvsOpen, out) :=
  if_pos h

/-- **A load succeeds with the two strings that are stored**, and fails if one is missing. -/
theorem loadsSent_iff (hf : f.Fits) :
    LoadsSent es f ↔ ∀ s p, f.pair = some (s, p) → Sent es s p := by
  constructor
  · intro h s p hpair
    obtain ⟨hload, hcred⟩ := load_of_pair_some hf hpair {}
    have := h espOk {} (by rw [hload])
    rwa [hload, hcred.ssidStr_eq, hcred.passStr_eq] at this
  · intro h nvsOpen out hok
    by_cases hopen : nvsOpen = espOk
    · subst hopen
      rcases hpair : f.pair with - | ⟨s, p⟩
      · exact absurd ((load_of_pair_none hf hpair out).symm.trans hok) (by decide)
      · obtain ⟨hload, hcred⟩ := load_of_pair_some hf hpair out
        rw [hload, hcred.ssidStr_eq, hcred.passStr_eq]
        exact h s p hpair
    · rw [load_of_not_open hopen] at hok
      exact absurd hok hopen

/-- Two storages load the same exactly if they store the same pair. -/
theorem sameLoad_iff (hf : f.Fits) (hg : g.Fits) : SameLoad f g ↔ g.pair = f.pair := by
  constructor
  · intro h
    obtain ⟨hcode, hcred⟩ := h espOk {}
    rcases hpf : f.pair with - | ⟨s, p⟩ <;> rcases hpg : g.pair with - | ⟨s', p'⟩
    · rfl
    · rw [load_of_pair_none hf hpf, (load_of_pair_some hg hpg {}).1] at hcode
      exact absurd hcode (show espOk ≠ 0x1102 by decide)
    · rw [load_of_pair_none hg hpg, (load_of_pair_some hf hpf {}).1] at hcode
      exact absurd hcode (show 0x1102 ≠ espOk by decide)
    · obtain ⟨hlf, hcf⟩ := load_of_pair_some hf hpf {}
      obtain ⟨hlg, hcg⟩ := load_of_pair_some hg hpg {}
      rw [hlf, hlg] at hcred
      have hsame : loadedCred {} s' p' = loadedCred {} s p := hcred rfl
      have hs : s' = s := by rw [← hcg.ssidStr_eq, hsame, hcf.ssidStr_eq]
      have hp : p' = p := by rw [← hcg.passStr_eq, hsame, hcf.passStr_eq]
      rw [hs, hp]
  · intro h nvsOpen out
    by_cases hopen : nvsOpen = espOk
    · subst hopen
      rcases hpf : f.pair with - | ⟨s, p⟩
      · have hcf := load_of_pair_none hf hpf out
        rw [hcf, load_of_pair_none hg (h.trans hpf) out]
        exact ⟨rfl, fun hc => absurd hc (by decide)⟩
      · rw [(load_of_pair_some hf hpf out).1, (load_of_pair_some hg (h.trans hpf) out).1]
        exact ⟨rfl, fun _ => rfl⟩
    · rw [load_of_not_open hopen, load_of_not_open hopen]
      exact ⟨rfl, fun _ => rfl⟩

/-! ### Torn pairs -/

/-- The part of a store that goes through leaves the stored pair whole: nothing is set; the
SSID alone is set, but it is the one stored, or no password is; both are set and not
committed, but they are the ones stored; or the store goes through to the end. -/
def StoreWhole (f : Flash) (store : StoreCodes) (ssid pass : Bytes) : Prop :=
  (store.nvsOpen ≠ espOk ∨ store.setSsid ≠ espOk) ∨
  (store.setPass ≠ espOk ∧ (f .ssid 0 = some ssid ∨ f .pass 0 = none)) ∨
  (store.setPass = espOk ∧ store.commit ≠ espOk ∧
    f .ssid 0 = some ssid ∧ f .pass 0 = some pass) ∨
  (store.setPass = espOk ∧ store.commit = espOk)

section

variable {store : StoreCodes} {ssid pass : Bytes} (h : StoreWhole f store ssid pass)
  (hset : store.nvsOpen = espOk ∧ store.setSsid = espOk)

include h hset

/-- If only the SSID was set, it was there before, or there was no password. -/
theorem StoreWhole.ssid_of_not_setPass (hpass : store.setPass ≠ espOk) :
    f .ssid 0 = some ssid ∨ f .pass 0 = none := by
  rcases h with (h | h) | ⟨-, h⟩ | ⟨h, -⟩ | ⟨h, -⟩
  · exact absurd hset.1 h
  · exact absurd hset.2 h
  · exact h
  · exact absurd h hpass
  · exact absurd h hpass

/-- If the commit failed, both strings were there before. -/
theorem StoreWhole.both_of_not_committed (hpass : store.setPass = espOk)
    (hcommit : store.commit ≠ espOk) : f .ssid 0 = some ssid ∧ f .pass 0 = some pass := by
  rcases h with (h | h) | ⟨h, -⟩ | ⟨-, -, h⟩ | ⟨-, h⟩
  · exact absurd hset.1 h
  · exact absurd hset.2 h
  · exact absurd hpass h
  · exact h
  · exact absurd h hcommit

end

/-- If one of the two new strings survives a loss of power and the other does not, the old
string that the other key then has, if any, was sent together with it. -/
def CutWhole (es : List FlashEvent) (f : Flash) (call : StoreCall) (lost : NvsKey → ℕ)
    (ssid pass : Bytes) : Prop :=
  match call with
  | .nvsOpen => True
  | .setSsid => True
  | .setPass => lost .ssid = 0 → ∀ p ∈ f .pass (lost .pass), Sent es ssid p
  | .commit =>
    (∀ n, lost .ssid = 0 → lost .pass = n + 1 → ∀ p ∈ f .pass n, Sent es ssid p) ∧
      ∀ n, lost .pass = 0 → lost .ssid = n + 1 → ∀ s ∈ f .ssid n, Sent es s pass

/-- An event that tears no pair. -/
def Untorn (pre : List FlashEvent) (f : Flash) : FlashEvent → Prop
  | .message cred store _ => lengthsValid cred.val = true →
      StoreWhole f store cred.val.ssidStr cred.val.passStr
  | .cut cred call lost => lengthsValid cred.val = true →
      CutWhole (pre ++ [.cut cred call lost]) f call lost cred.val.ssidStr cred.val.passStr
  | .boot _ => True

/-- Every pair that the storage can come to hold was sent together, every string in it fits,
and a key that has no string never had one. -/
structure PairsSent (es : List FlashEvent) (f : Flash) : Prop where
  fits : f.Fits
  sent : ∀ n m, ∀ s ∈ f .ssid n, ∀ p ∈ f .pass m, Sent es s p
  unset : ∀ k n, f k 0 = none → f k n = none

/-- A message sends its own strings. -/
theorem sent_self {e : FlashEvent} {cred : Message} (he : e.message? = some cred) :
    Sent (es ++ [e]) cred.val.ssidStr cred.val.passStr :=
  ⟨cred, by simp [he], rfl, rfl⟩

/-- A pair that was sent stays sent. -/
theorem Sent.concat {s p : Bytes} (h : Sent es s p) (e : FlashEvent) : Sent (es ++ [e]) s p := by
  obtain ⟨cred, hmem, hcred⟩ := h
  refine ⟨cred, ?_, hcred⟩
  rw [List.filterMap_append]
  exact List.mem_append_left _ hmem

/-! ### What an event leaves -/

/-- The storage in which both strings of a message are set. -/
def Flash.setBoth (f : Flash) (cred : Message) : Flash :=
  (f.setStr .ssid cred.val.ssidStr).setStr .pass cred.val.passStr

/-- A store succeeds exactly if all of its calls do. -/
theorem storeCredentialsNvs_fst_eq_ok {σ : Type*} (nvs : Nvs σ) (st : σ) (rc : StoreCodes)
    (ssid pass : Bytes) : (storeCredentialsNvs nvs st rc ssid pass).1 = espOk ↔
      rc.nvsOpen = espOk ∧ rc.setSsid = espOk ∧ rc.setPass = espOk ∧ rc.commit = espOk := by
  rw [storeCredentialsNvs]
  by_cases hopen : rc.nvsOpen = espOk <;> by_cases hset : rc.setSsid = espOk <;>
    by_cases hpass : rc.setPass = espOk <;> by_cases hcommit : rc.commit = espOk <;>
    simp [hopen, hset, hpass, hcommit]

/-- What a message leaves, by the call that its store gets to. -/
theorem flashStep_message (f : Flash) (cred : Message) (store : StoreCodes) (start : StartCodes) :
    flashStep f (.message cred store start) =
      if lengthsValid cred.val = true ∧ store.nvsOpen = espOk ∧ store.setSsid = espOk then
        if store.setPass = espOk then
          if store.commit = espOk then (f.setBoth cred).commit else f.setBoth cred
        else f.setStr .ssid cred.val.ssidStr
      else f := by
  rw [flashStep, wifiManagerStep_fst, storeCredentialsNvs_snd]
  simp only [storeCredentialsNvs_fst_eq_ok]
  by_cases hvalid : lengthsValid cred.val = true <;> by_cases hopen : store.nvsOpen = espOk <;>
    by_cases hset : store.setSsid = espOk <;> by_cases hpass : store.setPass = espOk <;>
    by_cases hcommit : store.commit = espOk <;>
    simp [hvalid, hopen, hset, hpass, hcommit, Flash.setBoth, flashNvs]

/-- What is left if the power goes off while a message is stored. -/
theorem flashStep_cut (f : Flash) (cred : Message) (call : StoreCall) (lost : NvsKey → ℕ) :
    flashStep f (.cut cred call lost) =
      if lengthsValid cred.val = true then
        match call with
        | .nvsOpen => f.powerLoss lost
        | .setSsid => f.powerLoss lost
        | .setPass => (f.setStr .ssid cred.val.ssidStr).powerLoss lost
        | .commit => (f.setBoth cred).powerLoss lost
      else f.powerLoss lost := by
  rw [flashStep, wifiManagerStep_fst, storeCredentialsNvs_snd]
  cases lengthsValid cred.val <;> cases call <;> rfl

/-- The strings of a message fit. -/
theorem fits_message (cred : Message) :
    (0 ∉ cred.val.ssidStr ∧ cred.val.ssidStr.length ≤ wifiSsidMaxLen) ∧
      0 ∉ cred.val.passStr ∧ cred.val.passStr.length ≤ wifiPassMaxLen := by
  obtain ⟨cred, hcons⟩ := cred
  exact ⟨⟨zero_notMem_cstr _, hcons.ssidLen_eq ▸ hcons.ssidLen_le⟩, zero_notMem_cstr _,
    hcons.passLen_eq ▸ hcons.passLen_le⟩

/-- A string that fits keeps the storage fitting. -/
theorem Flash.Fits.setStr (hf : f.Fits) {k : NvsKey} {s : Bytes}
    (hs : 0 ∉ s ∧ s.length ≤ k.maxLen) : (f.setStr k s).Fits := by
  intro k' n x hx
  by_cases hk : k' = k
  · subst hk
    cases n with
    | zero =>
        rw [Flash.setStr_self_zero] at hx
        exact Option.some.inj hx ▸ hs
    | succ n =>
        rw [Flash.setStr_self_succ] at hx
        exact hf _ n x hx
  · rw [Flash.setStr_of_ne hk] at hx
    exact hf k' n x hx

/-- So do the two strings of a message. -/
theorem Flash.Fits.setBoth (hf : f.Fits) (cred : Message) : (f.setBoth cred).Fits :=
  (hf.setStr (fits_message cred).1).setStr (fits_message cred).2

/-- So does a loss of power. -/
theorem Flash.Fits.powerLoss (hf : f.Fits) (lost : NvsKey → ℕ) : (f.powerLoss lost).Fits :=
  fun k _ => hf k (lost k)

/-- A commit is a loss of power in which nothing is lost. -/
theorem Flash.commit_eq (f : Flash) : f.commit = f.powerLoss fun _ => 0 :=
  rfl

/-- So does any event. -/
theorem Flash.Fits.flashStep (hf : f.Fits) (e : FlashEvent) : (flashStep f e).Fits := by
  cases e with
  | message cred store start =>
      rw [flashStep_message]
      split_ifs
      · exact (hf.setBoth cred).powerLoss _
      · exact hf.setBoth cred
      · exact hf.setStr (fits_message cred).1
      · exact hf
  | cut cred call lost =>
      rw [flashStep_cut]
      split_ifs
      · cases call with
        | nvsOpen => exact hf.powerLoss lost
        | setSsid => exact hf.powerLoss lost
        | setPass => exact (hf.setStr (fits_message cred).1).powerLoss lost
        | commit => exact (hf.setBoth cred).powerLoss lost
      · exact hf.powerLoss lost
  | boot lost => exact hf.powerLoss lost

/-! ### One event -/

/-- Pairs that were sent stay sent. -/
theorem PairsSent.concat (hf : PairsSent es f) (e : FlashEvent) : PairsSent (es ++ [e]) f :=
  ⟨hf.fits, fun n m s hs p hp => (hf.sent n m s hs p hp).concat e, hf.unset⟩

/-- What survives a loss of power was there before. -/
theorem PairsSent.powerLoss (hf : PairsSent es f) (lost : NvsKey → ℕ) :
    PairsSent es (f.powerLoss lost) :=
  ⟨hf.fits.powerLoss lost, fun _ _ s hs p hp => hf.sent _ _ s hs p hp, fun _ _ h => h⟩

/-- What survives a loss of power is one pair. -/
theorem pairsSent_powerLoss (hf : f.Fits) {lost : NvsKey → ℕ}
    (hsent : ∀ s ∈ f .ssid (lost .ssid), ∀ p ∈ f .pass (lost .pass), Sent es s p) :
    PairsSent es (f.powerLoss lost) :=
  ⟨hf.powerLoss lost, fun _ _ => hsent, fun _ _ h => h⟩

/-- Setting a string that the other key's strings were sent with. -/
theorem PairsSent.setSsid (hf : PairsSent es f) {ssid : Bytes}
    (hfit : 0 ∉ ssid ∧ ssid.length ≤ wifiSsidMaxLen)
    (hsent : ∀ m, ∀ p ∈ f .pass m, Sent es ssid p) : PairsSent es (f.setStr .ssid ssid) where
  fits := hf.fits.setStr hfit
  sent n m s hs p hp := by
    rw [Flash.setStr_of_ne (by decide)] at hp
    cases n with
    | zero => exact Option.some.inj hs ▸ hsent m p hp
    | succ n => exact hf.sent n m s hs p hp
  unset k n hk := by
    cases k with
    | ssid => exact absurd hk (by simp)
    | pass => exact hf.unset .pass n hk

/-- A password is set that was sent with every SSID that may come back. -/
theorem PairsSent.setPass (hf : PairsSent es f) {pass : Bytes}
    (hfit : 0 ∉ pass ∧ pass.length ≤ wifiPassMaxLen)
    (hsent : ∀ n, ∀ s ∈ f .ssid n, Sent es s pass) : PairsSent es (f.setStr .pass pass) where
  fits := hf.fits.setStr hfit
  sent n m s hs p hp := by
    rw [Flash.setStr_of_ne (by decide)] at hs
    cases m with
    | zero => exact Option.some.inj hp ▸ hsent n s hs
    | succ m => exact hf.sent n m s hs p hp
  unset k n hk := by
    cases k with
    | ssid => exact hf.unset .ssid n hk
    | pass => exact absurd hk (by simp)

/-- **A message that tears no pair.** -/
theorem PairsSent.message (hf : PairsSent es f) {cred : Message} {store : StoreCodes}
    {start : StartCodes} (hu : Untorn es f (.message cred store start)) :
    PairsSent (es ++ [.message cred store start]) (flashStep f (.message cred store start)) := by
  obtain ⟨hfits, hfitp⟩ := fits_message cred
  have hself : Sent (es ++ [.message cred store start]) cred.val.ssidStr cred.val.passStr :=
    sent_self rfl
  have hf' := hf.concat (.message cred store start)
  rw [flashStep_message]
  split_ifs with hset hpass hcommit
  · rw [Flash.commit_eq]
    refine pairsSent_powerLoss (hf.fits.setBoth cred) fun s hs p hp => ?_
    exact Option.some.inj hs ▸ Option.some.inj hp ▸ hself
  · obtain ⟨hs, hp⟩ := (hu hset.1).both_of_not_committed hset.2 hpass hcommit
    have hone := hf'.setSsid hfits fun m p hp' => hf'.sent 0 m _ hs p hp'
    refine hone.setPass hfitp fun n s hs' => ?_
    exact hone.sent n 0 s hs' _ (by rwa [Flash.setStr_of_ne (by decide)])
  · rcases (hu hset.1).ssid_of_not_setPass hset.2 hpass with hs | hp
    · exact hf'.setSsid hfits fun m p hp => hf'.sent 0 m _ hs p hp
    · refine hf'.setSsid hfits fun m p hp' => ?_
      rw [hf.unset .pass m hp] at hp'
      exact absurd hp' (by simp)
  · exact hf'

/-- **A loss of power in the middle of a store that tears no pair.** -/
theorem PairsSent.cut (hf : PairsSent es f) {cred : Message} {call : StoreCall}
    {lost : NvsKey → ℕ} (hu : Untorn es f (.cut cred call lost)) :
    PairsSent (es ++ [.cut cred call lost]) (flashStep f (.cut cred call lost)) := by
  obtain ⟨hfits, hfitp⟩ := fits_message cred
  have hself : Sent (es ++ [.cut cred call lost]) cred.val.ssidStr cred.val.passStr :=
    sent_self rfl
  have hf' := hf.concat (.cut cred call lost)
  rw [flashStep_cut]
  split_ifs with hvalid
  · have hwhole := hu hvalid
    cases call with
    | nvsOpen => exact hf'.powerLoss lost
    | setSsid => exact hf'.powerLoss lost
    | setPass =>
        refine pairsSent_powerLoss (hf.fits.setStr hfits) fun s hs p hp => ?_
        rw [Flash.setStr_of_ne (by decide)] at hp
        cases hn : lost .ssid with
        | zero =>
            rw [hn, Flash.setStr_self_zero] at hs
            exact Option.some.inj hs ▸ hwhole hn p hp
        | succ n =>
            rw [hn, Flash.setStr_self_succ] at hs
            exact hf'.sent n _ s hs p hp
    | commit =>
        obtain ⟨hpass, hssid⟩ := hwhole
        refine pairsSent_powerLoss (hf.fits.setBoth cred) fun s hs p hp => ?_
        rw [Flash.setBoth, Flash.setStr_of_ne (by decide)] at hs
        rw [Flash.setBoth] at hp
        cases hn : lost .ssid <;> cases hm : lost .pass <;>
          simp only [hn, hm, Flash.setStr_self_zero, Flash.setStr_self_succ,
            Option.mem_some_iff] at hs hp
        · exact hs ▸ hp ▸ hself
        · exact hs ▸ hpass _ hn hm p hp
        · exact hp ▸ hssid _ hm hn s hs
        · exact hf'.sent _ _ s hs p (by simpa using hp)
  · exact hf'.powerLoss lost

/-- **A step that tears no pair** keeps every pair that can survive among those that were
sent together. -/
theorem PairsSent.flashStep (hf : PairsSent es f) {e : FlashEvent} (hu : Untorn es f e) :
    PairsSent (es ++ [e]) (flashStep f e) := by
  cases e with
  | message cred store start => exact hf.message hu
  | cut cred call lost => exact hf.cut hu
  | boot lost => exact (hf.concat _).powerLoss lost

/-- Then a load gives a pair that was sent. -/
theorem PairsSent.loadsSent (hf : PairsSent es f) : LoadsSent es f := by
  refine (loadsSent_iff hf.fits).mpr fun s p hpair => ?_
  obtain ⟨hs, hp⟩ := Flash.pair_eq_some_iff.mp hpair
  exact hf.sent 0 0 s hs p hp

/-- A store that leaves the pair whole and fails leaves the pair as it was. -/
theorem PairsSent.errorKeeps (hf : PairsSent es f) {e : FlashEvent} (hu : Untorn es f e) :
    ErrorKeeps f e := by
  rintro cred store start rfl hvalid herr
  refine (sameLoad_iff hf.fits (hf.fits.flashStep _)).mpr ?_
  rw [Ne, storeCredentialsNvs_fst_eq_ok] at herr
  rw [flashStep_message]
  split_ifs with hset hpass hcommit
  · exact absurd ⟨hset.2.1, hset.2.2, hpass, hcommit⟩ herr
  · obtain ⟨hs, hp⟩ := (hu hvalid).both_of_not_committed hset.2 hpass hcommit
    rw [Flash.pair_eq_some_iff.mpr ⟨hs, hp⟩]
    exact Flash.pair_eq_some_iff.mpr ⟨rfl, rfl⟩
  · rcases (hu hvalid).ssid_of_not_setPass hset.2 hpass with hs | hp
    · have hone : f.setStr .ssid cred.val.ssidStr .ssid 0 = f .ssid 0 := hs.symm
      have htwo : f.setStr .ssid cred.val.ssidStr .pass 0 = f .pass 0 := rfl
      rw [Flash.pair, Flash.pair, hone, htwo]
    · have htwo : f.setStr .ssid cred.val.ssidStr .pass 0 = none := hp
      rw [Flash.pair, Flash.pair, htwo, hp]
      simp
  · rfl

/-- A failed store that changes no load leaves the pair as it was. -/
theorem PairsSent.pair_of_errorKeeps (hf : PairsSent es f) {cred : Message} {store : StoreCodes}
    {start : StartCodes} (hkeep : ErrorKeeps f (.message cred store start))
    (hvalid : lengthsValid cred.val = true)
    (herr : ¬ (store.nvsOpen = espOk ∧ store.setSsid = espOk ∧ store.setPass = espOk ∧
      store.commit = espOk)) :
    (AirShifter.flashStep f (.message cred store start)).pair = f.pair := by
  refine (sameLoad_iff hf.fits (hf.fits.flashStep _)).mp (hkeep cred store start rfl hvalid ?_)
  rwa [Ne, storeCredentialsNvs_fst_eq_ok]

/-- **A step tears no pair exactly if** the load after it finds a pair that was sent, and if
it is a store that fails, the pair from before. -/
theorem PairsSent.untorn_iff (hf : PairsSent es f) (e : FlashEvent) :
    Untorn es f e ↔ LoadsSent (es ++ [e]) (AirShifter.flashStep f e) ∧ ErrorKeeps f e := by
  refine ⟨fun hu => ⟨(hf.flashStep hu).loadsSent, hf.errorKeeps hu⟩, fun ⟨hload, hkeep⟩ => ?_⟩
  rw [loadsSent_iff (hf.fits.flashStep e)] at hload
  cases e with
  | message cred store start =>
      intro hvalid
      by_cases hset : store.nvsOpen = espOk ∧ store.setSsid = espOk
      · by_cases hpass : store.setPass = espOk
        · by_cases hcommit : store.commit = espOk
          · exact Or.inr (Or.inr (Or.inr ⟨hpass, hcommit⟩))
          · have hpair := hf.pair_of_errorKeeps hkeep hvalid fun hok => hcommit hok.2.2.2
            rw [flashStep_message, if_pos ⟨hvalid, hset⟩, if_pos hpass, if_neg hcommit] at hpair
            have hboth := hpair.symm.trans (Flash.pair_eq_some_iff.mpr ⟨rfl, rfl⟩)
            exact Or.inr (Or.inr (Or.inl ⟨hpass, hcommit, Flash.pair_eq_some_iff.mp hboth⟩))
        · have hpair := hf.pair_of_errorKeeps hkeep hvalid fun hok => hpass hok.2.2.1
          rw [flashStep_message, if_pos ⟨hvalid, hset⟩, if_neg hpass] at hpair
          refine Or.inr (Or.inl ⟨hpass, ?_⟩)
          cases hp : f .pass 0 with
          | none => exact Or.inr rfl
          | some p =>
              have hone := hpair.symm.trans (Flash.pair_eq_some_iff.mpr ⟨rfl, hp⟩)
              exact Or.inl (Flash.pair_eq_some_iff.mp hone).1
      · exact Or.inl (not_and_or.mp hset)
  | cut cred call lost =>
      intro hvalid
      rw [flashStep_cut, if_pos hvalid] at hload
      cases call with
      | nvsOpen => trivial
      | setSsid => trivial
      | setPass =>
          dsimp only at hload
          intro hs p hp
          refine hload _ p (Flash.pair_eq_some_iff.mpr ⟨?_, hp⟩)
          rw [Flash.powerLoss_apply, hs, Flash.setStr_self_zero]
      | commit =>
          dsimp only at hload
          refine ⟨fun n hs hn p hp => hload _ p (Flash.pair_eq_some_iff.mpr ⟨?_, ?_⟩),
            fun n hp hn s hs => hload s _ (Flash.pair_eq_some_iff.mpr ⟨?_, ?_⟩)⟩
          · rw [Flash.powerLoss_apply, hs]
            rfl
          · rw [Flash.powerLoss_apply, hn]
            exact hp
          · rw [Flash.powerLoss_apply, hn]
            exact hs
          · rw [Flash.powerLoss_apply, hp]
            rfl
  | boot lost => trivial

/-! ### Whole runs -/

/-- A new storage has no pair. -/
theorem pairsSent_init : PairsSent [] fun _ _ => none :=
  ⟨fun _ _ _ h => absurd h (by simp), fun _ _ _ h => absurd h (by simp), fun _ _ h => h⟩

/-- Along a run that tears no pair, every pair that can survive was sent together. -/
theorem pairsSent_flashAfter (h : Along flashStep (fun _ _ => none) Untorn es) :
    PairsSent es (flashAfter es) :=
  foldl_history_along pairsSent_init (fun _ _ hu hf => hf.flashStep hu) h

/-- A longer run mixes no pair if the shorter one does not, and its last event does not. -/
theorem neverMixed_concat_iff {e : FlashEvent} :
    NeverMixed (es ++ [e]) ↔ NeverMixed es ∧
      LoadsSent (es ++ [e]) (flashStep (flashAfter es) e) ∧ ErrorKeeps (flashAfter es) e := by
  rw [NeverMixed, along_concat_iff]
  constructor
  · rintro ⟨hload, hkeep, hlast⟩
    refine ⟨⟨fun pre post hes => hload pre (post ++ [e]) (by rw [hes, List.append_assoc]), hkeep⟩,
      ?_, hlast⟩
    have := hload (es ++ [e]) [] (List.append_nil _).symm
    rwa [flashAfter_concat] at this
  · rintro ⟨⟨hload, hkeep⟩, hnew, hlast⟩
    refine ⟨fun pre post hes => ?_, hkeep, hlast⟩
    rcases List.prefix_concat_iff.mp ⟨post, hes.symm⟩ with rfl | ⟨post', hpre⟩
    · rwa [flashAfter_concat]
    · exact hload pre post' hpre.symm

/-- **The stored credentials are never mixed** exactly along the runs that tear no pair. -/
theorem never_mixed_iff (es : List FlashEvent) :
    NeverMixed es ↔ Along flashStep (fun _ _ => none) Untorn es := by
  induction es using List.reverseRecOn with
  | nil =>
      refine iff_of_true ⟨fun pre post hes => ?_, along_nil⟩ along_nil
      obtain ⟨rfl, -⟩ := List.append_eq_nil_iff.mp hes.symm
      exact pairsSent_init.loadsSent
  | append_singleton es e ih =>
      rw [neverMixed_concat_iff, along_concat_iff, ih]
      refine and_congr_right fun halong => ?_
      exact ((pairsSent_flashAfter halong).untorn_iff e).symm

/-- A message with two short strings. -/
def sampleMessage (ssid pass : PlainStr) (hs : ssid.val.length ≤ wifiSsidMaxLen)
    (hp : pass.val.length ≤ wifiPassMaxLen) : Message :=
  ⟨mkCred ssid.val pass.val, (holds_mkCred (fun h => (ssid.2 0 h).2.2 rfl)
    (fun h => (pass.2 0 h).2.2 rfl) hs hp).consistent hs hp⟩

/-- The message with the SSID `ssid` and the password `pass`. -/
def firstMessage : Message :=
  sampleMessage ssidName passName (by decide) (by decide)

/-- The message with the SSID `speed` and the password `ssid`. -/
def secondMessage : Message :=
  sampleMessage speedName ssidName (by decide) (by decide)

/-- Two messages are stored, and the power goes off before the second is committed: the SSID
that survives is the old one, like the password. -/
theorem never_mixed_sample :
    NeverMixed [.message firstMessage {} {}, .cut secondMessage .commit fun _ => 1] := by
  refine (never_mixed_iff _).mpr ((along_nil.concat ?_ : Along _ _ _ [_]).concat ?_)
  · exact fun _ => Or.inr (Or.inr (Or.inr ⟨rfl, rfl⟩))
  · exact fun _ => ⟨fun _ h => absurd h (by decide), fun _ h => absurd h (by decide)⟩

/-- A message is stored, and the next one fails at its password. -/
def tornRun : List FlashEvent :=
  [.message firstMessage {} {}, .message secondMessage { setPass := 0x1105 } {}]

/-- **The new SSID next to the old password**: what is loaded after the failed store was never
sent together. -/
theorem mixed_after_failed_store :
    (loadCredentialsNvs flashNvs (flashAfter tornRun) espOk {}).1 = espOk ∧
      (loadCredentialsNvs flashNvs (flashAfter tornRun) espOk {}).2.ssidStr = speedName.val ∧
      (loadCredentialsNvs flashNvs (flashAfter tornRun) espOk {}).2.passStr = passName.val ∧
      ¬ NeverMixed tornRun := by
  refine ⟨by decide +kernel, by decide +kernel, by decide +kernel, fun h => ?_⟩
  obtain ⟨cred, hmem, hs, hp⟩ := h.1 _ [] (List.append_nil _).symm espOk {} (by decide +kernel)
  have hpair : cred = firstMessage ∨ cred = secondMessage := by
    simpa [tornRun, FlashEvent.message?] using hmem
  rcases hpair with rfl | rfl
  · exact absurd hs (by decide +kernel)
  · exact absurd hp (by decide +kernel)

end AirShifter
