import AirShifter.CMemory
import AirShifter.Commands

/-!
# The Ways into the Parser

A packet that is written over BLE is copied into an array of 129 bytes on its way to
`parser_handle_packet`. The parser offers two functions for payloads from elsewhere, raw
buffers and MQTT messages, which copy them to the heap and put a NUL behind them. The three
ways are to mean the same by the same bytes, whatever the memory held before.

The two functions are written with checked accesses to the memory that `malloc` returns.

## Main results

* `handleCopy_eq`: the copy stays within its memory, and is read up to the first NUL.
* `payload_paths_agree`: a packet written over BLE does what the other functions make of its
  bytes.
-/

open CBytes

namespace AirShifter

/-! ### Copies on the heap -/

/-- What `malloc` returns for a size: a null pointer, or memory with any contents. -/
abbrev Malloc := (n : ℕ) → Option (Vector UInt8 n)

/-- The return value `false`, and no call. -/
def PacketResult.refused : PacketResult :=
  ⟨[], [], false⟩

/-- The body of the two functions: `buf` is a pointer to `len` bytes, or null. The result is
`none` if an access leaves the memory. -/
def handleCopy (malloc : Malloc) (buf : Option Bytes) : Option PacketResult :=
  match buf with
  | none => some .refused
  | some data =>
    if data.length = 0 then some .refused
    else
      match malloc (data.length + 1) with
      | none => some .refused
      | some tmp =>
        (storeRange tmp 0 data).bind fun tmp =>
          (store tmp data.length 0).bind fun tmp => (loadStr tmp).map parserHandlePacket

/-- `parser_handle_packet_buf`. The parser does not look at the connection handle. -/
def parserHandlePacketBuf (malloc : Malloc) (buf : Option Bytes) : Option PacketResult :=
  handleCopy malloc buf

/-- `parser_handle_mqtt`. -/
def parserHandleMqtt (malloc : Malloc) (payload : Option Bytes) : Option PacketResult :=
  handleCopy malloc payload

/-- **The copy stays within its memory**, and the parser reads it up to its first NUL. -/
theorem handleCopy_eq (malloc : Malloc) {data : Bytes} (hne : data ≠ [])
    {tmp : Vector UInt8 (data.length + 1)} (htmp : malloc (data.length + 1) = some tmp) :
    handleCopy malloc (some data) = some (parserHandlePacket (data.takeWhile (· != 0))) := by
  have hlen : data.length ≠ 0 := List.length_eq_zero_iff.not.mpr hne
  rw [handleCopy, if_neg hlen, htmp]
  dsimp only
  rw [storeRange_eq (by omega), Option.bind_some, store_eq (Nat.lt_succ_self _), Option.bind_some,
    loadStr_eq (zero_mem_memcpy_nul _ (Nat.lt_succ_self _)), Option.map_some,
    cstr_memcpy_nul _ (Nat.lt_succ_self _)]

/-! ### Packets over BLE -/

variable (H : CharHandles) (hmac : Bytes → Bytes → Vector UInt8 hmacSha256Len)

/-- A write of the packet characteristic by an authenticated connection: the copy fails, or the
parser is handed what was copied. -/
theorem gattSvcAccess_packet_cases {d : Device} {a : Access} (hop : a.op = .writeChr)
    (hattr : a.attrHandle = H.packetHandle)
    (hauth : secIsConnAuthenticated d.sec d.now a.connHandle = true) :
    (∃ rc, gattSvrWriteFlat a 1 maxPkt = .error rc ∧ gattSvcAccess H hmac d a = (d, ⟨rc, []⟩)) ∨
      ∃ got, gattSvrWriteFlat a 1 maxPkt = .ok got ∧ gattSvcAccess H hmac d a = ({ d with
        biz := bizCalls a.freed d.biz (parserHandlePacket (packetText got)).calls },
        ⟨.success, []⟩) := by
  have hne : a.attrHandle ≠ H.authCharHandle := CharHandles.ne_auth_of_acts (Or.inr hattr)
  have hctrl : H.ctrlOf a.attrHandle = none := by
    refine Option.eq_none_iff_forall_ne_some.mpr fun c hc => ?_
    exact CharHandles.ctrlHandle_ne_packet c
      ((CharHandles.ctrlHandle_of_ctrlOf hc).symm.trans hattr)
  rw [gattSvcAccess, hop]
  dsimp only
  rw [writeChr, if_neg hne, hctrl]
  dsimp only
  rw [if_pos hattr, hauth, Bool.not_true, if_neg Bool.false_ne_true]
  cases gattSvrWriteFlat a 1 maxPkt with
  | error rc => exact Or.inl ⟨rc, rfl, rfl⟩
  | ok got => exact Or.inr ⟨got, rfl, rfl⟩

/-- A packet that is accepted is parsed up to its first NUL. -/
theorem gattSvcAccess_packet {d : Device} {a : Access} (hop : a.op = .writeChr)
    (hattr : a.attrHandle = H.packetHandle)
    (hauth : secIsConnAuthenticated d.sec d.now a.connHandle = true)
    (hok : (gattSvcAccess H hmac d a).2.status = .success) :
    a.packet ≠ [] ∧ (gattSvcAccess H hmac d a).1 = { d with
      biz := bizCalls a.freed d.biz
        (parserHandlePacket (a.packet.takeWhile (· != 0))).calls } := by
  rcases gattSvcAccess_packet_cases H hmac hop hattr hauth with
    ⟨rc, hflat, haccess⟩ | ⟨got, hflat, haccess⟩
  · rw [haccess] at hok
    exact absurd hok (ne_success_of_writeFlat hflat)
  · obtain ⟨rfl, hlen⟩ := packet_of_gattSvrWriteFlat hflat
    rw [haccess, packetText_eq hlen]
    refine ⟨fun hnil => ?_, rfl⟩
    rw [gattSvrWriteFlat] at hflat
    split_ifs at hflat with hrange
    rw [Access.packet, List.take_eq_nil_iff] at hnil
    rcases hnil with hzero | hzero
    · omega
    · rw [hzero, List.length_nil] at hrange
      omega

/-- **The payload paths agree.** In every state of the device: a packet that an authenticated
client writes and that is accepted does to the device what the calls do that
`parser_handle_packet_buf` and `parser_handle_mqtt` make for the same bytes; and these are the
same calls whatever is in the memory they get, beside which they neither read nor write. -/
theorem payload_paths_agree (d : Device) {a : Access} (hop : a.op = .writeChr)
    (hattr : a.attrHandle = H.packetHandle)
    (hauth : secIsConnAuthenticated d.sec d.now a.connHandle = true)
    (hok : (gattSvcAccess H hmac d a).2.status = .success) :
    ∃ r, (∀ malloc : Malloc, malloc (a.packet.length + 1) ≠ none →
        parserHandlePacketBuf malloc (some a.packet) = some r ∧
          parserHandleMqtt malloc (some a.packet) = some r) ∧
      (gattSvcAccess H hmac d a).1 = { d with biz := bizCalls a.freed d.biz r.calls } := by
  obtain ⟨hne, hdevice⟩ := gattSvcAccess_packet H hmac hop hattr hauth hok
  refine ⟨_, fun malloc hmalloc => ?_, hdevice⟩
  obtain ⟨tmp, htmp⟩ := Option.ne_none_iff_exists'.mp hmalloc
  have hcopy := handleCopy_eq malloc hne htmp
  exact ⟨hcopy, hcopy⟩

/-- The sample packet, with memory that is not cleared. -/
theorem payload_paths_agree_home :
    ∃ r, parserHandlePacketBuf (fun n => some (Vector.replicate n 7)) (some homePacket.packet) =
        some r ∧
      parserHandleMqtt (fun n => some (Vector.replicate n 123)) (some homePacket.packet) = some r ∧
      (gattSvcAccess sampleHandles sampleHmac
        (deviceAfter sampleHandles sampleHmac (completedRun 7)) homePacket).1 =
          { deviceAfter sampleHandles sampleHmac (completedRun 7) with
            biz := bizCalls false (deviceAfter sampleHandles sampleHmac (completedRun 7)).biz
              r.calls } := by
  obtain ⟨r, hcopies, hdevice⟩ := payload_paths_agree sampleHandles sampleHmac
    (deviceAfter sampleHandles sampleHmac (completedRun 7)) (a := homePacket) rfl rfl
    (by decide +kernel) (by decide +kernel)
  exact ⟨r, (hcopies (fun n => some (Vector.replicate n 7)) (by simp)).1,
    (hcopies (fun n => some (Vector.replicate n 123)) (by simp)).2, hdevice⟩

end AirShifter
