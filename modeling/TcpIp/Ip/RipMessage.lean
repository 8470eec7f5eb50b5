import TcpIp.Lib.Binary
import TcpIp.Ip.RoutingTable

/-! RIP messages: the three places that build them, and the decoder that reads them. -/
namespace TcpIp.Ip

open Maps Binary

structure RIPEntry where
  cost : U32
  address : Addr
  mask : U32
  deriving DecidableEq, Repr

structure RIPMessage where
  command : U16
  numEntries : U16
  entries : List RIPEntry
  deriving DecidableEq, Repr

/-- `MASK`. -/
def fullMask : U32 := BitVec.allOnes 32
/-- `MTU`, the size of the buffer a datagram is read into. -/
def mtu : ℕ := 1400
/-- The length of an IP header without options. -/
def headerLen : ℕ := 20
/-- `ADDR_SIZE`. -/
def addrSize : ℕ := 4

def RIPEntry.value (e : RIPEntry) : Value :=
  .struct [.uint32 e.cost, .uint32 e.address, .uint32 e.mask]

def RIPMessage.value (m : RIPMessage) : Value :=
  .struct [.uint16 m.command, .uint16 m.numEntries, .slice (m.entries.map RIPEntry.value)]

/-- The message for a list of entries; its length is cut to 16 bits. -/
def newRIPMessage (command : U16) (entries : List RIPEntry) : RIPMessage where
  command := command
  numEntries := BitVec.ofNat 16 entries.length
  entries := entries

section Emitters

/-- The neighbour's address, then the three fields of the message one after the other. -/
def fieldByField (command : U16) (neighbor : Addr) (entries : List RIPEntry) : List U8 :=
  let message := newRIPMessage command entries
  let bytes := write [] (.uint32 neighbor)
  let bytes := write bytes (.uint16 message.command)
  let bytes := write bytes (.uint16 message.numEntries)
  write bytes (.slice (message.entries.map RIPEntry.value))

/-- What `InitHandler` puts on the channel for a neighbour. -/
def initHandlerMessage : Addr → List RIPEntry → List U8 := fieldByField 1

/-- What `SendUpdatesToNeighbors` puts on the channel for a neighbour. -/
def sendUpdatesMessage : Addr → List RIPEntry → List U8 := fieldByField 2

/-- What `SendTriggeredUpdates` puts on the channel for a neighbour: here the message is handed to
the encoder as a whole. -/
def sendTriggeredMessage (neighbor : Addr) (entries : List RIPEntry) : List U8 :=
  let bytes := write [] (.uint32 neighbor)
  write bytes (newRIPMessage 2 entries).value

/-- `GetAllEntries`, for a table met in the order `range`. -/
def getAllEntries (range : List (Σ _ : Addr, RoutingTableEntry)) : List RIPEntry :=
  range.filterMap fun ⟨destination, entry⟩ =>
    if entry.cost = infinity then none else some ⟨entry.cost, destination, fullMask⟩

/-- `GetSpecificEntries`, for a table met in the order `range`. -/
def getSpecificEntries (range : List (Σ _ : Addr, RoutingTableEntry)) (neighborToPoison : Addr) :
    List RIPEntry :=
  range.filterMap fun ⟨destination, entry⟩ =>
    if entry.cost = infinity then none
    else
      some ⟨if entry.nextHop = neighborToPoison then infinity else entry.cost, destination, fullMask⟩

/-- The pass of `SendTriggeredUpdates` over its own list before it sends to `neighbor`. The list is
changed in place, so what is poisoned for one neighbour stays so for the next. -/
def poisonEntries (table : RoutingTable) (neighbor : Addr) (entriesToSend : List RIPEntry) :
    List RIPEntry :=
  entriesToSend.map fun entry =>
    match table.checkRoute entry.address with
    | some newEntry => if newEntry.nextHop = neighbor then { entry with cost := infinity } else entry
    | none => entry

variable {table : RoutingTable} {range : List (Σ _ : Addr, RoutingTableEntry)} {e : RIPEntry}

theorem mem_getAllEntries (hrange : Ranges table range) :
    e ∈ getAllEntries range ↔ ∃ destination entry, table.checkRoute destination = some entry ∧
      entry.cost ≠ infinity ∧ ⟨entry.cost, destination, fullMask⟩ = e := by
  simp only [getAllEntries, List.mem_filterMap, Sigma.exists, hrange.mem_iff,
    Option.ite_none_left_eq_some, Option.some.injEq, RoutingTable.checkRoute, ne_eq]

theorem mem_getSpecificEntries {neighborToPoison : Addr} (hrange : Ranges table range) :
    e ∈ getSpecificEntries range neighborToPoison ↔
      ∃ destination entry, table.checkRoute destination = some entry ∧ entry.cost ≠ infinity ∧
        ⟨if entry.nextHop = neighborToPoison then infinity else entry.cost, destination,
          fullMask⟩ = e := by
  simp only [getSpecificEntries, List.mem_filterMap, Sigma.exists, hrange.mem_iff,
    Option.ite_none_left_eq_some, Option.some.injEq, RoutingTable.checkRoute, ne_eq]

end Emitters

section Decoder

def readEntry (data : List U8) : RIPEntry × List U8 :=
  let cost := readUint 32 data
  let address := readUint 32 cost.2
  let mask := readUint 32 address.2
  (⟨cost.1, address.1, mask.1⟩, mask.2)

def readEntries : ℕ → List U8 → List RIPEntry
  | 0, _ => []
  | n + 1, data => (readEntry data).1 :: readEntries n (readEntry data).2

/-- The decoding part of the handler's `ReceivePacket`; errors of the reader are ignored. -/
def decode (data : List U8) : RIPMessage :=
  let command := readUint 16 data
  let numEntries := readUint 16 command.2
  { command := command.1
    numEntries := numEntries.1
    entries := readEntries numEntries.1.toNat numEntries.2 }

end Decoder

/-- What `ReadFromHandler` sends on: the bytes behind the neighbour's address. -/
def stripAddress (bytes : List U8) : List U8 := bytes.drop addrSize

/-- What `ListenOnPort` keeps of a payload that follows a header without options. -/
def bufferData (data : List U8) : List U8 := data.take (mtu - headerLen)

def RIPEntry.bytes (e : RIPEntry) : List U8 :=
  toBytes 4 e.cost.toNat ++ toBytes 4 e.address.toNat ++ toBytes 4 e.mask.toNat

theorem fixed_value (e : RIPEntry) : e.value.fixed = some e.bytes := by
  simp [RIPEntry.value, RIPEntry.bytes, Value.fixed, fixedAll]

@[simp] theorem length_entryBytes (e : RIPEntry) : e.bytes.length = 12 := by
  simp [RIPEntry.bytes]

theorem stripAddress_fieldByField (command : U16) (neighbor : Addr) (entries : List RIPEntry) :
    stripAddress (fieldByField command neighbor entries) =
      toBytes 2 command.toNat ++ (toBytes 2 (BitVec.ofNat 16 entries.length).toNat ++
        entries.flatMap RIPEntry.bytes) := by
  have hslice : Value.encode (.slice (entries.map RIPEntry.value)) =
      some (entries.flatMap RIPEntry.bytes) := fixedAll_map fixed_value entries
  simp only [stripAddress, fieldByField, newRIPMessage, write, hslice]
  simp [Value.encode, Value.fixed, addrSize]

/-- A struct with a slice in it is not written at all. -/
theorem stripAddress_sendTriggeredMessage (neighbor : Addr) (entries : List RIPEntry) :
    stripAddress (sendTriggeredMessage neighbor entries) = [] := by
  have hnone : Value.encode (newRIPMessage 2 entries).value = none :=
    encode_struct_slice [_, _] _ []
  simp only [stripAddress, sendTriggeredMessage, write, hnone]
  simp [Value.encode, Value.fixed, addrSize]

theorem readEntry_bytes (e : RIPEntry) (rest : List U8) :
    readEntry (e.bytes ++ rest) = (e, rest) := by
  simp only [readEntry, RIPEntry.bytes, List.append_assoc]
  rw [readUint_toBytes (n := 4) _ _ rfl, readUint_toBytes (n := 4) _ _ rfl,
    readUint_toBytes (n := 4) _ _ rfl]

theorem readEntries_flatMap (entries : List RIPEntry) :
    readEntries entries.length (entries.flatMap RIPEntry.bytes) = entries := by
  induction entries with
  | nil => rfl
  | cons e entries ih =>
    simp only [List.length_cons, List.flatMap_cons, readEntries, readEntry_bytes]
    rw [ih]

/-- A message written field by field is read back whole as long as its length fits its field. -/
theorem decode_fieldByField {command : U16} {neighbor : Addr} {entries : List RIPEntry}
    (h : entries.length < 2 ^ 16) :
    decode (stripAddress (fieldByField command neighbor entries)) =
      newRIPMessage command entries := by
  rw [stripAddress_fieldByField]
  simp only [decode]
  rw [readUint_toBytes (n := 2) _ _ rfl, readUint_toBytes (n := 2) _ _ rfl]
  simp only [BitVec.toNat_ofNat, Nat.mod_eq_of_lt h, readEntries_flatMap, newRIPMessage]

theorem decode_nil : decode [] = newRIPMessage 0 [] := by
  decide

/-- At most 114 entries fit the buffer. -/
theorem bufferData_fieldByField {command : U16} {neighbor : Addr} {entries : List RIPEntry}
    (h : entries.length ≤ 114) :
    bufferData (stripAddress (fieldByField command neighbor entries)) =
      stripAddress (fieldByField command neighbor entries) := by
  have hlen : (entries.flatMap RIPEntry.bytes).length = 12 * entries.length := by
    simp [List.length_flatMap, Nat.mul_comm]
  apply List.take_of_length_le
  rw [stripAddress_fieldByField]
  simp only [List.length_append, length_toBytes, hlen, mtu, headerLen]
  omega

theorem decode_arriving {command : U16} {neighbor : Addr} {entries : List RIPEntry}
    (h : entries.length ≤ 114) :
    decode (bufferData (stripAddress (fieldByField command neighbor entries))) =
      newRIPMessage command entries := by
  rw [bufferData_fieldByField h]
  exact decode_fieldByField (by omega)

/-- A triggered update arrives as a message of command 0 with no entries. -/
theorem decode_arriving_triggered (neighbor : Addr) (entries : List RIPEntry) :
    decode (bufferData (stripAddress (sendTriggeredMessage neighbor entries))) =
      newRIPMessage 0 [] := by
  rw [stripAddress_sendTriggeredMessage]
  exact decode_nil

/-- The functions that put RIP messages on the channel. -/
inductive Emitter
  | initHandler
  | sendUpdatesToNeighbors
  | sendTriggeredUpdates
  deriving DecidableEq, Repr

def Emitter.command : Emitter → U16
  | .initHandler => 1
  | .sendUpdatesToNeighbors => 2
  | .sendTriggeredUpdates => 2

def Emitter.message : Emitter → Addr → List RIPEntry → List U8
  | .initHandler => initHandlerMessage
  | .sendUpdatesToNeighbors => sendUpdatesMessage
  | .sendTriggeredUpdates => sendTriggeredMessage

/-- The neighbour reads the list the emitter was given, under the emitter's command. -/
def Emitter.Agrees (emitter : Emitter) (neighbor : Addr) (entries : List RIPEntry) : Prop :=
  decode (bufferData (stripAddress (emitter.message neighbor entries))) =
    newRIPMessage emitter.command entries

instance (emitter : Emitter) (neighbor : Addr) (entries : List RIPEntry) :
    Decidable (emitter.Agrees neighbor entries) :=
  inferInstanceAs (Decidable (_ = _))

/-- The two emitters that write field by field agree with the decoder; the one that writes the
whole struct never does, not even for an empty list, and never sends the bytes the others send. -/
theorem emitter_agrees_iff (emitter : Emitter) (neighbor : Addr) (entries : List RIPEntry)
    (h : entries.length ≤ 114) :
    (emitter.Agrees neighbor entries ↔ emitter ≠ .sendTriggeredUpdates) ∧
      Emitter.sendTriggeredUpdates.message neighbor entries ≠
        Emitter.sendUpdatesToNeighbors.message neighbor entries := by
  have hcommand : newRIPMessage 0 [] ≠ newRIPMessage 2 entries := by
    intro heq
    have hzero : (0 : U16) = 2 := congrArg RIPMessage.command heq
    exact absurd hzero (by decide)
  constructor
  · cases emitter with
    | initHandler => exact iff_of_true (decode_arriving h) (by decide)
    | sendUpdatesToNeighbors => exact iff_of_true (decode_arriving h) (by decide)
    | sendTriggeredUpdates =>
      refine iff_of_false (fun hagree => hcommand ?_) (by simp)
      rw [← decode_arriving_triggered neighbor entries]
      exact hagree
  · intro heq
    apply hcommand
    rw [← decode_arriving_triggered neighbor entries]
    exact (congrArg (fun bytes => decode (bufferData (stripAddress bytes))) heq).trans
      (decode_arriving h)

theorem emitter_agrees_iff_one_entry :
    [(⟨1, 5, fullMask⟩ : RIPEntry)].length ≤ 114 ∧
      (Emitter.initHandler.Agrees 7 [⟨1, 5, fullMask⟩] ↔
        Emitter.initHandler ≠ .sendTriggeredUpdates) :=
  ⟨by decide, (emitter_agrees_iff .initHandler 7 [⟨1, 5, fullMask⟩] (by decide)).1⟩

/-- One changed route, sent to neighbour 7: only the four bytes of the address go on the channel,
and the neighbour reads an empty message of command 0. -/
theorem triggered_update_unread :
    ¬ ∀ (emitter : Emitter) (neighbor : Addr) (entries : List RIPEntry), entries.length ≤ 114 →
      emitter.Agrees neighbor entries := by
  intro h
  exact absurd (h .sendTriggeredUpdates 7 [⟨1, 5, fullMask⟩] (by decide)) (by decide)

end TcpIp.Ip
