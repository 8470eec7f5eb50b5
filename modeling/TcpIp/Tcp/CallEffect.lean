import TcpIp.Tcp.Effect

/-! What `Write`, `Read`, `Send` and the retransmission timer do to the TCB. -/
namespace TcpIp

section Write

/-- How much of `data` a round of `Write` takes. -/
def Send.writable (s : Send) (data : List U8) : U32 :=
  min32 (maxBufSize - (s.lbw - s.una)) (BitVec.ofNat 32 data.length)

theorem Send.writable_le_length (s : Send) (data : List U8) :
    (s.writable data).toNat ≤ data.length := by
  rw [Send.writable, toNat_min32, BitVec.toNat_ofNat]
  exact (Nat.min_le_right _ _).trans (Nat.mod_le _ _)

theorem Send.writable_add_le {s : Send} (data : List U8) (h : (s.lbw - s.una).toNat ≤ 65535) :
    (s.lbw - s.una).toNat + (s.writable data).toNat ≤ 65535 := by
  have hroom : (maxBufSize - (s.lbw - s.una)).toNat = 65535 - (s.lbw - s.una).toNat := by
    rw [BitVec.toNat_sub, toNat_maxBufSize]
    omega
  rw [Send.writable, toNat_min32, hroom]
  omega

/-- The bytes a round of `Write` puts in the send buffer. -/
def TCB.written (s : TCB) (data : List U8) : List U8 :=
  match s.writeRound data with
  | .wrote _ bytesToWrite => data.take bytesToWrite.toNat
  | _ => []

/-- A round's copies into the ring once there is room; `none` for a slice bound past the ring. -/
def TCB.writePart (s : TCB) (data : List U8) : Option (TCB × U32) :=
  let remainingBufSize := maxBufSize - (s.snd.lbw - s.snd.una)
  let bytesToWrite := min32 remainingBufSize (BitVec.ofNat 32 data.length)
  let lbwIndex := sequenceToBufferInd s.snd.lbw
  let wrote := fun buffer : ℕ → U8 =>
    ({ s with snd := { s.snd with buffer, lbw := s.snd.lbw + bytesToWrite } }, bytesToWrite)
  if lbwIndex + bytesToWrite ≥ maxBufSize then
    let copyToEndOfBufferLen := maxBufSize - lbwIndex
    let copyOverflowLen := bytesToWrite - copyToEndOfBufferLen
    if copyOverflowLen > maxBufSize then none
    else some (wrote (Ring.copyAt
      (Ring.copyAt s.snd.buffer lbwIndex.toNat (slice data 0 copyToEndOfBufferLen)) 0
      (slice data copyToEndOfBufferLen (copyToEndOfBufferLen + copyOverflowLen))))
  else some (wrote (Ring.copyAt s.snd.buffer lbwIndex.toNat (slice data 0 bytesToWrite)))

/-- A round tests the state and the room, then copies. -/
theorem writeRound_eq (s : TCB) (data : List U8) :
    s.writeRound data =
      if s.state ≠ .established ∧ s.state ≠ .closeWait then .closing
      else if s.snd.lbw - s.snd.una = maxBufSize then .blocked
      else
        match s.writePart data with
        | some r => .wrote r.1 r.2
        | none => .panicked := by
  -- not `unfold`: the kernel would evaluate the match on the copies
  unfold TCB.writeRound
  rw [TCB.writePart]
  split
  · rfl
  split
  · rfl
  simp only
  split
  · split <;> rfl
  · rfl

/-- A copy that does not panic is one store into the ring, which it goes around at most once. -/
theorem writePart_wrote {s t : TCB} {data : List U8} {n : U32} (h : s.writePart data = some (t, n)) :
    n = s.snd.writable data ∧
    ∃ buffer, t = { s with snd := { s.snd with buffer, lbw := s.snd.lbw + n } } ∧
      (s.snd.lbw.toNat % 65535 + n.toNat < 2 ^ 32 →
        buffer = Ring.store 65535 s.snd.buffer s.snd.lbw.toNat (data.take n.toNat) ∧
          s.snd.lbw.toNat % 65535 + n.toNat ≤ 131070) := by
  have hstore : s.snd.lbw.toNat % 65535 + (s.snd.writable data).toNat < 2 ^ 32 → _ := fun hle =>
    write_eq_store s.snd.buffer s.snd.lbw (s.snd.writable data) data hle
      (s.snd.writable_le_length data)
  have hidx := toNat_sequenceToBufferInd s.snd.lbw
  have hmax := toNat_maxBufSize
  rw [Send.writable] at hstore
  unfold TCB.writePart at h
  simp only at h
  split at h
  · rename_i hwrap
    split at h
    · cases h
    · rename_i hover
      obtain ⟨rfl, rfl⟩ := Prod.mk.inj (Option.some.inj h)
      rw [if_pos hwrap] at hstore
      refine ⟨rfl, _, rfl, fun hle => ⟨hstore hle, ?_⟩⟩
      bv_omega
  · rename_i hwrap
    obtain ⟨rfl, rfl⟩ := Prod.mk.inj (Option.some.inj h)
    rw [if_neg hwrap] at hstore
    refine ⟨rfl, _, rfl, fun hle => ⟨hstore hle, ?_⟩⟩
    bv_omega

/-- With at most a ring of unacknowledged bytes the slices are in range. -/
theorem writePart_isSome {s : TCB} (data : List U8) (h : (s.snd.lbw - s.snd.una).toNat ≤ 65535) :
    ∃ t n, s.writePart data = some (t, n) := by
  have hroom := Send.writable_add_le data h
  have hlt := sequenceToBufferInd_lt s.snd.lbw
  have hmax := toNat_maxBufSize
  unfold TCB.writePart
  rw [Send.writable] at hroom
  simp only
  split
  · rw [if_neg (by bv_omega)]
    exact ⟨_, _, rfl⟩
  · exact ⟨_, _, rfl⟩

theorem writeRound_part {s t : TCB} {data : List U8} {n : U32}
    (h : s.writeRound data = .wrote t n) :
    (s.state = .established ∨ s.state = .closeWait) ∧ s.writePart data = some (t, n) := by
  rw [writeRound_eq] at h
  split at h
  · cases h
  rename_i hstate
  split at h
  · cases h
  split at h
  · rename_i r hpart
    obtain ⟨rfl, rfl⟩ := WriteResult.wrote.inj h
    refine ⟨?_, hpart⟩
    by_contra hno
    exact hstate (by simpa [not_or] using hno)
  · cases h

theorem writeRound_wrote {s t : TCB} {data : List U8} {n : U32}
    (h : s.writeRound data = .wrote t n) :
    (s.state = .established ∨ s.state = .closeWait) ∧ n = s.snd.writable data ∧
    ∃ buffer, t = { s with snd := { s.snd with buffer, lbw := s.snd.lbw + n } } ∧
      (s.snd.lbw.toNat % 65535 + n.toNat < 2 ^ 32 →
        buffer = Ring.store 65535 s.snd.buffer s.snd.lbw.toNat (data.take n.toNat) ∧
          s.snd.lbw.toNat % 65535 + n.toNat ≤ 131070) :=
  ⟨(writeRound_part h).1, writePart_wrote (writeRound_part h).2⟩

end Write

section Send

/-- The test of the window loop. -/
def TCB.windowOpen (s : TCB) : Prop := s.snd.nxt - s.snd.una < min32 s.snd.wnd s.cwnd

/-- Where `Send` can go without touching the TCB. -/
inductive Jump (s : TCB) : SendPc → SendPc → Prop
  | idle {pc : SendPc} (h : pc = .notStarted ∨ pc = .returned ∨ pc = .zeroWait ∧ s.snd.wnd = 0) :
      Jump s pc pc
  | stop {pc : SendPc} : Jump s pc .returned
  | waitData1 {pc : SendPc} (h : s.windowOpen ∨ pc = .waitData1 ∧ s.cancelled = false) :
      Jump s pc .waitData1
  | transmit {pc : SendPc} (hdata : s.snd.nxt ≠ s.snd.lbw)
      (h : s.windowOpen ∨ pc = .waitData1 ∧ s.cancelled = false) :
      Jump s pc (.transmit s.amountToSend 0)
  | waitData2 {pc : SendPc} : Jump s pc .waitData2
  | zeroWait {pc : SendPc} (hw : s.snd.wnd = 0) (hdata : s.snd.nxt < s.snd.lbw) :
      Jump s pc .zeroWait
  | windowWait {pc : SendPc} : Jump s pc .windowWait
  | top {pc : SendPc} : Jump s pc .top

variable {s : TCB} {pc : SendPc}

theorem jump_sendWindow : Jump s pc s.sendWindow := by
  unfold TCB.sendWindow
  split
  · split
    · exact .stop
    · exact .windowWait
  · exact .top

theorem sendWindow_cases :
    s.sendWindow = .returned ∨ s.sendWindow = .windowWait ∨ s.sendWindow = .top := by
  unfold TCB.sendWindow
  split
  · split <;> simp
  · simp

theorem jump_sendData2 : Jump s pc s.sendData2 := by
  unfold TCB.sendData2 TCB.sendZero
  split
  · split
    · exact .stop
    · split
      · exact .stop
      · exact .waitData2
  · split
    · rename_i h
      exact .zeroWait h.1 h.2
    · exact jump_sendWindow

theorem jump_sendData1 (h : s.windowOpen ∨ pc = .waitData1 ∧ s.cancelled = false) :
    Jump s pc s.sendData1 := by
  unfold TCB.sendData1
  split
  · split
    · exact .stop
    · split
      · exact .stop
      · exact .waitData1 h
  · rename_i hne
    exact .transmit hne h

theorem jump_sendHead : Jump s pc s.sendHead := by
  unfold TCB.sendHead
  split
  · rename_i h
    exact jump_sendData1 (Or.inl h)
  · exact jump_sendData2

/-- The length of the next segment of the transmit loop. -/
def segmentLength (amountToSend amountSent : U32) : U32 :=
  min32 (amountToSend - amountSent) mssData

theorem segmentLength_le (a b : U32) : (segmentLength a b).toNat ≤ 1360 := by
  simp [segmentLength]

theorem segmentLength_pos {a b : U32} (h : b < a) : 0 < (segmentLength a b).toNat := by
  rw [segmentLength, toNat_min32, toNat_mssData]
  bv_omega

theorem segmentLength_le_sub (a b : U32) : (segmentLength a b).toNat ≤ (a - b).toNat := by
  simp [segmentLength]

/-- The payload of `Send`, whatever its length. -/
theorem sendPayload_load {a : U32} (hle : a.toNat ≤ 65535) :
    s.sendPayload a = Ring.load 65535 s.snd.buffer s.snd.nxt.toNat a.toNat := by
  have hlt := sequenceToBufferInd_lt s.snd.nxt
  have hmax := toNat_maxBufSize
  have hsum : (sequenceToBufferInd s.snd.nxt + a).toNat = s.snd.nxt.toNat % 65535 + a.toNat := by
    rw [BitVec.toNat_add, toNat_sequenceToBufferInd]
    omega
  rw [← read_eq_load s.snd.buffer s.snd.nxt a (by omega)
    (p := sequenceToBufferInd s.snd.nxt + a ≥ maxBufSize)]
  · have hleft : sequenceToBufferInd s.snd.nxt + a - maxBufSize =
        a - (maxBufSize - sequenceToBufferInd s.snd.nxt) := by bv_omega
    simp only [TCB.sendPayload, hleft]
  · intro h
    rw [ge_iff_le, BitVec.le_def, hsum] at h
    exact h
  · intro h
    rw [ge_iff_le, BitVec.le_def, hsum, toNat_maxBufSize] at h
    omega

theorem sendPayload_eq (s : TCB) (a b : U32) :
    s.sendPayload (segmentLength a b) =
      Ring.load 65535 s.snd.buffer s.snd.nxt.toNat (segmentLength a b).toNat := by
  have hlen := segmentLength_le a b
  exact sendPayload_load (by omega)

/-- A fresh data segment of the transmit loop. -/
def TCB.freshMsg (s : TCB) (key : SocketData) (len : U32) : Msg :=
  s.dataMsg key .data (Ring.load 65535 s.snd.buffer s.snd.nxt.toNat len.toNat)

/-- The TCB after a fresh segment of length `len`. -/
def TCB.transmitted (s : TCB) (key : SocketData) (len : U32) : TCB :=
  { s with
    retransmissionQueue := s.retransmissionQueue ++ [⟨(s.freshMsg key len).hdr, len⟩]
    snd := { s.snd with nxt := s.snd.nxt + len } }

/-- What a step of `Send` can do. -/
inductive SendEffect (s : TCB) (key : SocketData) : SendPc → SendPc → TCB → List Msg → Prop
  | jump {pc pc' : SendPc} (h : Jump s pc pc') (hi : pc = .notStarted ∨ pc = .returned → pc' = pc)
      (ht : ∀ a b, pc = .transmit a b → s.cancelled = true ∨ ¬ b < a)
      (hz : pc = .zeroWait → s.cancelled = true ∨ s.snd.wnd = 0 ∧ pc' = .zeroWait) :
      SendEffect s key pc pc' s []
  | segment {amountToSend amountSent : U32} (b : Book) (hlt : amountSent < amountToSend)
      (hc : s.cancelled = false) :
      SendEffect s key (.transmit amountToSend amountSent)
        (.transmit amountToSend (amountSent + segmentLength amountToSend amountSent))
        ((s.transmitted key (segmentLength amountToSend amountSent)).withBook b)
        [s.freshMsg key (segmentLength amountToSend amountSent)]
  | zeroExit {pc' : SendPc} (hw : s.snd.wnd ≠ 0) (hc : s.cancelled = false)
      (h : Jump { s with snd := { s.snd with nxt := s.snd.nxt + 1 } } .zeroWait pc')
      (hpc : pc' = .returned ∨ pc' = .windowWait ∨ pc' = .top) :
      SendEffect s key .zeroWait pc' { s with snd := { s.snd with nxt := s.snd.nxt + 1 } } []

theorem sendStep_effect {key : SocketData} {now : Int64} {pc' : SendPc} {t : TCB} {out : List Msg}
    (h : s.sendStep key now pc = (pc', t, out)) : SendEffect s key pc pc' t out := by
  cases pc with
  | notStarted =>
    cases h
    exact .jump (.idle (Or.inl rfl)) (fun _ => rfl) nofun nofun
  | returned =>
    cases h
    exact .jump (.idle (Or.inr (Or.inl rfl))) (fun _ => rfl) nofun nofun
  | top =>
    cases h
    exact .jump jump_sendHead (by simp) nofun nofun
  | waitData1 =>
    cases h
    refine .jump ?_ (by simp) nofun nofun
    split
    · exact .stop
    · rename_i hc
      exact jump_sendData1 (Or.inr ⟨rfl, Bool.eq_false_of_not_eq_true hc⟩)
  | waitData2 =>
    cases h
    refine .jump ?_ (by simp) nofun nofun
    split
    · exact .stop
    · exact jump_sendData2
  | windowWait =>
    cases h
    refine .jump ?_ (by simp) nofun nofun
    split
    · exact .stop
    · exact jump_sendWindow
  | zeroWait =>
    simp only [TCB.sendStep] at h
    split at h
    · rename_i hc
      cases h
      exact .jump .stop (by simp) nofun fun _ => Or.inl hc
    rename_i hc
    split at h
    · rename_i hw
      cases h
      exact .jump (.idle (Or.inr (Or.inr ⟨rfl, hw⟩))) (fun _ => rfl) nofun fun _ =>
        Or.inr ⟨hw, rfl⟩
    · rename_i hw
      cases h
      exact .zeroExit hw (Bool.eq_false_of_not_eq_true hc) jump_sendWindow sendWindow_cases
  | transmit amountToSend amountSent =>
    simp only [TCB.sendStep] at h
    split at h
    · rename_i hlt
      unfold TCB.sendSegment at h
      split at h
      · rename_i hc
        cases h
        exact .jump .stop (by simp) (fun _ _ _ => Or.inl hc) nofun
      · rename_i hc
        have hlen : BitVec.ofNat 32 (segmentLength amountToSend amountSent).toNat =
            segmentLength amountToSend amountSent := by simp
        have hpay := sendPayload_eq s amountToSend amountSent
        unfold segmentLength at hpay hlen
        simp only [hpay, Ring.load_length, hlen] at h
        cases h
        exact .segment ⟨_, _, _, _, _, _, _⟩ hlt (Bool.eq_false_of_not_eq_true hc)
    · rename_i hlt
      cases h
      refine .jump jump_sendHead (by simp) (fun a b hab => Or.inr ?_) nofun
      obtain ⟨rfl, rfl⟩ := SendPc.transmit.inj hab
      exact hlt

end Send

section Read

/-- `n` bytes consumed by the application. -/
def TCB.readBy (s : TCB) (n : U32) : TCB :=
  { s with rcv := { s.rcv with lbr := s.rcv.lbr + n, wnd := s.rcv.wnd + n } }

@[simp] theorem TCB.readBy_zero (s : TCB) : s.readBy 0 = s := by
  simp [TCB.readBy]

/-- The bytes an outcome hands out or keeps for later; EOF and errors hand out none. -/
def ReadOutcome.Delivers : ReadOutcome → List U8 → Prop
  | .returned _ data, bytes => data = bytes
  | .waiting call, bytes => call.data = bytes
  | .eof, _ => True
  | .failed, _ => True

/-- What `Read` does: it consumes some of the bytes available, and its outcome carries them. -/
structure ReadEffect (s : TCB) (c : ReadCall) (t : TCB) (o : ReadOutcome) : Prop where
  consumed : ∃ n, n ≤ s.rcv.nxt - s.rcv.lbr ∧ t = s.readBy n ∧
    ((s.rcv.nxt - s.rcv.lbr).toNat ≤ 65535 →
      o.Delivers (c.data ++ Ring.load 65535 s.rcv.buffer s.rcv.lbr.toNat n.toNat))
  eof : o = .eof → s.state = .closeWait ∨ s.timeoutCancelled = true
  failed : o = .failed → s.timeoutCancelled = true

variable {s : TCB} {c : ReadCall}

/-- The number of bytes one copy takes. -/
def TCB.available (s : TCB) (c : ReadCall) : U32 :=
  if c.amountToRead - c.amountReadSoFar < s.rcv.nxt - s.rcv.lbr then
    c.amountToRead - c.amountReadSoFar
  else s.rcv.nxt - s.rcv.lbr

theorem TCB.available_le : s.available c ≤ s.rcv.nxt - s.rcv.lbr := by
  unfold TCB.available
  split <;> bv_omega

/-- The copy of `Read`, whatever the pointers are. -/
theorem readCopy_load (hle : (s.available c).toNat ≤ 65535) :
    (s.readCopy c).2.data =
      c.data ++ Ring.load 65535 s.rcv.buffer s.rcv.lbr.toNat (s.available c).toNat := by
  have hlt := sequenceToBufferInd_lt s.rcv.lbr
  have hsum : (sequenceToBufferInd s.rcv.lbr + s.available c).toNat =
      s.rcv.lbr.toNat % 65535 + (s.available c).toNat := by
    rw [BitVec.toNat_add, toNat_sequenceToBufferInd]
    omega
  rw [← read_eq_load s.rcv.buffer s.rcv.lbr (s.available c) (by omega)
    (p := sequenceToBufferInd s.rcv.lbr + s.available c ≥ maxBufSize)]
  · rfl
  · intro h
    rw [ge_iff_le, BitVec.le_def, hsum] at h
    exact h
  · intro h
    rw [ge_iff_le, BitVec.le_def, hsum, toNat_maxBufSize] at h
    omega

theorem readCopy_eq (hle : (s.rcv.nxt - s.rcv.lbr).toNat ≤ 65535) :
    (s.readCopy c).2.data =
      c.data ++ Ring.load 65535 s.rcv.buffer s.rcv.lbr.toNat (s.available c).toNat := by
  have h : (s.available c).toNat ≤ (s.rcv.nxt - s.rcv.lbr).toNat := s.available_le
  exact readCopy_load (by omega)

/-- With nothing to copy the loop ends at once. -/
theorem readLoop_stop (h : c.amountReadSoFar < c.amountToRead → s.rcv.lbr = s.rcv.nxt)
    (fuel : ℕ) :
    ∃ o, TCB.readLoop fuel s c = (s, o) ∧ o.Delivers c.data ∧
      (o = .eof → s.state = .closeWait ∨ s.timeoutCancelled = true) ∧ o ≠ .failed := by
  cases fuel with
  | zero => exact ⟨_, rfl, rfl, by simp⟩
  | succ fuel =>
    unfold TCB.readLoop
    by_cases hlt : c.amountReadSoFar < c.amountToRead
    · rw [if_pos hlt, if_pos (h hlt)]
      split
      · exact ⟨_, rfl, rfl, by simp⟩
      · split
        · rename_i heof
          exact ⟨_, rfl, trivial, fun _ => heof, by simp⟩
        · exact ⟨_, rfl, rfl, by simp⟩
    · rw [if_neg hlt]
      exact ⟨_, rfl, rfl, by simp⟩

theorem readLoop_effect (fuel : ℕ) :
    ReadEffect s c (TCB.readLoop fuel s c).1 (TCB.readLoop fuel s c).2 := by
  by_cases hstop : c.amountReadSoFar < c.amountToRead → s.rcv.lbr = s.rcv.nxt
  · obtain ⟨o, ho, hd, heof, hfail⟩ := readLoop_stop hstop fuel
    rw [ho]
    refine ⟨⟨0, by bv_omega, s.readBy_zero.symm, fun _ => ?_⟩, heof, fun h => absurd h hfail⟩
    simpa [Ring.load] using hd
  · cases fuel with
    | zero =>
      refine ⟨⟨0, by bv_omega, s.readBy_zero.symm, fun _ => ?_⟩, by simp [TCB.readLoop],
        by simp [TCB.readLoop]⟩
      simp [TCB.readLoop, ReadOutcome.Delivers, Ring.load]
    | succ fuel =>
      push Not at hstop
      obtain ⟨hlt, hne⟩ := hstop
      have hloop : TCB.readLoop (fuel + 1) s c =
          TCB.readLoop fuel (s.readCopy c).1 (s.readCopy c).2 := by
        simp only [TCB.readLoop, if_pos hlt, if_neg hne]
      -- the first copy takes all that is wanted or all there is
      have hdone : (s.readCopy c).2.amountReadSoFar < (s.readCopy c).2.amountToRead →
          (s.readCopy c).1.rcv.lbr = (s.readCopy c).1.rcv.nxt := by
        show c.amountReadSoFar + s.available c < c.amountToRead →
          s.rcv.lbr + s.available c = s.rcv.nxt
        unfold TCB.available
        split <;> bv_omega
      obtain ⟨o, ho, hd, heof, hfail⟩ := readLoop_stop hdone fuel
      rw [hloop, ho]
      refine ⟨⟨s.available c, s.available_le, rfl, fun hle => ?_⟩, heof, fun h => absurd h hfail⟩
      rw [← readCopy_eq hle]
      exact hd

end Read

section Timeout

variable {s : TCB} {key : SocketData} {now : Int64}

theorem retransmitPayload_eq (s : TCB) (packet : RetransmitSegment)
    (hle : packet.payloadLen.toNat ≤ 65535) :
    s.retransmitPayload packet =
      Ring.load 65535 s.snd.buffer packet.tcpHeader.seqNum.toNat packet.payloadLen.toNat := by
  have hlt := sequenceToBufferInd_lt packet.tcpHeader.seqNum
  have hsum : (sequenceToBufferInd packet.tcpHeader.seqNum + packet.payloadLen).toNat =
      packet.tcpHeader.seqNum.toNat % 65535 + packet.payloadLen.toNat := by
    rw [BitVec.toNat_add, toNat_sequenceToBufferInd]
    omega
  by_cases hpos : 0 < packet.payloadLen
  · rw [← read_eq_load s.snd.buffer packet.tcpHeader.seqNum packet.payloadLen (by omega)
      (p := sequenceToBufferInd packet.tcpHeader.seqNum + packet.payloadLen > maxBufSize)]
    · have hsecond : sequenceToBufferInd packet.tcpHeader.seqNum + packet.payloadLen - maxBufSize =
          packet.payloadLen - (maxBufSize - sequenceToBufferInd packet.tcpHeader.seqNum) := by
        bv_omega
      simp only [TCB.retransmitPayload, if_pos hpos, hsecond]
    · intro h
      rw [gt_iff_lt, BitVec.lt_def, hsum, toNat_maxBufSize] at h
      omega
    · intro h
      rw [gt_iff_lt, BitVec.lt_def, hsum, toNat_maxBufSize] at h
      omega
  · have hzero : packet.payloadLen = 0 := by bv_omega
    simp [TCB.retransmitPayload, hzero, Ring.load]

/-- What the retransmission timer can do. -/
inductive TimeoutEffect (s : TCB) (key : SocketData) : TimeoutResult → Prop
  | stop (h : s.state = .timeWait ∨ s.state = .closed) : TimeoutEffect s key .stop
  | idle (h : s.retransmissionQueue = []) : TimeoutEffect s key .idle
  | giveUp (h : s.retransmissionQueue ≠ []) :
      TimeoutEffect s key (.giveUp { s with state := .closed, timeoutCancelled := true })
  | resent (b : Book) {p : RetransmitSegment} {rest : List RetransmitSegment} {cwnd : U32}
      (hs : s.state ≠ .timeWait ∧ s.state ≠ .closed) (hq : s.retransmissionQueue = p :: rest)
      (hk : s.retransmitCounter ≠ maxRetransmissions)
      (hcwnd : cwnd = if s.cControlEnabled then initCwnd else s.cwnd) :
      TimeoutEffect s key (.resent ({ s with cwnd }.withBook b) (s.resendMsg key p))

theorem waitTimeout_effect : TimeoutEffect s key (s.waitTimeout key now) := by
  unfold TCB.waitTimeout
  split
  · rename_i h
    exact .stop h
  rename_i hs
  split
  · rename_i h
    exact .idle h
  · rename_i p rest hq
    split
    · exact .giveUp (by simp [hq])
    · rename_i hk
      have hs' : s.state ≠ .timeWait ∧ s.state ≠ .closed := not_or.mp hs
      by_cases hcc : s.cControlEnabled = true
      · simp only [if_pos hcc]
        exact .resent ⟨_, _, _, _, _, _, _⟩ hs' hq hk (if_pos hcc).symm
      · simp only [if_neg hcc]
        exact .resent ⟨_, _, _, _, _, _, _⟩ hs' hq hk (if_neg hcc).symm

end Timeout

end TcpIp
