import TcpIp.Tcp.Conn

/-! What each function of the connection does to the TCB, said once. -/
namespace TcpIp

theorem toNat_ofNat_length {payload : List U8} (h : payload.length ≤ 65535) :
    (BitVec.ofNat 32 payload.length).toNat = payload.length := by
  rw [BitVec.toNat_ofNat]
  exact Nat.mod_eq_of_lt (by omega)

theorem sequenceToBufferInd_lt (s : U32) : (sequenceToBufferInd s).toNat < 65535 := by
  rw [toNat_sequenceToBufferInd]
  exact Nat.mod_lt _ (by omega)

/-- The code's write of `n` bytes at sequence number `s`, in one copy or two. -/
theorem write_eq_store (buf : ℕ → U8) (s n : U32) (data : List U8)
    (hn : s.toNat % 65535 + n.toNat < 2 ^ 32) (hd : n.toNat ≤ data.length) :
    (if sequenceToBufferInd s + n ≥ maxBufSize then
      Ring.copyAt
        (Ring.copyAt buf (sequenceToBufferInd s).toNat
          (slice data 0#32 (maxBufSize - sequenceToBufferInd s))) 0
        (slice data (maxBufSize - sequenceToBufferInd s)
          (maxBufSize - sequenceToBufferInd s + (n - (maxBufSize - sequenceToBufferInd s))))
    else Ring.copyAt buf (sequenceToBufferInd s).toNat (slice data 0#32 n)) =
      Ring.store 65535 buf s.toNat (data.take n.toNat) := by
  have hi := sequenceToBufferInd_lt s
  have hsub : (maxBufSize - sequenceToBufferInd s).toNat = 65535 - s.toNat % 65535 := by
    rw [toNat_sequenceToBufferInd] at hi
    rw [BitVec.toNat_sub, toNat_maxBufSize, toNat_sequenceToBufferInd]
    omega
  have hlen : (data.take n.toNat).length = n.toNat := by simp [hd]
  unfold Ring.store
  rw [hlen]
  rw [toNat_sequenceToBufferInd] at hi ⊢
  by_cases hw : s.toNat % 65535 + n.toNat < 65535
  · rw [if_neg, if_pos hw]
    · simp [slice]
    · simp only [ge_iff_le, BitVec.le_def, BitVec.toNat_add, toNat_maxBufSize,
        toNat_sequenceToBufferInd]
      omega
  · rw [if_pos, if_neg hw]
    · have hsum : (maxBufSize - sequenceToBufferInd s +
          (n - (maxBufSize - sequenceToBufferInd s))).toNat = n.toNat := by
        rw [BitVec.add_comm, BitVec.sub_add_cancel]
      simp only [slice, hsum, hsub, BitVec.toNat_ofNat, Nat.zero_mod, List.drop_zero]
      rw [List.take_take, Nat.min_eq_left (by omega)]
    · simp only [ge_iff_le, BitVec.le_def, BitVec.toNat_add, toNat_maxBufSize,
        toNat_sequenceToBufferInd]
      omega

/-- The code's read of `n` bytes at sequence number `s`, in one slice or two; some places go to
two slices only strictly past the end. -/
theorem read_eq_load (buf : ℕ → U8) (s n : U32) (hn : s.toNat % 65535 + n.toNat ≤ 131070)
    {p : Prop} [Decidable p] (hp : p → 65535 ≤ s.toNat % 65535 + n.toNat)
    (hp' : ¬ p → s.toNat % 65535 + n.toNat ≤ 65535) :
    (if p then
      Ring.slots buf (sequenceToBufferInd s).toNat (maxBufSize - sequenceToBufferInd s).toNat ++
        Ring.slots buf 0 (n - (maxBufSize - sequenceToBufferInd s)).toNat
    else Ring.slots buf (sequenceToBufferInd s).toNat n.toNat) =
      Ring.load 65535 buf s.toNat n.toNat := by
  have hi := sequenceToBufferInd_lt s
  rw [toNat_sequenceToBufferInd] at hi ⊢
  have hsub : (maxBufSize - sequenceToBufferInd s).toNat = 65535 - s.toNat % 65535 := by
    rw [BitVec.toNat_sub, toNat_maxBufSize, toNat_sequenceToBufferInd]
    omega
  split
  · rename_i h
    have hle := hp h
    have hsub' : (n - (maxBufSize - sequenceToBufferInd s)).toNat =
        n.toNat - (65535 - s.toNat % 65535) := by
      rw [BitVec.toNat_sub, hsub]
      omega
    rw [hsub, hsub', Ring.load_of_le (by omega) hle (by omega)]
  · rename_i h
    rw [Ring.load_of_lt (hp' h)]

/-- The room left from `start` on to the right edge of the receive window. -/
def Receive.room (r : Receive) (start : U32) : ℕ := (maxBufSize - (start - r.lbr)).toNat

/-- What an in-order segment leaves in the receiving half, before early arrivals are merged. -/
def Receive.stored (r : Receive) (payload : List U8) : Receive :=
  { r with
    buffer := Ring.store 65535 r.buffer r.nxt.toNat payload
    nxt := r.nxt + BitVec.ofNat 32 payload.length
    wnd := r.wnd - BitVec.ofNat 32 payload.length }

section Copy

variable {early : Bool} {payload : List U8} {r : Receive} {start : U32}

variable (early) in
/-- A segment that fits is copied by the first iteration. -/
theorem copyStep_of_fits (hlen : payload.length ≤ 65535) (hfit : payload.length ≤ r.room start) :
    copyStep early payload ⟨r, 0, start⟩ =
      { rcv :=
          let buffer := Ring.store 65535 r.buffer start.toNat payload
          if early then { r with buffer }
          else { r with
            buffer
            nxt := r.nxt + BitVec.ofNat 32 payload.length
            wnd := r.wnd - BitVec.ofNat 32 payload.length }
        amountCopied := BitVec.ofNat 32 payload.length
        startCopyIndex := start + BitVec.ofNat 32 payload.length } := by
  have hL := toNat_ofNat_length hlen
  have htoCopy : min32 (maxBufSize - (start - r.lbr)) (BitVec.ofNat 32 payload.length) =
      BitVec.ofNat 32 payload.length := by
    apply BitVec.eq_of_toNat_eq
    rw [toNat_min32, hL]
    exact Nat.min_eq_right hfit
  have hbuf := write_eq_store r.buffer start (BitVec.ofNat 32 payload.length) payload
    (by omega) (by omega)
  rw [hL, List.take_length] at hbuf
  simp only [copyStep, BitVec.ofNat_eq_ofNat, BitVec.sub_zero, BitVec.zero_add, htoCopy, hbuf]

/-- Once the copy stands at the right edge of the window, an iteration changes nothing. -/
theorem copyStep_stuck {c : Copy} (hroom : c.rcv.room c.startCopyIndex = 0) :
    copyStep early payload c = c := by
  have hzero : min32 (maxBufSize - (c.startCopyIndex - c.rcv.lbr))
      (BitVec.ofNat 32 payload.length - c.amountCopied) = 0#32 := by
    apply BitVec.eq_of_toNat_eq
    have : (maxBufSize - (c.startCopyIndex - c.rcv.lbr)).toNat = 0 := hroom
    rw [toNat_min32, this]
    simp
  have hidx : ¬ sequenceToBufferInd c.startCopyIndex ≥ maxBufSize := by
    have := sequenceToBufferInd_lt c.startCopyIndex
    simp only [ge_iff_le, BitVec.le_def, toNat_maxBufSize]
    omega
  have hcopy : ∀ i, Ring.copyAt c.rcv.buffer i [] = c.rcv.buffer := by
    intro i
    funext k
    simp [Ring.copyAt]
  have hslice : slice payload c.amountCopied c.amountCopied = [] := by simp [slice]
  simp only [copyStep, hzero, BitVec.add_zero, BitVec.sub_zero, hslice, hcopy, if_neg hidx]
  split <;> rfl

theorem copyLoop_stuck {c : Copy} (hroom : c.rcv.room c.startCopyIndex = 0)
    (hlt : c.amountCopied < BitVec.ofNat 32 payload.length) (fuel : ℕ) :
    copyLoop early payload fuel c = none := by
  induction fuel with
  | zero => rfl
  | succ fuel ih => rw [copyLoop, if_pos hlt, copyStep_stuck hroom, ih]

variable (early) in
/-- A segment that does not fit fills the window in the first iteration, and some of it is left. -/
theorem copyStep_of_not_fits (hlen : payload.length ≤ 65535)
    (hfit : ¬ payload.length ≤ r.room start) :
    (copyStep early payload ⟨r, 0, start⟩).rcv.room
        (copyStep early payload ⟨r, 0, start⟩).startCopyIndex = 0 ∧
      (copyStep early payload ⟨r, 0, start⟩).amountCopied < BitVec.ofNat 32 payload.length := by
  have hL := toNat_ofNat_length hlen
  have hmin : min32 (maxBufSize - (start - r.lbr)) (BitVec.ofNat 32 payload.length) =
      maxBufSize - (start - r.lbr) := by
    apply BitVec.eq_of_toNat_eq
    rw [toNat_min32, hL]
    exact Nat.min_eq_left (Nat.le_of_not_le hfit)
  have hlbr : (copyStep early payload ⟨r, 0, start⟩).rcv.lbr = r.lbr := by
    simp only [copyStep]
    split <;> rfl
  constructor
  · unfold Receive.room
    rw [hlbr]
    simp only [copyStep, BitVec.ofNat_eq_ofNat, BitVec.sub_zero, hmin]
    bv_omega
  · simp only [copyStep, BitVec.ofNat_eq_ofNat, BitVec.sub_zero, BitVec.zero_add, hmin]
    rw [BitVec.lt_def, hL]
    exact Nat.lt_of_not_le hfit

variable (early r start) in
/-- The copy loop ends exactly when the segment fits the window, after one iteration. -/
theorem copyLoop_eq (hpos : 0 < payload.length) (hlen : payload.length ≤ 65535) :
    copyLoop early payload (payload.length + 1) ⟨r, 0, start⟩ =
      if payload.length ≤ r.room start then some (copyStep early payload ⟨r, 0, start⟩)
      else none := by
  have hfirst : (0 : U32) < BitVec.ofNat 32 payload.length := by
    rw [BitVec.lt_def, toNat_ofNat_length hlen]
    exact hpos
  obtain ⟨k, hk⟩ := Nat.exists_eq_add_one_of_ne_zero (Nat.pos_iff_ne_zero.mp hpos)
  rw [copyLoop, if_pos hfirst]
  split
  · rename_i hfit
    rw [hk, copyLoop, if_neg]
    rw [copyStep_of_fits _ hlen hfit]
    exact BitVec.lt_irrefl _
  · rename_i hfit
    -- the first iteration fills the window; from there the loop spins
    obtain ⟨hroom, hlt⟩ := copyStep_of_not_fits early hlen hfit
    exact copyLoop_stuck hroom hlt _

end Copy

namespace TCB

/-- An in-order segment stored and the early arrivals it reaches merged. -/
def tookInOrder (s : TCB) (payload : List U8) : TCB :=
  let r := s.rcv.stored payload
  let merged := updateAckNum s.earlyArrivals r.nxt
  { s with
    rcv := { r with nxt := merged.2, wnd := r.wnd - (merged.2 - r.nxt) }
    earlyArrivals := merged.1 }

/-- An early segment stored ahead of RCV.NXT and queued. -/
def tookEarly (s : TCB) (seqNum : U32) (payload : List U8) : TCB :=
  { s with
    rcv := { s.rcv with buffer := Ring.store 65535 s.rcv.buffer seqNum.toNat payload }
    earlyArrivals := EarlyArrivalQueue.push s.earlyArrivals
      ⟨seqNum, BitVec.ofNat 32 payload.length⟩ }

theorem takeData_inOrder {s : TCB} {payload : List U8} (hpos : 0 < payload.length)
    (hlen : payload.length ≤ 65535) :
    s.takeData s.rcv.nxt payload =
      if payload.length ≤ s.rcv.room s.rcv.nxt then some (s.tookInOrder payload) else none := by
  have hlt : ¬ s.rcv.nxt > s.rcv.nxt := BitVec.lt_irrefl _
  simp only [takeData, hlt, decide_false, Bool.false_eq_true, if_false, copyLoop_eq _ _ _ hpos hlen]
  split
  · rename_i hfit
    rw [copyStep_of_fits _ hlen hfit]
    rfl
  · rfl

theorem takeData_early {s : TCB} {seqNum : U32} {payload : List U8} (h : seqNum > s.rcv.nxt)
    (hpos : 0 < payload.length) (hlen : payload.length ≤ 65535) :
    s.takeData seqNum payload =
      if payload.length ≤ s.rcv.room seqNum then some (s.tookEarly seqNum payload) else none := by
  simp only [takeData, h, decide_true, if_true, copyLoop_eq _ _ _ hpos hlen]
  split
  · rename_i hfit
    rw [copyStep_of_fits _ hlen hfit]
    rfl
  · rfl

end TCB

theorem TCB.ackData_eq (s : TCB) (key : SocketData) :
    s.ackData key =
      ({ s with state := if s.rcv.nxt = s.pendingReceivedFin then .closeWait else s.state },
        [s.ackMsg key (if s.rcv.nxt = s.pendingReceivedFin then s.rcv.nxt + 1 else s.rcv.nxt)]) := by
  unfold TCB.ackData
  split <;> rfl

/-- What the data half of `Receive` can do. -/
inductive DataEffect (s : TCB) (key : SocketData) (seg : Segment) : TCB → List Msg → Prop
  | empty (h : seg.payload = []) : DataEffect s key seg s []
  | refused (hpos : 0 < seg.payload.length)
      (h : s.rcv.classify seg.hdr.seqNum = .alreadyReceived ∨
        s.rcv.classify seg.hdr.seqNum = .beyondWindow) :
      DataEffect s key seg s [s.ackMsg key s.rcv.nxt]
  | inOrder (hpos : 0 < seg.payload.length) (hc : s.rcv.classify seg.hdr.seqNum = .inOrder)
      (hfit : seg.payload.length ≤ s.rcv.room s.rcv.nxt) :
      DataEffect s key seg ((s.tookInOrder seg.payload).ackData key).1
        ((s.tookInOrder seg.payload).ackData key).2
  | early (hpos : 0 < seg.payload.length) (hc : s.rcv.classify seg.hdr.seqNum = .early)
      (hfit : seg.payload.length ≤ s.rcv.room seg.hdr.seqNum) :
      DataEffect s key seg ((s.tookEarly seg.hdr.seqNum seg.payload).ackData key).1
        ((s.tookEarly seg.hdr.seqNum seg.payload).ackData key).2

/-- The congestion window after a new acknowledgement. -/
def TCB.grownCwnd (s : TCB) : U32 :=
  if s.cwnd < s.ssthresh then s.cwnd + mssData else s.cwnd + mssData * mssData / s.cwnd

/-- The acknowledgement half takes the acknowledgement. -/
def TCB.acceptsAck (s : TCB) (hdr : TCPFields) : Bool :=
  !s.thirdDuplicate hdr && !s.ackDropped hdr

/-- An acknowledgement that is taken is a new one. -/
theorem una_lt_of_acceptsAck {s : TCB} {hdr : TCPFields} (h : s.acceptsAck hdr = true) :
    s.snd.una < hdr.ackNum := by
  simp only [TCB.acceptsAck, TCB.ackDropped, Bool.and_eq_true, Bool.not_eq_true'] at h
  obtain ⟨-, h⟩ := h
  split at h <;> simp only [decide_eq_false_iff_not, not_or] at h <;> bv_omega

/-- A queued segment sent again. -/
def TCB.resendMsg (s : TCB) (key : SocketData) (packet : RetransmitSegment) : Msg where
  origin := .resend
  addrs := some (key.localAddr, key.destAddr)
  hdr := packet.tcpHeader
  payload := s.retransmitPayload packet

/-- What the acknowledgement half of `Receive` can do. -/
inductive AckEffect (s : TCB) (key : SocketData) (hdr : TCPFields) : TCB → List Msg → Prop
  | dropped (b : Book) (h : s.acceptsAck hdr = false) : AckEffect s key hdr (s.withBook b) []
  | fast (b : Book) {p : RetransmitSegment} {rest : List RetransmitSegment}
      (h : s.thirdDuplicate hdr = true) (hcc : s.cControlEnabled = true)
      (hq : s.retransmissionQueue = p :: rest) :
      AckEffect s key hdr ({ s with cwnd := initCwnd }.withBook b) [s.resendMsg key p]
  | accepted (b : Book) (h : s.acceptsAck hdr = true) :
      AckEffect s key hdr
        ({ s with
            snd := { s.snd with wnd := hdr.windowSize.setWidth 32, una := hdr.ackNum }
            retransmissionQueue :=
              s.retransmissionQueue.dropWhile fun r => r.tcpHeader.seqNum < hdr.ackNum
            cwnd := if s.cControlEnabled then s.grownCwnd else s.cwnd }.withBook b) []

/-- The data half leaves the sending half alone. -/
theorem DataEffect.frame {s u : TCB} {key : SocketData} {seg : Segment} {out : List Msg}
    (h : DataEffect s key seg u out) :
    ∃ st r e, u = { s with state := st, rcv := r, earlyArrivals := e } := by
  cases h with
  | empty | refused => exact ⟨s.state, s.rcv, s.earlyArrivals, rfl⟩
  | inOrder | early =>
    rw [TCB.ackData_eq]
    exact ⟨_, _, _, rfl⟩

/-- The acknowledgement half leaves the receiving half alone. -/
theorem AckEffect.frame {s t : TCB} {key : SocketData} {hdr : TCPFields} {out : List Msg}
    (h : AckEffect s key hdr t out) :
    ∃ snd q cwnd b, t = { s with snd, retransmissionQueue := q, cwnd }.withBook b := by
  cases h with
  | dropped b => exact ⟨s.snd, s.retransmissionQueue, s.cwnd, b, rfl⟩
  | fast b => exact ⟨s.snd, s.retransmissionQueue, initCwnd, b, rfl⟩
  | accepted b => exact ⟨_, _, _, b, rfl⟩

section Classify

variable {r : Receive} {seqNum : U32}

theorem classify_inOrder (h : r.classify seqNum = .inOrder) :
    seqNum = r.nxt ∧ r.nxt < r.nxt + r.wnd := by
  unfold Receive.classify at h
  split at h
  · cases h
  split at h
  · cases h
  split at h
  · cases h
  · constructor <;> bv_omega

theorem classify_early (h : r.classify seqNum = .early) :
    r.nxt < seqNum ∧ seqNum < r.nxt + r.wnd := by
  unfold Receive.classify at h
  split at h
  · cases h
  split at h
  · cases h
  split at h
  · constructor <;> bv_omega
  · cases h

end Classify

section Effects

variable {s t : TCB} {key : SocketData} {now : Int64} {seg : Segment} {out : List Msg}

theorem receiveData_effect (h : s.receiveData key seg.hdr seg.payload = some (t, out)) :
    DataEffect s key seg t out := by
  unfold TCB.receiveData at h
  split at h
  · rename_i hpos
    split at h
    · rename_i hc
      obtain ⟨rfl, rfl⟩ := Prod.mk.inj (Option.some.inj h)
      exact .refused hpos (Or.inl hc)
    · rename_i hc
      obtain ⟨rfl, rfl⟩ := Prod.mk.inj (Option.some.inj h)
      exact .refused hpos (Or.inr hc)
    · rename_i hc
      rw [(classify_inOrder hc).1, TCB.takeData_inOrder hpos seg.payload_le] at h
      split at h
      · rename_i hfit
        obtain ⟨rfl, rfl⟩ := Prod.mk.inj (Option.some.inj h)
        exact .inOrder hpos hc hfit
      · cases h
    · rename_i hc
      rw [TCB.takeData_early (classify_early hc).1 hpos seg.payload_le] at h
      split at h
      · rename_i hfit
        obtain ⟨rfl, rfl⟩ := Prod.mk.inj (Option.some.inj h)
        exact .early hpos hc hfit
      · cases h
  · rename_i hpos
    obtain ⟨rfl, rfl⟩ := Prod.mk.inj (Option.some.inj h)
    exact .empty (List.length_eq_zero_iff.mp (by omega))

theorem updateTimeout_eq (s : TCB) (now : Int64) (n : U32) :
    ∃ b, s.updateTimeout now n = s.withBook b := by
  unfold TCB.updateTimeout
  cases h : s.segmentToTimestamp n with
  | none => exact ⟨s.book, rfl⟩
  | some sent => exact ⟨⟨_, _, _, _, _, _, _⟩, rfl⟩

theorem updateCWNDWindow_eq (s : TCB) : s.updateCWNDWindow = { s with cwnd := s.grownCwnd } := by
  unfold TCB.updateCWNDWindow TCB.grownCwnd
  split <;> rfl

/-- A new acknowledgement up to the RTT sample. -/
theorem acceptAck_split (s : TCB) (now : Int64) (hdr : TCPFields) :
    ∃ k, s.acceptAck now hdr =
      ({ s with
          snd := { s.snd with wnd := hdr.windowSize.setWidth 32, una := hdr.ackNum }
          retransmissionQueue :=
            s.retransmissionQueue.dropWhile fun r => r.tcpHeader.seqNum < hdr.ackNum
          retransmitCounter := k
          cwnd := if s.cControlEnabled then s.grownCwnd else s.cwnd
          currentAck := if s.cControlEnabled then hdr.ackNum else s.currentAck
          currentAckFreq := if s.cControlEnabled then 1 else s.currentAckFreq } :
        TCB).updateTimeout now hdr.ackNum := by
  obtain ⟨k, hk⟩ := s.removeFromRetransmissionQueue_eq hdr.ackNum
  refine ⟨k, ?_⟩
  unfold TCB.acceptAck
  generalize s.removeFromRetransmissionQueue hdr.ackNum = r at hk
  subst hk
  by_cases hcc : s.cControlEnabled = true
  · simp only [updateCWNDWindow_eq, if_pos hcc]
    rfl
  · simp only [if_neg hcc]

theorem acceptAck_eq (s : TCB) (now : Int64) (hdr : TCPFields) :
    ∃ b, s.acceptAck now hdr =
      { s with
          snd := { s.snd with wnd := hdr.windowSize.setWidth 32, una := hdr.ackNum }
          retransmissionQueue :=
            s.retransmissionQueue.dropWhile fun r => r.tcpHeader.seqNum < hdr.ackNum
          cwnd := if s.cControlEnabled then s.grownCwnd else s.cwnd }.withBook b := by
  obtain ⟨k, hk⟩ := acceptAck_split s now hdr
  rw [hk]
  exact updateTimeout_eq _ _ _

/-- The control block once the acknowledgement has been counted, if it repeats the last one. -/
def TCB.countDuplicate (s : TCB) (hdr : TCPFields) : TCB :=
  if s.cControlEnabled ∧ hdr.ackNum = s.currentAck then
    { s with currentAckFreq := s.currentAckFreq + 1 }
  else s

theorem TCB.countDuplicate_eq (s : TCB) (hdr : TCPFields) :
    ∃ k, s.countDuplicate hdr = { s with currentAckFreq := k } := by
  unfold TCB.countDuplicate
  split
  · exact ⟨_, rfl⟩
  · exact ⟨s.currentAckFreq, rfl⟩

/-- The acknowledgement half, where no third duplicate has come. -/
theorem receiveAck_of_not_third {hdr : TCPFields} (h : s.thirdDuplicate hdr = false) :
    s.receiveAck key now hdr =
      if s.ackDropped hdr then (s.countDuplicate hdr, [])
      else ((s.countDuplicate hdr).acceptAck now hdr, []) := by
  obtain ⟨k, hk⟩ := s.countDuplicate_eq hdr
  have hd : (s.countDuplicate hdr).ackDropped hdr = s.ackDropped hdr := by
    rw [hk]
    rfl
  simp only [TCB.receiveAck, h, Bool.false_eq_true, if_false]
  rw [← hd]
  rfl

theorem receiveAck_effect {hdr : TCPFields} (h : s.receiveAck key now hdr = (t, out)) :
    AckEffect s key hdr t out := by
  by_cases hfast : s.thirdDuplicate hdr = true
  · have hthird := hfast
    simp only [TCB.thirdDuplicate, decide_eq_true_eq] at hthird
    obtain ⟨hcc, -, -, hpos⟩ := hthird
    simp only [TCB.receiveAck, if_pos hfast, TCB.fastRetransmit] at h
    split at h
    · rename_i hq
      simp [hq] at hpos
    · rename_i p rest hq
      obtain ⟨rfl, rfl⟩ := Prod.mk.inj h
      exact .fast ⟨_, _, _, _, _, _, _⟩ hfast hcc hq
  · have hnot : s.thirdDuplicate hdr = false := Bool.eq_false_of_not_eq_true hfast
    obtain ⟨k, hk⟩ := s.countDuplicate_eq hdr
    rw [receiveAck_of_not_third hnot, hk] at h
    split at h
    · rename_i hd
      obtain ⟨rfl, rfl⟩ := Prod.mk.inj h
      exact .dropped { s.book with currentAckFreq := k } (by simp [TCB.acceptsAck, hd])
    · rename_i hd
      obtain ⟨rfl, rfl⟩ := Prod.mk.inj h
      obtain ⟨b, hb⟩ := acceptAck_eq { s with currentAckFreq := k } now hdr
      rw [hb]
      exact .accepted b (by simp [TCB.acceptsAck, hd, hnot])

/-- `Receive` on a segment with the ACK flag is its data half, then its acknowledgement half. -/
theorem receive_effect (h : s.receive key now seg = some (t, out)) :
    (seg.hdr.hasAck = false ∧ t = s ∧ out = []) ∨
    (seg.hdr.hasAck = true ∧ ∃ u o₁ o₂, DataEffect s key seg u o₁ ∧
      AckEffect u key seg.hdr t o₂ ∧ out = o₁ ++ o₂) := by
  unfold TCB.receive at h
  split at h
  · rename_i hack
    obtain ⟨⟨u, o₁⟩, hd, ha⟩ := Option.map_eq_some_iff.mp h
    obtain ⟨rfl, rfl⟩ := Prod.mk.inj ha
    exact Or.inr ⟨hack, u, o₁, _, receiveData_effect hd, receiveAck_effect rfl, rfl⟩
  · rename_i hack
    obtain ⟨rfl, rfl⟩ := Prod.mk.inj (Option.some.inj h)
    exact Or.inl ⟨by simpa using hack, rfl, rfl⟩

end Effects

end TcpIp
