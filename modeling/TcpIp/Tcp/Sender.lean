import TcpIp.Lib.Run
import TcpIp.Tcp.Moves

/-! The sending half of a connection as a machine of its own, and the connection's refinement
of it. -/
namespace TcpIp

namespace RetransmitSegment

def lo (e : RetransmitSegment) : ℕ := e.tcpHeader.seqNum.toNat

def len (e : RetransmitSegment) : ℕ := e.payloadLen.toNat

end RetransmitSegment

/-- What the sending half reads and writes. -/
structure Sender where
  snd : Send
  queue : List RetransmitSegment
  cwnd : U32
  congestion : Bool
  cancelled : Bool
  pc : SendPc

def Conn.sender (c : Conn) : Sender where
  snd := c.tcb.snd
  queue := c.tcb.retransmissionQueue
  cwnd := c.tcb.cwnd
  congestion := c.tcb.cControlEnabled
  cancelled := c.tcb.cancelled
  pc := c.send

@[simp] theorem Conn.sender_snd (c : Conn) : c.sender.snd = c.tcb.snd := rfl

@[simp] theorem Conn.sender_queue (c : Conn) : c.sender.queue = c.tcb.retransmissionQueue := rfl

@[simp] theorem Conn.sender_cwnd (c : Conn) : c.sender.cwnd = c.tcb.cwnd := rfl

@[simp] theorem Conn.sender_cancelled (c : Conn) : c.sender.cancelled = c.tcb.cancelled := rfl

@[simp] theorem Conn.sender_pc (c : Conn) : c.sender.pc = c.send := rfl

/-- The segment's acknowledgement moves SND.UNA. -/
def Conn.takesAck (c : Conn) (hdr : TCPFields) : Bool :=
  c.passesToReceive hdr && c.tcb.acceptsAck hdr

/-- The congestion window after an acknowledgement was taken. -/
def Conn.ackedCwnd (c : Conn) : U32 := if c.tcb.cControlEnabled then c.tcb.grownCwnd else c.tcb.cwnd

/-- A loss is seen: the timer resends with congestion control on, or a third duplicate comes. -/
def Conn.seesLoss (c : Conn) : Event → Bool
  | .segment seg => c.passesToReceive seg.hdr && c.tcb.thirdDuplicate seg.hdr
  | .timeout =>
    c.tcb.cControlEnabled && !c.tcb.retransmissionQueue.isEmpty && c.tcb.state ≠ .timeWait &&
      c.tcb.state ≠ .closed && c.tcb.retransmitCounter ≠ maxRetransmissions
  | _ => false

/-- The bytes a step puts in the send buffer. -/
def Conn.written (c : Conn) : Event → List U8
  | .write data => c.tcb.written data
  | _ => []

/-- What a step can do to the sending half. -/
inductive SenderMove (c : Conn) : Event → Sender → Prop
  | same {ev : Event} (hsend : ev ≠ .send)
      (hseg : ∀ seg, ev = .segment seg → c.takesAck seg.hdr = false) (hw : c.written ev = []) :
      SenderMove c ev c.sender
  | opened {seg : Segment} {s : Sender}
      (hs : c.tcb.state = .synSent ∨ c.tcb.state = .synReceived) : SenderMove c (.segment seg) s
  | wrote {data : List U8} {buffer : ℕ → U8}
      (hs : c.tcb.state = .established ∨ c.tcb.state = .closeWait)
      (hw : c.written (.write data) = data.take (c.tcb.snd.writable data).toNat)
      (hb : (c.tcb.snd.lbw - c.tcb.snd.una).toNat ≤ 65535 →
        buffer = Ring.store 65535 c.tcb.snd.buffer c.tcb.snd.lbw.toNat
          (data.take (c.tcb.snd.writable data).toNat)) :
      SenderMove c (.write data)
        { c.sender with
          snd := { c.tcb.snd with buffer, lbw := c.tcb.snd.lbw + c.tcb.snd.writable data } }
  | jump {pc : SendPc} (h : Jump c.tcb c.send pc)
      (hz : c.send = .zeroWait →
        c.tcb.cancelled = true ∨ c.tcb.snd.wnd = 0 ∧ pc = .zeroWait) :
      SenderMove c .send { c.sender with pc }
  | segment {a b : U32} (hpc : c.send = .transmit a b) (hlt : b < a)
      (hc : c.tcb.cancelled = false) :
      SenderMove c .send
        { c.sender with
          snd := { c.tcb.snd with nxt := c.tcb.snd.nxt + segmentLength a b }
          queue := c.tcb.retransmissionQueue ++
            [⟨(c.tcb.freshMsg c.key (segmentLength a b)).hdr, segmentLength a b⟩]
          pc := .transmit a (b + segmentLength a b) }
  | zeroExit {pc : SendPc} (hpc : c.send = .zeroWait) (hw : c.tcb.snd.wnd ≠ 0)
      (hc : c.tcb.cancelled = false)
      (h : Jump { c.tcb with snd := { c.tcb.snd with nxt := c.tcb.snd.nxt + 1 } } .zeroWait pc)
      (hpc' : pc = .returned ∨ pc = .windowWait ∨ pc = .top) :
      SenderMove c .send
        { c.sender with snd := { c.tcb.snd with nxt := c.tcb.snd.nxt + 1 }, pc }
  | acked {seg : Segment} (h : c.takesAck seg.hdr = true) :
      SenderMove c (.segment seg)
        { c.sender with
          snd := { c.tcb.snd with wnd := seg.hdr.windowSize.setWidth 32, una := seg.hdr.ackNum }
          queue := c.tcb.retransmissionQueue.dropWhile fun r =>
            r.tcpHeader.seqNum < seg.hdr.ackNum
          cwnd := c.ackedCwnd }
  | loss {ev : Event} (h : c.seesLoss ev = true)
      (hseg : ∀ seg, ev = .segment seg → c.takesAck seg.hdr = false) :
      SenderMove c ev { c.sender with cwnd := initCwnd }
  | initCC : SenderMove c .initCC { c.sender with cwnd := initCwnd }
  | enableCC : SenderMove c .enableCC { c.sender with congestion := true }
  | finSent {ev : Event} {e : RetransmitSegment} (hev : ev = .close ∨ ev = .closeWake ∧ 0 < c.closeWaiting)
      (h : c.tcb.snd.nxt = c.tcb.snd.lbw) :
      SenderMove c ev
        { c.sender with
          snd := { c.tcb.snd with nxt := c.tcb.snd.nxt + 1 }
          queue := c.tcb.retransmissionQueue ++ [e]
          cancelled := true }
  | lastAcked {seg : Segment} (hs : c.tcb.state = .lastAck) :
      SenderMove c (.segment seg)
        { c.sender with
          queue := c.tcb.retransmissionQueue.dropWhile fun r =>
            r.tcpHeader.seqNum < seg.hdr.ackNum }

section Refinement

variable {c c' : Conn} {seg : Segment} {out : List Msg} {l : Label}

theorem takesAck_of_not_passes (h : c.passesToReceive seg.hdr = false) :
    c.takesAck seg.hdr = false := by
  simp [Conn.takesAck, h]

theorem received_sender {st : ConnectionState} {u t : TCB} {o₁ o₂ : List Msg}
    (hp : c.passesToReceive seg.hdr = true)
    (hd : DataEffect { c.tcb with state := st } c.key seg u o₁)
    (ha : AckEffect u c.key seg.hdr t o₂) :
    SenderMove c (.segment seg) ({ c with tcb := t } : Conn).sender := by
  obtain ⟨st', r, e, rfl⟩ := hd.frame
  cases ha with
  | dropped b h =>
    refine .same (by simp) (fun seg' hseg => ?_) rfl
    cases hseg
    have h' : c.tcb.acceptsAck seg.hdr = false := h
    simp [Conn.takesAck, h']
  | fast b h =>
    have h' : c.tcb.thirdDuplicate seg.hdr = true := h
    refine .loss (by simp [Conn.seesLoss, hp, h']) fun seg' hseg => ?_
    cases hseg
    simp [Conn.takesAck, TCB.acceptsAck, h']
  | accepted b h =>
    have h' : c.tcb.acceptsAck seg.hdr = true := h
    exact .acked (by simp [Conn.takesAck, hp, h'])

theorem Handled.sender (h : Handled c seg c' out) : SenderMove c (.segment seg) c'.sender := by
  -- outside `Receive`, and its last call in LAST_ACK, the sending half is left alone
  have same : c.passesToReceive seg.hdr = false → SenderMove c (.segment seg) c.sender := by
    intro hp
    refine .same (by simp) (fun seg' hseg => ?_) rfl
    cases hseg
    exact takesAck_of_not_passes hp
  cases h with
  | ignored hp => exact same hp
  | synSent iss hs => exact .opened (Or.inl hs)
  | synRepeated hs => exact .opened (Or.inr hs)
  | accepted hs => exact .opened (Or.inr hs)
  | received hr hack hd ha => exact received_sender (hr.passes hack) hd ha
  | fin hs hf =>
    have hsnd : ({ c with tcb := (c.tcb.receiveFin c.key seg.hdr).1 } : Conn).sender =
        c.sender := by
      unfold TCB.receiveFin
      split
      · rfl
      · split <;> rfl
    rw [hsnd]
    exact same (by simp [Conn.passesToReceive, hs, hf])
  | finWait1Fin hs hack ha hf => exact same (by simp [Conn.passesToReceive, hs, hf, ha])
  | finWait2Fin hs hf hseq hs' =>
    subst hs'
    exact same (by simp [Conn.passesToReceive, hs, hf])
  | closingAcked hs => exact same (by simp [Conn.passesToReceive, hs])
  | finRepeated hs =>
    exact same (by rcases hs with hs | hs <;> simp [Conn.passesToReceive, hs])
  | lastAcked k hs => exact .lastAcked hs

theorem sendEffect_sender {pc : SendPc} {s : TCB}
    (h : SendEffect c.tcb c.key c.send pc s out) :
    SenderMove c .send ({ c with send := pc, tcb := s } : Conn).sender := by
  generalize hpc : c.send = pc₀ at h
  cases h with
  | jump hj hi ht hz =>
    subst hpc
    exact .jump hj hz
  | segment b hlt hc => exact .segment hpc hlt hc
  | zeroExit hw hc hj hpc' => exact .zeroExit hpc hw hc hj hpc'

/-- Every step of the connection is a step of its sending half. -/
theorem Step.sender (h : Step c l c') : SenderMove c l.ev c'.sender := by
  have hm := h.moved
  generalize l.ev = ev at hm
  generalize l.out = o at hm
  cases hm with
  | segment hin hh => exact hh.sender
  | wrote hh hw =>
    obtain ⟨hs, hn, buffer, rfl, hb⟩ := writeRound_wrote hw
    subst hn
    refine .wrote hs (by simp [Conn.written, TCB.written, hw]) fun hle => (hb ?_).1
    rename_i data
    have hroom := Send.writable_add_le data hle
    omega
  | read hr hh hin he =>
    obtain ⟨n, -, rfl, -⟩ := he.consumed
    exact .same (by simp) (by simp) rfl
  | readWake hr he =>
    obtain ⟨n, -, rfl, -⟩ := he.consumed
    exact .same (by simp) (by simp) rfl
  | send he => exact sendEffect_sender he
  | closeWaits hc hne =>
    cases hc with
    | enter => exact .same (by simp) (by simp) rfl
    | wake => exact .same (by simp) (by simp) rfl
  | closes hc heq =>
    cases hc with
    | enter => exact .finSent (Or.inl rfl) heq
    | wake hw => exact .finSent (Or.inr ⟨rfl, hw⟩) heq
  | resent b ht hs hq hk hcwnd =>
    by_cases hcc : c.tcb.cControlEnabled = true
    · rw [if_pos hcc] at hcwnd
      subst hcwnd
      exact .loss (by simp [Conn.seesLoss, hcc, hq, hs, hk]) (by simp)
    · rw [if_neg hcc] at hcwnd
      subst hcwnd
      exact .same (by simp) (by simp) rfl
  | handshakeGaveUp hev =>
    rcases hev with ⟨rfl, -⟩ | ⟨rfl, -⟩
    · exact .same (by simp) (by simp) rfl
    · exact .same (by simp) (by simp) rfl
  | handshakeResent hev =>
    rcases hev with ⟨rfl, -⟩ | ⟨rfl, -⟩
    · exact .same (by simp) (by simp) rfl
    · exact .same (by simp) (by simp) rfl
  | enableCC => exact .enableCC
  | initCC => exact .initCC
  | notWritten hnone => exact .same (by simp) (by simp) hnone
  | probe | closeReturn | timerStopped | timerIdle | gaveUp | ackToken | expired =>
    exact .same (by simp) (by simp) rfl

end Refinement

end TcpIp
