import TcpIp.Tcp.States
import TcpIp.Tcp.Receiver

/-! Which messages a step can emit. -/
namespace TcpIp

/-- The FIN of `Close`. -/
def Conn.finMsg (c : Conn) : Msg where
  origin := .control
  addrs := some (c.localAddr, c.key.destAddr)
  hdr := createTCPHeader c.localAddr c.key.destAddr c.key.localPort c.key.destPort c.tcb.snd.nxt
    (if c.tcb.state = .closeWait then c.tcb.rcv.nxt + 1 else c.tcb.rcv.nxt)
    (tcpFlagFin ||| tcpFlagAck) c.tcb.rcv.wnd []
  payload := []

/-- A message of a step from `c` to `c'`. -/
inductive Emits (c c' : Conn) : Event → Msg → Prop
  | resent {ev : Event} {p : RetransmitSegment} (hp : p ∈ c.tcb.retransmissionQueue) :
      Emits c c' ev (c.tcb.resendMsg c.key p)
  | handshakeResent {ev : Event} {m : Msg} (hev : ev = .connectTimeout ∨ ev = .ackTimeout)
      (hm : m = c.synMsg .resend ∨ m = c.synAckMsg .resend) : Emits c c' ev m
  | opening {seg : Segment} {m : Msg} (hs : c.tcb.state = .synSent ∨ c.tcb.state = .synReceived)
      (hm : m.payload = [] ∧ m.hdr.ackNum = c'.tcb.rcv.nxt) : Emits c c' (.segment seg) m
  | acked {seg : Segment} (hp : c.passesToReceive seg.hdr = true)
      (hpos : 0 < seg.payload.length) :
      Emits c c' (.segment seg) (({ c.tcb with rcv := c'.tcb.rcv } : TCB).ackMsg c.key
        (if c.reachesFin seg then c'.tcb.rcv.nxt + 1 else c'.tcb.rcv.nxt))
  | fin {seg : Segment} (hs : c.tcb.state = .established) (hf : seg.hdr.hasFin = true) :
      Emits c c' (.segment seg) (c.tcb.ackMsg c.key
        (if seg.hdr.seqNum = c.tcb.rcv.nxt then c.tcb.rcv.nxt + 1
          else if seg.hdr.seqNum > c.tcb.rcv.nxt then c.tcb.rcv.nxt else 0))
  | finCounted {seg : Segment} (h : c.countsFin (.segment seg) = true) :
      Emits c c' (.segment seg) (c'.tcb.ackMsg c.key c'.tcb.rcv.nxt)
  | finRepeated {seg : Segment} (hs : c.tcb.state = .timeWait ∨ c.tcb.state = .closeWait)
      (hf : seg.hdr.hasFin = true) :
      Emits c c' (.segment seg) (c.tcb.ackMsg c.key c.tcb.rcv.nxt)
  | data {a b : U32} (hpc : c.send = .transmit a b) (hlt : b < a) (hc : c.tcb.cancelled = false)
      (hnxt : c'.tcb.snd.nxt = c.tcb.snd.nxt + segmentLength a b)
      (hrcv : c'.tcb.rcv = c.tcb.rcv) :
      Emits c c' .send (c.tcb.freshMsg c.key (segmentLength a b))
  | probe (hz : c.send = .zeroWait) (hc : c.tcb.cancelled = false) (hc' : c' = c) :
      Emits c c' .probe (c.tcb.dataMsg c.key .probe
        [c.tcb.snd.buffer (sequenceToBufferInd c.tcb.snd.nxt).toNat])
  | closed {ev : Event} (hev : ev = .close ∨ ev = .closeWake)
      (heq : c.tcb.snd.nxt = c.tcb.snd.lbw) : Emits c c' ev c.finMsg

section Emissions

variable {c c' : Conn} {seg : Segment} {out : List Msg} {l : Label} {m : Msg}

theorem TCB.receiveFin_msgs (s : TCB) (key : SocketData) (hdr : TCPFields) :
    (s.receiveFin key hdr).2 = [s.ackMsg key
      (if hdr.seqNum = s.rcv.nxt then s.rcv.nxt + 1
        else if hdr.seqNum > s.rcv.nxt then s.rcv.nxt else 0)] := by
  unfold TCB.receiveFin
  by_cases heq : hdr.seqNum = s.rcv.nxt
  · simp only [if_pos heq]
  · by_cases hgt : hdr.seqNum > s.rcv.nxt
    · simp only [if_neg heq, if_pos hgt]
    · simp only [if_neg heq, if_neg hgt]

theorem DataEffect.emits {st : ConnectionState} {u : TCB}
    (h : DataEffect { c.tcb with state := st } c.key seg u out)
    (hp : c.passesToReceive seg.hdr = true) (hrcv : c'.tcb.rcv = u.rcv) (hm : m ∈ out) :
    Emits c c' (.segment seg) m := by
  have hdef := reachesFin_iff hp
  -- every acknowledgement of the data half has this form
  have hacked : 0 < seg.payload.length →
      m = ({ c.tcb with rcv := u.rcv } : TCB).ackMsg c.key
        (if c.reachesFin seg then u.rcv.nxt + 1 else u.rcv.nxt) →
      Emits c c' (.segment seg) m := by
    rintro hpos rfl
    rw [← hrcv]
    exact .acked hp hpos
  cases h with
  | empty => simp at hm
  | refused hpos h =>
    have h' : c.tcb.rcv.classify seg.hdr.seqNum = .alreadyReceived ∨
      c.tcb.rcv.classify seg.hdr.seqNum = .beyondWindow := h
    refine hacked hpos ?_
    rw [if_neg (by rcases h' with h' | h' <;> simp [hdef, h'])]
    exact List.mem_singleton.mp hm
  | inOrder hpos hc =>
    have hc' : c.tcb.rcv.classify seg.hdr.seqNum = .inOrder := hc
    rw [TCB.ackData_eq] at hm hacked
    refine hacked hpos ?_
    simp only [hdef, hpos, hc', true_and, reduceCtorEq, false_and, or_false]
    exact List.mem_singleton.mp hm
  | early hpos hc =>
    have hc' : c.tcb.rcv.classify seg.hdr.seqNum = .early := hc
    rw [TCB.ackData_eq] at hm hacked
    refine hacked hpos ?_
    simp only [hdef, hpos, hc', true_and, reduceCtorEq, false_and, false_or]
    exact List.mem_singleton.mp hm

theorem Handled.emits (h : Handled c seg c' out) (hm : m ∈ out) : Emits c c' (.segment seg) m := by
  cases h with
  | ignored | closingAcked | lastAcked => simp at hm
  | synSent iss hs _ _ hc' hout => exact .opening (Or.inl hs) (hout m hm).2.2
  | synRepeated hs =>
    rw [List.mem_singleton] at hm
    subst hm
    exact .opening (Or.inr hs) ⟨rfl, rfl⟩
  | accepted hs _ hout =>
    obtain rfl := hout m hm
    exact .opening (Or.inr hs) ⟨rfl, rfl⟩
  | received hr hack hd ha =>
    rcases List.mem_append.mp hm with hm | hm
    · refine hd.emits (hr.passes hack) ?_ hm
      obtain ⟨snd, q, cwnd, b, rfl⟩ := ha.frame
      rfl
    · obtain ⟨st', r, e, rfl⟩ := hd.frame
      cases ha with
      | @fast b p rest _ _ hq =>
        rw [List.mem_singleton.mp hm]
        have hq' : c.tcb.retransmissionQueue = p :: rest := hq
        exact .resent (p := p) (by simp [hq'])
      | _ => simp at hm
  | fin hs hf =>
    rw [TCB.receiveFin_msgs, List.mem_singleton] at hm
    subst hm
    exact .fin hs hf
  | finWait1Fin hs hack ha hf =>
    rw [List.mem_singleton.mp hm]
    exact .finCounted (by simp [Conn.countsFin, hs, hack, ha, hf])
  | finWait2Fin hs hf hseq hs' =>
    rw [List.mem_singleton.mp hm]
    exact .finCounted (by simp [Conn.countsFin, hs, hf, hseq])
  | finRepeated hs hf =>
    rw [List.mem_singleton.mp hm]
    exact .finRepeated hs hf

theorem Step.emits (h : Step c l c') (hmem : m ∈ l.out.msgs) : Emits c c' l.ev m := by
  have hm := h.moved
  generalize l.ev = ev at hm
  generalize l.out = o at hm hmem
  cases hm with
  | segment hin hh => exact hh.emits hmem
  | send he =>
    generalize hpc : c.send = pc at he
    cases he with
    | segment b hlt hc =>
      rw [List.mem_singleton.mp hmem]
      exact .data hpc hlt hc rfl rfl
    | _ => simp at hmem
  | probe hz =>
    simp only [TCB.probe] at hmem
    split at hmem
    · simp at hmem
    · rename_i hc
      rw [List.mem_singleton.mp hmem]
      exact .probe hz (Bool.eq_false_of_not_eq_true hc) rfl
  | closes hc heq =>
    cases hc with
    | enter =>
      rw [List.mem_singleton.mp hmem]
      exact .closed (Or.inl rfl) heq
    | wake =>
      rw [List.mem_singleton.mp hmem]
      exact .closed (Or.inr rfl) heq
  | resent b ht hs hq =>
    rw [List.mem_singleton.mp hmem]
    exact .resent (by rw [hq]; exact List.mem_cons_self)
  | handshakeResent hev =>
    obtain rfl := List.mem_singleton.mp hmem
    rcases hev with ⟨rfl, -, hm⟩ | ⟨rfl, -, hm⟩
    · exact .handshakeResent (Or.inl rfl) (Or.inl hm)
    · exact .handshakeResent (Or.inr rfl) (Or.inr hm)
  | _ => simp at hmem

/-- Whatever is queued for retransmission has been sent, as data or as the FIN. -/
theorem Step.queued (h : Step c l c') {e : RetransmitSegment}
    (he : e ∈ c'.tcb.retransmissionQueue) :
    e ∈ c.tcb.retransmissionQueue ∨ ∃ m ∈ l.out.msgs, m.hdr = e.tcpHeader ∧
      ((∃ a b, m = c.tcb.freshMsg c.key (segmentLength a b) ∧
        e.payloadLen = segmentLength a b) ∨ m = c.finMsg ∧ e.payloadLen = 0) := by
  have hm := h.moved
  generalize l.ev = ev at hm
  generalize l.out = o at hm
  cases hm with
  | segment hin hh =>
    refine Or.inl ?_
    cases hh with
    | received hr hack hd ha =>
      obtain ⟨st', r, e', rfl⟩ := hd.frame
      cases ha with
      | accepted => exact (List.dropWhile_sublist _).subset he
      | _ => exact he
    | synSent iss hs _ _ hc' =>
      subst hc'
      exact he
    | fin hs hf =>
      simp only [TCB.receiveFin] at he
      split at he
      · exact he
      · split at he <;> exact he
    | finWait2Fin hs hf _ hs' =>
      subst hs'
      exact he
    | lastAcked => exact (List.dropWhile_sublist _).subset he
    | _ => exact he
  | wrote hh hw =>
    obtain ⟨-, -, buffer, rfl, -⟩ := writeRound_wrote hw
    exact Or.inl he
  | read hr hh hin he' | readWake hr he' =>
    obtain ⟨n, -, rfl, -⟩ := he'.consumed
    exact Or.inl he
  | send he' =>
    generalize c.send = pc at he'
    cases he' with
    | segment b hlt hc =>
      rcases List.mem_append.mp he with he | he
      · exact Or.inl he
      · rw [List.mem_singleton.mp he]
        exact Or.inr ⟨_, List.mem_singleton_self _, rfl, Or.inl ⟨_, _, rfl, rfl⟩⟩
    | _ => exact Or.inl he
  | closeWaits hc => cases hc <;> exact Or.inl he
  | closes hc =>
    cases hc <;>
    · rcases List.mem_append.mp he with he | he
      · exact Or.inl he
      · rw [List.mem_singleton.mp he]
        exact Or.inr ⟨_, List.mem_singleton_self _, rfl, Or.inr ⟨rfl, rfl⟩⟩
  | _ => exact Or.inl he

/-- A step leaves the addresses of the connection alone, and outside `Write` its send ring. -/
theorem Step.kept (h : Step c l c') : c'.key = c.key ∧ c'.localAddr = c.localAddr ∧
    (c'.tcb.snd.buffer = c.tcb.snd.buffer ∨ ∃ data n, l.ev = .write data ∧ l.out.msgs = [] ∧
      c.tcb.writeRound data = .wrote c'.tcb n) := by
  have hm := h.moved
  generalize l.ev = ev at hm
  generalize l.out = o at hm
  cases hm with
  | segment hin hh =>
    cases hh with
    | received hr hack hd ha =>
      obtain ⟨st', r, e', rfl⟩ := hd.frame
      cases ha <;> exact ⟨rfl, rfl, Or.inl rfl⟩
    | synSent iss hs _ _ hc' =>
      subst hc'
      exact ⟨rfl, rfl, Or.inl rfl⟩
    | fin hs hf =>
      refine ⟨rfl, rfl, Or.inl ?_⟩
      simp only [TCB.receiveFin]
      split
      · rfl
      · split <;> rfl
    | finWait2Fin hs hf _ hs' =>
      subst hs'
      exact ⟨rfl, rfl, Or.inl rfl⟩
    | _ => exact ⟨rfl, rfl, Or.inl rfl⟩
  | wrote hh hw => exact ⟨rfl, rfl, Or.inr ⟨_, _, rfl, rfl, hw⟩⟩
  | read hr hh hin he' | readWake hr he' =>
    obtain ⟨n, -, rfl, -⟩ := he'.consumed
    exact ⟨rfl, rfl, Or.inl rfl⟩
  | send he' =>
    generalize c.send = pc at he'
    cases he' <;> exact ⟨rfl, rfl, Or.inl rfl⟩
  | closeWaits hc => cases hc <;> exact ⟨rfl, rfl, Or.inl rfl⟩
  | closes hc => cases hc <;> exact ⟨rfl, rfl, Or.inl rfl⟩
  | _ => exact ⟨rfl, rfl, Or.inl rfl⟩

end Emissions

end TcpIp
