import TcpIp.Net.Conveying
import TcpIp.Net.Stack
import TcpIp.Tcp.Closing
import TcpIp.Tcp.OneWay

/-! A connection of which one side closes and the other does not, with congestion control on or off:
both streams arrive intact, and the end of the closed one is seen after its last byte. -/
namespace TcpIp

open Runs

section Headers

variable {c c' : Conn} {l : Label} {m : Msg}

/-- `Read` reports the end of the stream in CLOSE_WAIT, or on a connection that gave up. -/
theorem Step.eof_cases (hs : Step c l c') (hout : l.out.read = some .eof) :
    c.tcb.state = .closeWait ∨ c.tcb.timeoutCancelled = true := by
  have hm := hs.receiver
  rw [hout] at hm
  generalize l.ev = ev at hm
  generalize hshown : some ReadOutcome.eof = o at hm
  generalize c'.receiver = r at hm
  cases hm with
  | @read _ call t o hcall hre =>
    refine hre.eof ?_
    cases o with
    | eof => rfl
    | waiting | returned | failed => cases hshown
  | _ => cases hshown

/-- Without a FIN from the peer the state changes by the own FIN, its acknowledgement and the
timers. -/
theorem Step.state_of_noFin (hs : Step c l c')
    (hopen : c.tcb.state ≠ .synSent ∧ c.tcb.state ≠ .synReceived)
    (hfin : ∀ seg, l.ev = .segment seg → seg.hdr.hasFin = false)
    (hreach : ∀ seg, l.ev = .segment seg → c.reachesFin seg = false) :
    c'.tcb.state = c.tcb.state ∨ c'.tcb.state = .closed ∨
      c.tcb.state = .finWait1 ∧ c'.tcb.state = .finWait2 ∨
      c.tcb.state = .closing ∧ c'.tcb.state = .timeWait ∨
      (l.ev = .close ∨ l.ev = .closeWake) ∧ c.tcb.snd.nxt = c.tcb.snd.lbw ∧
        c'.tcb.state = if c.tcb.state = .closeWait then .lastAck else .finWait1 := by
  have hm := hs.state
  generalize c'.tcb.state = st at hm ⊢
  generalize l.ev = ev at hm hfin hreach ⊢
  cases hm with
  | same => exact Or.inl rfl
  | gaveUp | expired | lastAcked => exact Or.inr (Or.inl rfl)
  | finAcked hs => exact Or.inr (Or.inr (Or.inl ⟨hs, rfl⟩))
  | closingAcked hs => exact Or.inr (Or.inr (Or.inr (Or.inl ⟨hs, rfl⟩)))
  | finSent hev heq => exact Or.inr (Or.inr (Or.inr (Or.inr ⟨hev, heq, rfl⟩)))
  | established hs => exact absurd hs (not_or.mpr hopen)
  | synReceived hs => exact absurd hs hopen.1
  | pendingFin _ hr => simp [hreach _ rfl] at hr
  | fin _ hf | finWait1Fin _ _ _ hf | finWait2Fin _ hf => simp [hfin _ rfl] at hf

/-- After the handshake a FIN comes from `Close`, or from the queue again. -/
theorem Step.fin_emitted (hs : Step c l c')
    (hopen : c.tcb.state ≠ .synSent ∧ c.tcb.state ≠ .synReceived)
    (htimer : l.ev ≠ .connectTimeout ∧ l.ev ≠ .ackTimeout) (hm : m ∈ l.out.msgs) :
    (∃ p ∈ c.tcb.retransmissionQueue, m.hdr = p.tcpHeader) ∨ m.hdr.hasFin = false ∨
      l.ev = .close ∨ l.ev = .closeWake := by
  have he := hs.emits hm
  generalize l.ev = ev at he htimer ⊢
  cases he with
  | resent hp => exact Or.inl ⟨_, hp, rfl⟩
  | handshakeResent hev => exact absurd hev (not_or.mpr htimer)
  | opening hs => exact absurd hs (not_or.mpr hopen)
  | closed hev => exact Or.inr (Or.inr hev)
  | acked | fin | finCounted | finRepeated | data | probe =>
    exact Or.inr (Or.inl (createTCPHeader_hasFin ..))

theorem Step.rcv_of_close (hs : Step c l c') (hev : l.ev = .close ∨ l.ev = .closeWake) :
    c'.tcb.rcv = c.tcb.rcv := by
  have hm := hs.closing
  generalize l.ev = ev at hm hev
  generalize l.out = o at hm
  cases hm with
  | waits hc | fin hc => cases hc <;> rfl
  | other hne => exact absurd hev (not_or.mpr hne)

/-- Before any FIN of the peer, what a side acknowledges is RCV.NXT, now or at an earlier time. -/
theorem Step.acks_of_noFin (hs : Step c l c')
    (hopen : c.tcb.state ≠ .synSent ∧ c.tcb.state ≠ .synReceived)
    (hcw : c.tcb.state ≠ .closeWait)
    (htimer : l.ev ≠ .connectTimeout ∧ l.ev ≠ .ackTimeout)
    (hfin : ∀ seg, l.ev = .segment seg → seg.hdr.hasFin = false)
    (hreach : ∀ seg, l.ev = .segment seg → c.reachesFin seg = false) (hm : m ∈ l.out.msgs) :
    (∃ p ∈ c.tcb.retransmissionQueue, m.hdr = p.tcpHeader) ∨ m.hdr.ackNum = c'.tcb.rcv.nxt := by
  have he := hs.emits hm
  have hclose := hs.rcv_of_close
  generalize l.ev = ev at he htimer hfin hreach hclose
  cases he with
  | resent hp => exact Or.inl ⟨_, hp, rfl⟩
  | handshakeResent hev => exact absurd hev (not_or.mpr htimer)
  | opening hs => exact absurd hs (not_or.mpr hopen)
  | @acked seg =>
    rw [if_neg (by simp [hreach seg rfl])]
    exact Or.inr rfl
  | fin _ hf | finRepeated _ hf => simp [hfin _ rfl] at hf
  | finCounted => exact Or.inr rfl
  | data _ _ _ _ hrcv => exact Or.inr (by rw [hrcv]; rfl)
  | probe _ _ hc' =>
    subst hc'
    exact Or.inr rfl
  | closed hev =>
    refine Or.inr ?_
    rw [hclose hev]
    exact if_neg hcw

end Headers

/-- The events of a connection on which `a` may close at any time and `b` does not, and `b` reads
without asking for a full buffer. The timers of the handshake have ended. -/
def Event.ofHalfClose : Side → Event → Bool
  | _, .connectTimeout | _, .ackTimeout => false
  | .b, .close | .b, .closeWake => false
  | .b, .read _ readAll => !readAll
  | _, _ => true

def HalfCloseStep (n : Net) (l : Side × Label) (n' : Net) : Prop :=
  PairStep n l n' ∧ l.2.ev.ofHalfClose l.1 = true

/-- The writer after its FIN; `x₀` is the writer that the FIN found, with everything written
already on the wire. Nothing is written any more, and whatever is sent again comes out of the
buffer and the queue of that moment. -/
structure Finished (x₀ x : Conn) (out : List Msg) : Prop where
  sent : x₀.tcb.snd.nxt = x₀.tcb.snd.lbw
  plain : ∀ e ∈ x₀.tcb.retransmissionQueue, e.tcpHeader.hasFin = false
  state : x.tcb.state = .finWait1 ∨ x.tcb.state = .finWait2 ∨ x.tcb.state = .closed
  cancelled : x.tcb.cancelled = true
  lbw : x.tcb.snd.lbw = x₀.tcb.snd.lbw
  nxt : x.tcb.snd.nxt = x₀.tcb.snd.lbw + 1
  buffer : x.tcb.snd.buffer = x₀.tcb.snd.buffer
  queue : ∀ e ∈ x.tcb.retransmissionQueue, e ∈ x₀.tcb.retransmissionQueue ∨
    e.tcpHeader.seqNum = x₀.tcb.snd.lbw ∧ e.payloadLen = 0
  fins : ∀ m ∈ out, m.hdr.hasFin = true → m.hdr.seqNum = x₀.tcb.snd.lbw

/-- The reader after the writer's FIN. It enters CLOSE_WAIT with the last byte. -/
structure Draining (x₀ y : Conn) : Prop where
  state : y.tcb.state = .established ∨ y.tcb.state = .closeWait ∨ y.tcb.state = .closed
  pending : y.tcb.pendingReceivedFin = 0 ∨ y.tcb.pendingReceivedFin = x₀.tcb.snd.lbw
  reached : y.tcb.state = .closeWait → y.tcb.rcv.nxt = x₀.tcb.snd.lbw

section Finished

variable {f : ℕ} {W : List U8} {x₀ x x' y : Conn} {out : List Msg} {l : Label} {m : Msg}
  {ev : Event} {s : Sender}

theorem Finished.opened (h : Finished x₀ x out) :
    x.tcb.state ≠ .synSent ∧ x.tcb.state ≠ .synReceived := by
  rcases h.state with hs | hs | hs <;> simp [hs]

theorem Finished.nxt_ne (h : Finished x₀ x out) : x.tcb.snd.nxt ≠ x.tcb.snd.lbw := by
  rw [h.nxt, h.lbw]
  bv_omega

/-- The sending half only goes through what it has queued. -/
theorem Finished.sender (h : Finished x₀ x out) (hm : SenderMove x ev s) :
    s.cancelled = true ∧ s.snd.lbw = x.tcb.snd.lbw ∧ s.snd.nxt = x.tcb.snd.nxt ∧
      s.snd.buffer = x.tcb.snd.buffer ∧ ∀ e ∈ s.queue, e ∈ x.tcb.retransmissionQueue := by
  have hcan := h.cancelled
  cases hm with
  | same | jump | loss | initCC | enableCC => exact ⟨hcan, rfl, rfl, rfl, fun e he => he⟩
  | opened hs => exact absurd hs (not_or.mpr h.opened)
  | wrote hs => rcases h.state with hst | hst | hst <;> simp [hst] at hs
  | segment _ _ hc | zeroExit _ _ hc => simp [hcan] at hc
  | acked | lastAcked =>
    exact ⟨hcan, rfl, rfl, rfl, fun e he => List.dropWhile_subset _ he⟩
  | finSent _ heq => exact absurd heq h.nxt_ne

/-- Nothing goes into the buffer of a finished writer. -/
theorem Finished.written (h : Finished x₀ x out) (ev : Event) : x.written ev = [] := by
  cases ev with
  | write data =>
    have hclosing : x.tcb.writeRound data = .closing := by
      refine if_pos ?_
      rcases h.state with hst | hst | hst <;> simp [hst]
    simp only [Conn.written, TCB.written, hclosing]
  | _ => rfl

/-- A message of the finished writer: a copy of queued data, the FIN again, or an
acknowledgement. -/
theorem Finished.emits (h : Finished x₀ x out) (hs : Step x l x')
    (htimer : l.ev ≠ .connectTimeout ∧ l.ev ≠ .ackTimeout) (hm : m ∈ l.out.msgs) :
    (∃ p ∈ x₀.tcb.retransmissionQueue, m.hdr = p.tcpHeader ∧
      m.payload = x₀.tcb.retransmitPayload p) ∨
    m.payload = [] ∧ (m.hdr.hasFin = true → m.hdr.seqNum = x₀.tcb.snd.lbw) := by
  have he := hs.emits hm
  generalize l.ev = ev at he htimer
  have hack : ∀ hdr : TCPFields, hdr.hasFin = false → hdr.hasFin = true →
      hdr.seqNum = x₀.tcb.snd.lbw := fun hdr hno hyes => by simp [hno] at hyes
  cases he with
  | @resent _ p hp =>
    have hpay : x.tcb.retransmitPayload p = x₀.tcb.retransmitPayload p := by
      simp only [TCB.retransmitPayload, h.buffer]
    rcases h.queue p hp with hp | ⟨hseq, hlen⟩
    · exact Or.inl ⟨p, hp, rfl, hpay⟩
    · refine Or.inr ⟨?_, fun _ => hseq⟩
      show x.tcb.retransmitPayload p = []
      rw [retransmitPayload_eq _ _ (by simp [hlen]), hlen]
      rfl
  | handshakeResent hev => exact absurd hev (not_or.mpr htimer)
  | opening hs => exact absurd hs (not_or.mpr h.opened)
  | data _ _ hc | probe _ hc => simp [h.cancelled] at hc
  | closed _ heq => exact absurd heq h.nxt_ne
  | acked | fin | finCounted | finRepeated =>
    exact Or.inr ⟨rfl, hack _ (createTCPHeader_hasFin ..)⟩

theorem Finished.step (h : Finished x₀ x out) (hs : Step x l x')
    (htimer : l.ev ≠ .connectTimeout ∧ l.ev ≠ .ackTimeout)
    (hfin : ∀ seg, l.ev = .segment seg → seg.hdr.hasFin = false)
    (hreach : ∀ seg, l.ev = .segment seg → x.reachesFin seg = false) :
    Finished x₀ x' (out ++ l.out.msgs) := by
  obtain ⟨hcan, hlbw, hnxt, hbuffer, hqueue⟩ := h.sender hs.sender
  refine ⟨h.sent, h.plain, ?_, hcan, hlbw.trans h.lbw, hnxt.trans h.nxt,
    hbuffer.trans h.buffer, fun e he => h.queue e (hqueue e he), fun m hm hseg => ?_⟩
  · rcases hs.state_of_noFin h.opened hfin hreach with heq | heq | ⟨-, heq⟩ | ⟨heq, -⟩ | ⟨-, heq, -⟩
    · rw [heq]
      exact h.state
    · exact Or.inr (Or.inr heq)
    · exact Or.inr (Or.inl heq)
    · rcases h.state with hst | hst | hst <;> simp [hst] at heq
    · exact absurd heq h.nxt_ne
  · rcases List.mem_append.mp hm with hm | hm
    · exact h.fins m hm hseg
    · rcases h.emits hs htimer hm with ⟨p, hp, hhdr, -⟩ | ⟨-, hseq⟩
      · rw [hhdr, h.plain p hp] at hseg
        cases hseg
      · exact hseq hseg

/-- What the finished writer sends still belongs to the stream. -/
theorem Finished.conveys (h : Finished x₀ x out) (hc : Conveys f W x₀ y out) (hs : Step x l x')
    (htimer : l.ev ≠ .connectTimeout ∧ l.ev ≠ .ackTimeout) :
    Conveys f W x₀ y (out ++ l.out.msgs) := by
  refine { hc with pieces := fun m hm hpay => ?_ }
  rcases List.mem_append.mp hm with hm | hm
  · exact hc.pieces m hm hpay
  · rcases h.emits hs htimer hm with ⟨p, hp, hhdr, hload⟩ | ⟨hnil, -⟩
    · have hresent : Emits x₀ x₀ .timeout (x₀.tcb.resendMsg x₀.key p) := .resent hp
      have hcopy := hc.emitted hresent (Nat.le_refl _) fun hnil => hpay (hload.trans hnil)
      constructor
      case le_top => rw [hhdr, hload]; exact hcopy.le_top
      case bytes => rw [hhdr, hload]; exact hcopy.bytes
    · exact absurd hnil hpay

/-- All of the stream was on the wire when the FIN came. -/
theorem Finished.top_eq (h : Finished x₀ x out) (hc : Conveys f W x₀ y out) :
    x₀.sender.top = f + W.length ∧ x₀.tcb.snd.lbw.toNat = f + W.length := by
  have hlbw : x₀.tcb.snd.lbw.toNat = f + W.length := hc.backed.lbw
  have hz : x₀.send ≠ .zeroWait := by
    intro hz
    have hlt : x₀.tcb.snd.nxt < x₀.tcb.snd.lbw := hc.backed.paced.zero hz
    simp [h.sent] at hlt
  refine ⟨?_, hlbw⟩
  rw [Sender.top_of_ne hz, Conn.sender_snd, h.sent, hlbw]

end Finished

section Draining

variable {f : ℕ} {W : List U8} {x₀ x y y' : Conn} {out : List Msg} {l : Label}

theorem Draining.opened (h : Draining x₀ y) :
    y.tcb.state ≠ .synSent ∧ y.tcb.state ≠ .synReceived := by
  rcases h.state with hs | hs | hs <;> simp [hs]

theorem Draining.countsFin (h : Draining x₀ y) (ev : Event) : y.countsFin ev = false := by
  cases ev with
  | segment seg => rcases h.state with hs | hs | hs <;> simp [Conn.countsFin, hs]
  | _ => rfl

/-- The end of the stream is reached where the FIN is taken up. -/
theorem Draining.step (h : Draining x₀ y) (hfin : Finished x₀ x out) (hf : 0 < f)
    (hc : Conveys f W x₀ y out) (hs : Step y l y')
    (hclose : l.ev ≠ .close ∧ l.ev ≠ .closeWake)
    (hcopy : ∀ seg, l.ev = .segment seg →
      ∃ m ∈ out, seg.hdr = m.hdr ∧ seg.payload = m.payload) : Draining x₀ y' := by
  obtain ⟨hc', hnxt, -⟩ := hc.receive h.opened.1 (h.countsFin _) hs hcopy
  have hseq : ∀ seg, l.ev = .segment seg → seg.hdr.hasFin = true →
      seg.hdr.seqNum = x₀.tcb.snd.lbw := by
    intro seg hl hseg
    obtain ⟨m, hm, hhdr, -⟩ := hcopy seg hl
    rw [hhdr] at hseg ⊢
    exact hfin.fins m hm hseg
  -- RCV.NXT never passes the end, so it stays there once it has come to it
  have hle : y'.tcb.rcv.nxt.toNat ≤ x₀.tcb.snd.lbw.toNat := by
    rw [(hfin.top_eq hc').2, ← (hfin.top_eq hc').1]
    exact hc'.holding.nxt_le
  have hstays : y.tcb.rcv.nxt = x₀.tcb.snd.lbw → y'.tcb.rcv.nxt = x₀.tcb.snd.lbw := by
    intro heq
    rw [heq] at hnxt
    exact BitVec.eq_of_toNat_eq (Nat.le_antisymm hle hnxt)
  have hpending : y'.tcb.pendingReceivedFin = 0 ∨
      y'.tcb.pendingReceivedFin = x₀.tcb.snd.lbw := by
    rcases hs.pendingReceivedFin with hp | ⟨seg, hl, hseg, -, -, hp⟩
    · rw [hp]
      exact h.pending
    · exact Or.inr (hp.trans (hseq seg hl hseg))
  have hm := hs.state
  have hst := h.state
  generalize hst' : y'.tcb.state = st at hm
  have hreach : ∀ seg, l.ev = .segment seg → y.reachesFin seg = true →
      y'.tcb.rcv.nxt = y.tcb.pendingReceivedFin := fun _ => hs.nxt_of_reachesFin
  generalize l.ev = ev at hm hclose hseq hreach
  cases hm with
  | same =>
    refine ⟨hst' ▸ hst, hpending, fun hcw => hstays (h.reached ?_)⟩
    rw [← hst', hcw]
  | established hs => exact absurd hs (not_or.mpr h.opened)
  | synReceived hs => exact absurd hs h.opened.1
  | @pendingFin seg _ _ hr =>
    refine ⟨Or.inr (Or.inl hst'), hpending, fun _ => ?_⟩
    have hnxt' := hreach seg rfl hr
    rcases h.pending with h0 | hend
    · exact absurd (hnxt'.trans h0) (hc'.nxt_pos hf)
    · exact hnxt'.trans hend
  | @fin seg _ hseg hnext =>
    refine ⟨Or.inr (Or.inl hst'), hpending, fun _ => hstays ?_⟩
    rw [← hnext, hseq seg rfl hseg]
  | gaveUp | expired | lastAcked =>
    exact ⟨Or.inr (Or.inr hst'), hpending, fun hcw => by simp [hst'] at hcw⟩
  | finSent hev => exact absurd hev (not_or.mpr hclose)
  | finAcked hs | finWait1Fin hs | finWait2Fin hs | closingAcked hs =>
    rcases hst with hst | hst | hst <;> simp [hst] at hs

end Draining

/-- Before the writer's FIN: its stream runs, and the reader acknowledges what it has. -/
structure Net.Unfinished (first : Side → ℕ) (n : Net) : Prop where
  conveys : Conveys (first .a) (n.written .a) (n.conn .a) (n.conn .b) (n.sent .a)
  state : (n.conn .b).tcb.state = .established ∨ (n.conn .b).tcb.state = .closed
  pending : (n.conn .b).tcb.pendingReceivedFin = 0
  noFin : ∀ m ∈ n.sent .a, m.hdr.hasFin = false
  acks : ∀ m ∈ n.sent .b, m.hdr.hasAck = true →
    m.hdr.ackNum.toNat ≤ (n.conn .b).tcb.rcv.nxt.toNat

/-- A connection that `a` closes and `b` does not: the stream of `b` runs all the time, that of `a`
up to its FIN. -/
structure Net.HalfClosing (first : Side → ℕ) (n : Net) : Prop where
  pos : ∀ x, 0 < first x
  queued : ∀ x, ∀ e ∈ (n.conn x).tcb.retransmissionQueue, ∃ m ∈ n.sent x, m.hdr = e.tcpHeader
  noFin : ∀ m ∈ n.sent .b, m.hdr.hasFin = false
  state : (n.conn .a).tcb.state = .established ∨ (n.conn .a).tcb.state = .finWait1 ∨
    (n.conn .a).tcb.state = .finWait2 ∨ (n.conn .a).tcb.state = .closed
  pending : (n.conn .a).tcb.pendingReceivedFin = 0
  acks : ∀ m ∈ n.sent .a, m.hdr.hasAck = true →
    m.hdr.ackNum.toNat ≤ (n.conn .a).tcb.rcv.nxt.toNat
  fresh : ∀ call, (n.conn .b).reading = some call → call.Fresh
  back : Conveys (first .b) (n.written .b) (n.conn .b) (n.conn .a) (n.sent .b)
  reading : ∀ x, Reading (first x) (n.written x) (n.conn x.other) (n.returned x.other)
  phase : n.Unfinished first ∨ ∃ x₀, Finished x₀ (n.conn .a) (n.sent .a) ∧
    Draining x₀ (n.conn .b) ∧ Conveys (first .a) (n.written .a) x₀ (n.conn .b) (n.sent .a)

section Opening

variable {n : Net}

theorem Net.Opened.conveys (h : n.Opened) (x : Side) :
    Conveys (n.first x) (n.written x) (n.conn x) (n.conn x.other) (n.sent x) where
  backed := (h.flowing.flow x).sending.backed
  holding := (h.flowing.flow x).holding
  first := (h.flowing.flow x).first
  pieces m hm hpay := absurd (h.sent x m hm).1 hpay
  una := by
    have hle := (h.una x).1
    rwa [Net.first, h.first x] at hle

theorem Net.Opened.acks (h : n.Opened) (x : Side) :
    ∀ m ∈ n.sent x, m.hdr.hasAck = true →
      m.hdr.ackNum.toNat ≤ (n.conn x).tcb.rcv.nxt.toNat := by
  intro m hm hack
  rw [((h.sent x m hm).2.2 hack).1]

theorem Net.Opened.halfClosing (h : n.Opened) : n.HalfClosing n.first where
  pos := h.pos
  queued x := by simp [(h.established x).queue]
  noFin m hm := (h.sent .b m hm).2.1
  state := Or.inl (h.established .a).state
  pending := (h.established .a).pendingReceivedFin
  acks := h.acks .a
  fresh := by simp [(h.established .b).reading]
  back := h.conveys .b
  reading := h.streaming.reading
  phase := Or.inl
    { conveys := h.conveys .a
      state := Or.inl (h.established .b).state
      pending := (h.established .b).pendingReceivedFin
      noFin := fun m hm => (h.sent .a m hm).2.1
      acks := h.acks .b }

theorem Net.Opened.silent (h : n.Opened) : (n.conn .b).Silent where
  sent := (h.established .b).lbw.symm
  queue := (h.established .b).queue
  zeroWait := by simp [(h.established .b).send]
  transmit := by simp [(h.established .b).send]
  kept := (h.established .b).timeoutCancelled
  reading := by simp [(h.established .b).reading]

end Opening

section HalfClosing

variable {n n' : Net} {first : Side → ℕ} {x : Side} {l : Label} {c c' c₁ : Conn} {ev : Event}

theorem Event.timers_of_ofHalfClose (h : ev.ofHalfClose x = true) :
    ev ≠ .connectTimeout ∧ ev ≠ .ackTimeout := by
  constructor <;> rintro rfl <;> cases h

theorem Event.not_close_of_ofHalfClose (h : ev.ofHalfClose .b = true) :
    ev ≠ .close ∧ ev ≠ .closeWake := by
  constructor <;> rintro rfl <;> cases h

theorem Event.ne_read_of_ofHalfClose (h : ev.ofHalfClose .b = true) (k : U32) :
    ev ≠ .read k true := by
  rintro rfl
  cases h

theorem countsFin_of_noFin (h : ∀ seg, ev = .segment seg → seg.hdr.hasFin = false) :
    c.countsFin ev = false := by
  cases ev with
  | segment seg => cases hs : c.tcb.state <;> simp [Conn.countsFin, hs, h seg rfl]
  | _ => rfl

/-- `pendingReceivedFin` keeps its initial zero, which RCV.NXT never is. -/
theorem Step.reachesFin_of_pending (hs : Step c l c') (hp : c.tcb.pendingReceivedFin = 0)
    (hnxt : c'.tcb.rcv.nxt ≠ 0) {seg : Segment} (hev : l.ev = .segment seg) :
    c.reachesFin seg = false := by
  by_contra hr
  apply hnxt
  rw [hs.nxt_of_reachesFin hev (Bool.eq_true_of_not_eq_false hr), hp]

/-- Whatever is queued has been sent. -/
theorem Step.queued_sent {out : List Msg} (hs : Step c l c')
    (h : ∀ e ∈ c.tcb.retransmissionQueue, ∃ m ∈ out, m.hdr = e.tcpHeader) :
    ∀ e ∈ c'.tcb.retransmissionQueue, ∃ m ∈ out ++ l.out.msgs, m.hdr = e.tcpHeader := by
  intro e he
  rcases hs.queued he with he | ⟨m, hm, heq, -⟩
  · obtain ⟨m, hm, heq⟩ := h e he
    exact ⟨m, List.mem_append_left _ hm, heq⟩
  · exact ⟨m, List.mem_append_right _ hm, heq⟩

/-- The acknowledgements of a side that has seen no FIN stay below RCV.NXT. -/
theorem Step.acks_below {out : List Msg} (hs : Step c l c')
    (hopen : c.tcb.state ≠ .synSent ∧ c.tcb.state ≠ .synReceived) (hcw : c.tcb.state ≠ .closeWait)
    (htimer : l.ev ≠ .connectTimeout ∧ l.ev ≠ .ackTimeout)
    (hfin : ∀ seg, l.ev = .segment seg → seg.hdr.hasFin = false)
    (hreach : ∀ seg, l.ev = .segment seg → c.reachesFin seg = false)
    (hqueued : ∀ e ∈ c.tcb.retransmissionQueue, ∃ m ∈ out, m.hdr = e.tcpHeader)
    (hnxt : c.tcb.rcv.nxt.toNat ≤ c'.tcb.rcv.nxt.toNat)
    (h : ∀ m ∈ out, m.hdr.hasAck = true → m.hdr.ackNum.toNat ≤ c.tcb.rcv.nxt.toNat) :
    ∀ m ∈ out ++ l.out.msgs, m.hdr.hasAck = true →
      m.hdr.ackNum.toNat ≤ c'.tcb.rcv.nxt.toNat := by
  intro m hm hack
  rcases List.mem_append.mp hm with hm | hm
  · exact (h m hm hack).trans hnxt
  · rcases hs.acks_of_noFin hopen hcw htimer hfin hreach hm with ⟨p, hp, heq⟩ | heq
    · obtain ⟨m', hm', heq'⟩ := hqueued p hp
      rw [heq, ← heq'] at hack ⊢
      exact (h m' hm' hack).trans hnxt
    · rw [heq]

/-- No FIN is sent but by `Close`. -/
theorem Step.noFin_kept {out : List Msg} (hs : Step c l c')
    (hopen : c.tcb.state ≠ .synSent ∧ c.tcb.state ≠ .synReceived)
    (htimer : l.ev ≠ .connectTimeout ∧ l.ev ≠ .ackTimeout)
    (hclose : l.ev ≠ .close ∧ l.ev ≠ .closeWake)
    (hqueued : ∀ e ∈ c.tcb.retransmissionQueue, ∃ m ∈ out, m.hdr = e.tcpHeader)
    (h : ∀ m ∈ out, m.hdr.hasFin = false) : ∀ m ∈ out ++ l.out.msgs, m.hdr.hasFin = false := by
  intro m hm
  rcases List.mem_append.mp hm with hm | hm
  · exact h m hm
  · rcases hs.fin_emitted hopen htimer hm with ⟨p, hp, heq⟩ | hno | hev
    · obtain ⟨m', hm', heq'⟩ := hqueued p hp
      rw [heq, ← heq']
      exact h m' hm'
    · exact hno
    · exact absurd hev (not_or.mpr hclose)

theorem Net.HalfClosing.opened (h : n.HalfClosing first) :
    (n.conn .a).tcb.state ≠ .synSent ∧ (n.conn .a).tcb.state ≠ .synReceived ∧
      (n.conn .a).tcb.state ≠ .closeWait ∧ (n.conn .a).tcb.state ≠ .closing := by
  rcases h.state with hst | hst | hst | hst <;> simp [hst]

theorem Net.Unfinished.opened (h : n.Unfinished first) :
    (n.conn .b).tcb.state ≠ .synSent ∧ (n.conn .b).tcb.state ≠ .synReceived ∧
      (n.conn .b).tcb.state ≠ .closeWait := by
  rcases h.state with hst | hst <;> simp [hst]

theorem Closing.written (h : Closing c ev c₁) : c.written ev = [] := by
  cases h <;> rfl

theorem Closing.frame (h : Closing c ev c₁) :
    ∃ k p, c₁ = { c with closeWaiting := k, tcb := { c.tcb with pendingSendingFin := p } } := by
  cases h <;> exact ⟨_, _, rfl⟩

/-- The FIN ends the writer's stream where it stands. -/
theorem Net.Unfinished.finish (h : n.Unfinished first) {out : List Msg}
    (hqueued : ∀ e ∈ (n.conn .a).tcb.retransmissionQueue, ∃ m ∈ n.sent .a, m.hdr = e.tcpHeader)
    (hcw : (n.conn .a).tcb.state ≠ .closeWait) (hc : Closing (n.conn .a) ev c₁)
    (heq : (n.conn .a).tcb.snd.nxt = (n.conn .a).tcb.snd.lbw) (hout : out = c₁.sendFin.2) :
    Finished (n.conn .a) c₁.sendFin.1 (n.sent .a ++ out) ∧ Draining (n.conn .a) (n.conn .b) ∧
      Conveys (first .a) (n.written .a) (n.conn .a) (n.conn .b) (n.sent .a ++ out) := by
  have hmsgs : ∀ m ∈ out, m.payload = [] ∧ m.hdr.seqNum = (n.conn .a).tcb.snd.lbw := by
    intro m hm
    rw [hout] at hm
    obtain rfl := List.mem_singleton.mp hm
    refine ⟨rfl, ?_⟩
    show c₁.tcb.snd.nxt = _
    rw [hc.snd, heq]
  obtain ⟨k, p, rfl⟩ := hc.frame
  refine ⟨⟨heq, fun e he => ?_, Or.inl (if_neg hcw), rfl, rfl, ?_, rfl, fun e he => ?_,
    fun m hm hfin => ?_⟩, ⟨h.state.imp_right Or.inr, Or.inl h.pending, fun hst => ?_⟩,
    { h.conveys with pieces := fun m hm hpay => ?_ }⟩
  · obtain ⟨m, hm, hhdr⟩ := hqueued e he
    rw [← hhdr]
    exact h.noFin m hm
  · rw [← heq]
    rfl
  · rcases List.mem_append.mp he with he | he
    · exact Or.inl he
    · obtain rfl := List.mem_singleton.mp he
      exact Or.inr ⟨heq, rfl⟩
  · rcases List.mem_append.mp hm with hm | hm
    · simp [h.noFin m hm] at hfin
    · exact (hmsgs m hm).2
  · exact absurd hst h.opened.2.2
  · rcases List.mem_append.mp hm with hm | hm
    · exact h.conveys.pieces m hm hpay
    · exact absurd (hmsgs m hm).1 hpay

/-- The writer's own stream, when the writer moves. -/
theorem Net.HalfClosing.phase_send (h : n.HalfClosing first) (hstep : Step (n.conn .a) l c')
    (hev : l.ev.ofHalfClose .a = true) (hlbw : (n.conn .a).tcb.snd.lbw ≤ c'.tcb.snd.lbw)
    (hcopy : ∀ seg, l.ev = .segment seg →
      ∃ m ∈ n.sent .b, seg.hdr = m.hdr ∧ seg.payload = m.payload)
    (hfin : ∀ seg, l.ev = .segment seg → seg.hdr.hasFin = false)
    (hreach : ∀ seg, l.ev = .segment seg → (n.conn .a).reachesFin seg = false) :
    (n.advance .a l c').Unfinished first ∨ ∃ x₀,
      Finished x₀ c' (n.sent .a ++ l.out.msgs) ∧ Draining x₀ (n.conn .b) ∧
      Conveys (first .a) (n.written .a ++ (n.conn .a).written l.ev) x₀ (n.conn .b)
        (n.sent .a ++ l.out.msgs) := by
  have htimer := Event.timers_of_ofHalfClose hev
  have hopen : (n.conn .a).tcb.state ≠ .synSent ∧ (n.conn .a).tcb.state ≠ .synReceived :=
    ⟨h.opened.1, h.opened.2.1⟩
  rcases h.phase with hun | ⟨x₀, hfinished, hdrain, hconv⟩
  · obtain ⟨ev, out⟩ := l
    have hm := hstep.closing
    simp only at hm
    cases hm with
    | other hclose =>
      have hack : ∀ seg, ev = .segment seg → seg.hdr.hasAck = true →
          seg.hdr.ackNum.toNat ≤ (n.conn .b).tcb.rcv.nxt.toNat := by
        intro seg hl hack
        obtain ⟨m, hm, hhdr, -⟩ := hcopy seg hl
        rw [hhdr] at hack ⊢
        exact hun.acks m hm hack
      refine Or.inl ⟨?_, hun.state, hun.pending, ?_, hun.acks⟩
      · rw [Net.advance_conn, Net.advance_written, Net.advance_sent]
        exact hun.conveys.send hstep hopen hclose hack hlbw
      · rw [Net.advance_sent]
        exact hstep.noFin_kept hopen htimer hclose (h.queued .a) hun.noFin
    | waits hc =>
      have hwritten := hc.written
      obtain ⟨k, p, rfl⟩ := hc.frame
      have hconv := hun.conveys
      refine Or.inl ⟨?_, hun.state, hun.pending, ?_, hun.acks⟩
      · rw [Net.advance_conn, Net.advance_written, Net.advance_sent, hwritten, List.append_nil,
          List.append_nil]
        exact ⟨hconv.backed, hconv.holding, hconv.first, hconv.pieces, hconv.una⟩
      · rw [Net.advance_sent, List.append_nil]
        exact hun.noFin
    | fin hc heq =>
      rw [hc.written, List.append_nil]
      exact Or.inr ⟨n.conn .a, hun.finish (h.queued .a) h.opened.2.2.1 hc heq rfl⟩
  · rw [hfinished.written, List.append_nil]
    exact Or.inr ⟨x₀, hfinished.step hstep htimer hfin hreach, hdrain,
      hfinished.conveys hconv hstep htimer⟩

/-- The closing side moves. -/
theorem Net.HalfClosing.send (h : n.HalfClosing first) (hs : HalfCloseStep n (.a, l) n')
    (hbelow : KeepsBelow ⟨n, (.a, l), n'⟩) : n'.HalfClosing first := by
  obtain ⟨hcopy, c', hstep, rfl⟩ := hs.1
  have hev : l.ev.ofHalfClose .a = true := hs.2
  simp only at hstep hcopy
  have htimer := Event.timers_of_ofHalfClose hev
  have hopen : (n.conn .a).tcb.state ≠ .synSent ∧ (n.conn .a).tcb.state ≠ .synReceived :=
    ⟨h.opened.1, h.opened.2.1⟩
  have hlbw : (n.conn .a).tcb.snd.lbw ≤ c'.tcb.snd.lbw := by simpa using hbelow .a
  have hfin : ∀ seg, l.ev = .segment seg → seg.hdr.hasFin = false := by
    intro seg hl
    obtain ⟨m, hm, hhdr, -⟩ := hcopy seg hl
    rw [hhdr]
    exact h.noFin m hm
  have hcount : (n.conn .a).countsFin l.ev = false := countsFin_of_noFin hfin
  obtain ⟨hback, hnxt, -⟩ := h.back.receive hopen.1 hcount hstep hcopy
  have hreach := fun seg (hl : l.ev = .segment seg) =>
    hstep.reachesFin_of_pending h.pending (hback.nxt_pos (h.pos .b)) hl
  have hphase := h.phase_send hstep hev hlbw hcopy hfin hreach
  refine ⟨h.pos, Side.forall_iff.mpr ⟨?_, h.queued .b⟩, h.noFin, ?_, ?_, ?_, h.fresh, ?_,
    Side.forall_iff.mpr ⟨?_, ?_⟩, ?_⟩
  · rw [Net.advance_conn, Net.advance_sent]
    exact hstep.queued_sent (h.queued .a)
  · rw [Net.advance_conn]
    rcases hstep.state_of_noFin hopen hfin hreach with
      heq | heq | ⟨-, heq⟩ | ⟨heq, -⟩ | ⟨-, -, heq⟩
    · rw [heq]
      exact h.state
    · exact Or.inr (Or.inr (Or.inr heq))
    · exact Or.inr (Or.inr (Or.inl heq))
    · exact absurd heq h.opened.2.2.2
    · exact Or.inr (Or.inl (heq.trans (if_neg h.opened.2.2.1)))
  · rw [Net.advance_conn]
    rcases hstep.pendingReceivedFin with hp | ⟨seg, hl, hseg, -⟩
    · rw [hp, h.pending]
    · simp [hfin seg hl] at hseg
  · rw [Net.advance_conn, Net.advance_sent]
    exact hstep.acks_below hopen h.opened.2.2.1 htimer hfin hreach (h.queued .a) hnxt h.acks
  · rw [Net.advance_conn]
    exact hback
  · rw [Net.advance_written]
    rcases h.phase with hun | ⟨x₀, hfinished, -⟩
    · exact (h.reading .a).extend hun.conveys _
    · rw [hfinished.written, List.append_nil]
      exact h.reading .a
  · refine (h.reading .b).pass h.back hopen.1 hcount hstep fun hout => ?_
    exact Or.inl ((hstep.eof_cases hout).resolve_left h.opened.2.2.1)
  · rw [Net.advance_conn, Net.advance_sent, Net.advance_written]
    exact hphase

/-- The reader's own stream and the end of the writer's, when the reader moves. -/
theorem Net.HalfClosing.phase_receive (h : n.HalfClosing first) (hstep : Step (n.conn .b) l c')
    (hev : l.ev.ofHalfClose .b = true)
    (hcopy : ∀ seg, l.ev = .segment seg →
      ∃ m ∈ n.sent .a, seg.hdr = m.hdr ∧ seg.payload = m.payload) :
    (n.advance .b l c').Unfinished first ∨ ∃ x₀,
      Finished x₀ (n.conn .a) (n.sent .a) ∧ Draining x₀ c' ∧
      Conveys (first .a) (n.written .a) x₀ c' (n.sent .a) := by
  have htimer := Event.timers_of_ofHalfClose hev
  have hclose := Event.not_close_of_ofHalfClose hev
  rcases h.phase with hun | ⟨x₀, hfinished, hdrain, hconv⟩
  · have hopen : (n.conn .b).tcb.state ≠ .synSent ∧ (n.conn .b).tcb.state ≠ .synReceived :=
      ⟨hun.opened.1, hun.opened.2.1⟩
    have hfin : ∀ seg, l.ev = .segment seg → seg.hdr.hasFin = false := by
      intro seg hl
      obtain ⟨m, hm, hhdr, -⟩ := hcopy seg hl
      rw [hhdr]
      exact hun.noFin m hm
    obtain ⟨hconv, hnxt, -⟩ := hun.conveys.receive hopen.1 (countsFin_of_noFin hfin) hstep hcopy
    have hreach := fun seg (hl : l.ev = .segment seg) =>
      hstep.reachesFin_of_pending hun.pending (hconv.nxt_pos (h.pos .a)) hl
    refine Or.inl ⟨?_, ?_, ?_, hun.noFin, ?_⟩
    · rw [Net.advance_conn]
      exact hconv
    · rw [Net.advance_conn]
      rcases hstep.state_of_noFin hopen hfin hreach with
        heq | heq | ⟨heq, -⟩ | ⟨heq, -⟩ | ⟨heq, -⟩
      · rw [heq]
        exact hun.state
      · exact Or.inr heq
      · rcases hun.state with hst | hst <;> simp [hst] at heq
      · rcases hun.state with hst | hst <;> simp [hst] at heq
      · exact absurd heq (not_or.mpr hclose)
    · rw [Net.advance_conn]
      rcases hstep.pendingReceivedFin with hp | ⟨seg, hl, hseg, -⟩
      · rw [hp, hun.pending]
      · simp [hfin seg hl] at hseg
    · rw [Net.advance_conn, Net.advance_sent]
      exact hstep.acks_below hopen hun.opened.2.2 htimer hfin hreach (h.queued .b) hnxt hun.acks
  · refine Or.inr ⟨x₀, hfinished, hdrain.step hfinished (h.pos .a) hconv hstep hclose hcopy, ?_⟩
    exact (hconv.receive hdrain.opened.1 (hdrain.countsFin _) hstep hcopy).1

theorem Net.HalfClosing.reader_opened (h : n.HalfClosing first) :
    (n.conn .b).tcb.state ≠ .synSent ∧ (n.conn .b).tcb.state ≠ .synReceived := by
  rcases h.phase with hun | ⟨x₀, -, hdrain, -⟩
  · exact ⟨hun.opened.1, hun.opened.2.1⟩
  · exact hdrain.opened

/-- The reading side counts no FIN. -/
theorem Net.HalfClosing.reader (h : n.HalfClosing first)
    (hcopy : ∀ seg, ev = .segment seg →
      ∃ m ∈ n.sent .a, seg.hdr = m.hdr ∧ seg.payload = m.payload) :
    (n.conn .b).countsFin ev = false ∧
      ∃ x₀, Conveys (first .a) (n.written .a) x₀ (n.conn .b) (n.sent .a) := by
  rcases h.phase with hun | ⟨x₀, -, hdrain, hconv⟩
  · refine ⟨countsFin_of_noFin fun seg hl => ?_, _, hun.conveys⟩
    obtain ⟨m, hm, hhdr, -⟩ := hcopy seg hl
    rw [hhdr]
    exact hun.noFin m hm
  · exact ⟨hdrain.countsFin _, _, hconv⟩

theorem Net.HalfClosing.gathered (h : n.HalfClosing first) : (n.conn .b).gathered = [] := by
  unfold Conn.gathered
  cases hcall : (n.conn .b).reading with
  | none => rfl
  | some call => exact (h.fresh call hcall).data

/-- A pass of `Read` at `b` that reports the end of the stream finds nothing to read. -/
theorem Net.HalfClosing.lbr_of_eof (h : n.HalfClosing first) (hstep : Step (n.conn .b) l c')
    (hev : l.ev.ofHalfClose .b = true) (hout : l.out.read = some .eof) :
    (n.conn .b).tcb.rcv.lbr = (n.conn .b).tcb.rcv.nxt := by
  rcases hstep.fresh h.fresh (Event.ne_read_of_ofHalfClose hev) with ⟨-, hnone⟩ | ⟨o, ho, -, hshown⟩
  · simp [hnone] at hout
  · rw [hout] at hshown
    cases ho with
    | eof heq => exact heq
    | waiting | returned | failed => cases hshown

/-- The other side moves. -/
theorem Net.HalfClosing.receive (h : n.HalfClosing first) (hs : HalfCloseStep n (.b, l) n')
    (hbelow : KeepsBelow ⟨n, (.b, l), n'⟩) : n'.HalfClosing first := by
  obtain ⟨hcopy, c', hstep, rfl⟩ := hs.1
  have hev : l.ev.ofHalfClose .b = true := hs.2
  simp only at hstep hcopy
  have htimer := Event.timers_of_ofHalfClose hev
  have hclose := Event.not_close_of_ofHalfClose hev
  have hlbw : (n.conn .b).tcb.snd.lbw ≤ c'.tcb.snd.lbw := by simpa using hbelow .b
  have hopen := h.reader_opened
  obtain ⟨hcount, x₀, hconv⟩ := h.reader hcopy
  have hack : ∀ seg, l.ev = .segment seg → seg.hdr.hasAck = true →
      seg.hdr.ackNum.toNat ≤ (n.conn .a).tcb.rcv.nxt.toNat := by
    intro seg hl hack
    obtain ⟨m, hm, hhdr, -⟩ := hcopy seg hl
    rw [hhdr] at hack ⊢
    exact h.acks m hm hack
  refine ⟨h.pos, Side.forall_iff.mpr ⟨h.queued .a, ?_⟩, ?_, h.state, h.pending, h.acks,
    fun call hcall => ?_, ?_, Side.forall_iff.mpr ⟨?_, ?_⟩, ?_⟩
  · rw [Net.advance_conn, Net.advance_sent]
    exact hstep.queued_sent (h.queued .b)
  · rw [Net.advance_sent]
    exact hstep.noFin_kept hopen htimer hclose (h.queued .b) h.noFin
  · rw [Net.advance_conn] at hcall
    rcases hstep.fresh h.fresh (Event.ne_read_of_ofHalfClose hev) with
      ⟨hsame, -⟩ | ⟨o, ho, hpending, -⟩
    · exact h.fresh call (hsame ▸ hcall)
    · exact ho.pending (hpending ▸ hcall)
  · rw [Net.advance_conn, Net.advance_written, Net.advance_sent]
    exact h.back.send hstep hopen hclose hack hlbw
  · refine (h.reading .a).pass hconv hopen.1 hcount hstep fun hout => Or.inr ?_
    exact ⟨h.gathered, h.lbr_of_eof hstep hev hout⟩
  · rw [Net.advance_written]
    exact (h.reading .b).extend h.back _
  · rw [Net.advance_conn]
    exact h.phase_receive hstep hev hcopy

theorem Net.HalfClosing.step (h : n.HalfClosing first) (hs : HalfCloseStep n (x, l) n')
    (hbelow : KeepsBelow ⟨n, (x, l), n'⟩) : n'.HalfClosing first := by
  cases x with
  | a => exact h.send hs hbelow
  | b => exact h.receive hs hbelow

/-- The writer has sent its FIN, and the reader has consumed the whole stream. -/
def Net.Complete (first : Side → ℕ) (n : Net) : Prop :=
  (n.conn .a).tcb.cancelled = true ∧
    first .a + (n.written .a).length ≤ (n.conn .b).tcb.rcv.lbr.toNat

theorem Net.Complete.finished (hc : n.Complete first) (h : n.HalfClosing first) :
    ∃ x₀, Finished x₀ (n.conn .a) (n.sent .a) ∧ Draining x₀ (n.conn .b) ∧
      Conveys (first .a) (n.written .a) x₀ (n.conn .b) (n.sent .a) := by
  refine h.phase.resolve_left fun hun => ?_
  have hcan : (n.conn .a).tcb.cancelled = false := hun.conveys.backed.cancelled
  simp [hc.1] at hcan

theorem Net.Complete.returned (hc : n.Complete first) (h : n.HalfClosing first)
    (hkept : (n.conn .b).tcb.timeoutCancelled = false) : n.returned .b = n.written .a := by
  have hconsumed := (h.reading .a).consumed (Or.inl hkept)
  have hnone : (n.conn Side.a.other).gathered = [] := h.gathered
  have hlen := hc.2
  rwa [hnone, List.append_nil, List.take_of_length_le (by simp only [Side.other]; omega)]
    at hconsumed

theorem Net.Complete.step (hc : n.Complete first) (h : n.HalfClosing first)
    (hs : HalfCloseStep n (x, l) n') : n'.Complete first := by
  obtain ⟨x₀, hfin, hdrain, hconv⟩ := hc.finished h
  obtain ⟨hcopy, c', hstep, rfl⟩ := hs.1
  simp only at hstep hcopy
  cases x with
  | a =>
    refine ⟨?_, ?_⟩
    · rw [Net.advance_conn]
      exact (hfin.sender hstep.sender).1
    · rw [Net.advance_written, hfin.written, List.append_nil]
      exact hc.2
  | b =>
    refine ⟨hc.1, ?_⟩
    rw [Net.advance_conn]
    exact hc.2.trans (hconv.receive hdrain.opened.1 (hdrain.countsFin _) hstep hcopy).2.2

/-- On a connection that `b` has not given up on, EOF comes with the whole stream consumed. -/
theorem Net.HalfClosing.eof (h : n.HalfClosing first) (hs : HalfCloseStep n (.b, l) n')
    (hout : l.out.read = some .eof) :
    n'.Complete first ∨ (n'.conn .b).tcb.timeoutCancelled = true := by
  obtain ⟨hcopy, c', hstep, hn'⟩ := id hs.1
  simp only at hstep hn'
  rcases hstep.eof_cases hout with hcw | hgave
  · refine Or.inl (Net.Complete.step ?_ h hs)
    rcases h.phase with hun | ⟨x₀, hfin, hdrain, hconv⟩
    · exact absurd hcw hun.opened.2.2
    · refine ⟨hfin.cancelled, ?_⟩
      rw [h.lbr_of_eof hstep hs.2 hout, hdrain.reached hcw, (hfin.top_eq hconv).2]
  · right
    rw [hn', Net.advance_conn]
    exact hstep.timeoutCancelled hgave

/-- The writer's FIN, or a wait for it, goes back to a call of `Close`. -/
theorem Step.close_called (h : Step c l c')
    (hc : 0 < c'.closeWaiting ∨ c'.tcb.cancelled = true) :
    l.ev = .close ∨ 0 < c.closeWaiting ∨ c.tcb.cancelled = true := by
  have hm := h.closing
  generalize l.ev = ev at hm ⊢
  generalize l.out = o at hm
  cases hm with
  | waits hcl | fin hcl =>
    cases hcl with
    | enter => exact Or.inl rfl
    | wake hw => exact Or.inr (Or.inl hw)
  | other _ hwaiting _ hcancelled =>
    rw [hwaiting, hcancelled] at hc
    exact Or.inr hc

end HalfClosing

section Runs

variable {n n' : Net} {tr : List (Move Net (Side × Label))} {y : Move Net (Side × Label)}

/-- `a` has called `Close`. -/
def CloseCalled (tr : List (Move Net (Side × Label))) : Prop :=
  ∃ y ∈ tr, y.ev.1 = .a ∧ y.ev.2.ev = .close

/-- A call of `Read` at `b` has reported the end of the stream. -/
def EofReturned (tr : List (Move Net (Side × Label))) : Prop :=
  ∃ y ∈ tr, y.ev.1 = .b ∧ y.ev.2.out.read = some .eof

theorem CloseCalled.append (h : CloseCalled tr) : CloseCalled (tr ++ [y]) := by
  obtain ⟨z, hz, hclose⟩ := h
  exact ⟨z, List.mem_append_left _ hz, hclose⟩

/-- `b` has consumed the whole stream, or it has given up. -/
def Net.Ended (first : Side → ℕ) (n : Net) : Prop :=
  n.Complete first ∨ (n.conn .b).tcb.timeoutCancelled = true

theorem Net.Ended.step {first : Side → ℕ} {x : Side} {l : Label} (he : n.Ended first)
    (h : n.HalfClosing first) (hs : HalfCloseStep n (x, l) n') : n'.Ended first := by
  rcases he with hc | hgave
  · exact Or.inl (hc.step h hs)
  · obtain ⟨-, c', hstep, hn'⟩ := hs.1
    right
    rw [hn']
    cases x with
    | a => exact hgave
    | b =>
      rw [Net.advance_conn]
      exact hstep.timeoutCancelled hgave

theorem Net.Opened.half_close_run (h0 : n.Opened) (hr : Run HalfCloseStep n tr n')
    (hbelow : ∀ y ∈ tr, KeepsBelow y) :
    n'.HalfClosing n.first ∧ (EofReturned tr → n'.Ended n.first) ∧
      (0 < (n'.conn .a).closeWaiting ∨ (n'.conn .a).tcb.cancelled = true → CloseCalled tr) := by
  refine hr.inv (I := fun tr t => t.HalfClosing n.first ∧ (EofReturned tr → t.Ended n.first) ∧
    (0 < (t.conn .a).closeWaiting ∨ (t.conn .a).tcb.cancelled = true → CloseCalled tr))
    ⟨h0.halfClosing, ?_, ?_⟩ (along_of_forall_mem hbelow) ?_
  · rintro ⟨y, hy, -⟩
    cases hy
  · intro hc
    simp [(h0.established .a).closeWaiting, (h0.established .a).cancelled] at hc
  · rintro tr t ⟨x, l⟩ u ⟨ht, heof, hcalled⟩ hs hb
    refine ⟨ht.step hs hb, ?_, fun hc => ?_⟩
    · rintro ⟨y, hy, hside, hout⟩
      rcases List.mem_append.mp hy with hy | hy
      · exact (heof ⟨y, hy, hside, hout⟩).step ht hs
      · obtain rfl := List.mem_singleton.mp hy
        obtain rfl : x = .b := hside
        exact ht.eof hs hout
    · obtain ⟨-, c', hstep, hu⟩ := hs.1
      simp only at hstep hu
      subst hu
      cases x with
      | a =>
        rw [Net.advance_conn] at hc
        rcases hstep.close_called hc with hl | hc
        · exact ⟨_, List.mem_append_right _ (List.mem_singleton_self _), rfl, hl⟩
        · exact (hcalled hc).append
      | b => exact (hcalled hc).append

end Runs

section Sample

/-- An event of the connection at a side, or the delivery of a message of the other side. -/
def Net.halfCloseEvent (n : Net) (x : Side) (i : Event ⊕ ℕ) : Option Event :=
  let ev? : Option Event :=
    match i with
    | .inl .close => some .close
    | .inl .closeWake => some .closeWake
    | .inl .enableCC => some .enableCC
    | .inl .initCC => some .initCC
    | i => n.event x i
  ev?.filter fun ev => ev.ofHalfClose x

def Net.halfCloseNext (n : Net) (i : Side × (Event ⊕ ℕ)) : Option ((Side × Label) × Net) :=
  (n.halfCloseEvent i.1 i.2).bind fun ev =>
    ((n.conn i.1).next ev).map fun r => ((i.1, r.1), n.advance i.1 r.1 r.2)

theorem halfCloseEvent_spec {n : Net} {x : Side} {i : Event ⊕ ℕ} {ev : Event}
    (h : n.halfCloseEvent x i = some ev) :
    (∀ seg, ev = .segment seg →
      ∃ m ∈ n.sent x.other, seg.hdr = m.hdr ∧ seg.payload = m.payload) ∧
      ev.ofHalfClose x = true := by
  obtain ⟨h, hof⟩ := Option.filter_eq_some_iff.mp h
  refine ⟨fun seg hseg => ?_, hof⟩
  subst hseg
  split at h
  iterate 4 cases h
  cases dataEvent_event h with
  | segment hm hhdr hpay => exact ⟨_, hm, hhdr, hpay⟩

theorem halfCloseStep_next (n : Net) (i : Side × (Event ⊕ ℕ)) (l : Side × Label) (n' : Net)
    (h : n.halfCloseNext i = some (l, n')) : HalfCloseStep n l n' := by
  obtain ⟨ev, hev, h⟩ := Option.bind_eq_some_iff.mp h
  obtain ⟨⟨l', c'⟩, hs, h⟩ := Option.map_eq_some_iff.mp h
  obtain ⟨rfl, rfl⟩ := Prod.mk.inj h
  obtain ⟨r, hr, hl⟩ := Option.map_eq_some_iff.mp hs
  obtain ⟨rfl, rfl⟩ := Prod.mk.inj hl
  obtain ⟨hcopy, hof⟩ := halfCloseEvent_spec hev
  exact ⟨⟨hcopy, r.1, ⟨_, hr⟩, rfl⟩, hof⟩

/-- `a` turns congestion control on, writes, sends and closes, and its FIN overtakes the data. `b`
finds nothing to read before the data comes, and the end of the stream after it; then it writes,
and `a` reads in FIN_WAIT_2. -/
def Net.finOvertakes : List (Side × (Event ⊕ ℕ)) :=
  [(.a, .inl .enableCC), (.a, .inl .initCC), (.b, .inl (.read 4 false)),
    (.a, .inl (.write [1, 2])), (.a, .inl .close), (.a, .inl .send), (.a, .inl .send),
    (.a, .inl .closeWake), (.b, .inr 3), (.b, .inl .readWake), (.b, .inr 2),
    (.b, .inl .readWake), (.b, .inl (.read 4 false)), (.b, .inl (.write [7])), (.b, .inl .send),
    (.b, .inl .send), (.a, .inr 2), (.a, .inr 3), (.a, .inl (.read 4 false))]

end Sample

end TcpIp
