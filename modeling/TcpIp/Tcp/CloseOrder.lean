import TcpIp.Tcp.Closing
import TcpIp.Tcp.TransmitLoop

/-! The FIN of `Close` comes after all data. -/
namespace TcpIp

open Runs

open RetransmitSegment (lo len)

/-- One past the last byte of a segment. -/
def Msg.edge (m : Msg) : ℕ := m.hdr.seqNum.toNat + m.payload.length

/-- Before the FIN: whatever was sent or is queued lies below SND.LBW, and the last of it ends at
SND.NXT. -/
structure BeforeFin (first : U32) (tr : List (Move Unlocked UnlockedLabel)) (u : Unlocked) :
    Prop where
  paced : u.conn.sender.Paced
  cancelled : u.conn.tcb.cancelled = false
  state : u.conn.tcb.state ≠ .synSent ∧ u.conn.tcb.state ≠ .synReceived
  zeroWait : u.conn.send ≠ .zeroWait
  waiting : u.conn.closeWaiting ≤ 1
  uncalled : (∀ y ∈ tr, y.ev.ev ≠ .conn .close) → u.conn.closeWaiting = 0
  stage : ∀ m, u.stage.msg = some m → ∃ a b, u.conn.send = .transmit a b ∧ b < a ∧
    m.hdr.seqNum = u.conn.tcb.snd.nxt ∧ m.payload.length = (segmentLength a b).toNat
  emitted : ∀ m, u.stage = .emitted m → ∃ y ∈ tr, m ∈ y.ev.out.msgs
  queue : ∀ e ∈ u.conn.tcb.retransmissionQueue,
    lo e + len e ≤ u.conn.tcb.snd.lbw.toNat ∧ len e ≤ 65535
  sent : ∀ y ∈ tr, ∀ m ∈ y.ev.out.msgs, m.payload ≠ [] → m.edge ≤ u.conn.tcb.snd.lbw.toNat
  last : u.conn.tcb.snd.nxt = first ∨
    ∃ y ∈ tr, ∃ m ∈ y.ev.out.msgs, m.payload ≠ [] ∧ m.edge = u.conn.tcb.snd.nxt.toNat

/-- After the FIN with the number `f`: `Send` does not get past its test of `Cancelled`. -/
structure AfterFin (f : ℕ) (u : Unlocked) : Prop where
  cancelled : u.conn.tcb.cancelled = true
  state : u.conn.tcb.state ≠ .synSent ∧ u.conn.tcb.state ≠ .synReceived
  waiting : u.conn.closeWaiting = 0
  stage : u.stage = .outside ∨ ∃ m, u.stage = .built m
  queue : ∀ e ∈ u.conn.tcb.retransmissionQueue, lo e + len e ≤ f ∧ len e ≤ 65535

section Steps

variable {c c' : Conn} {u u' : Unlocked} {l : UnlockedLabel} {f : ℕ} {first : U32}
  {tr : List (Move Unlocked UnlockedLabel)} {m : Msg}

theorem edge_resendMsg {p : RetransmitSegment} (h : len p ≤ 65535) :
    (c.tcb.resendMsg c.key p).edge = lo p + len p := by
  unfold Msg.edge
  simp only [TCB.resendMsg]
  rw [retransmitPayload_eq c.tcb p h, Ring.load_length]
  rfl

theorem AfterFin.conn_step {ev : Event} {o : Output} (ha : AfterFin f u)
    (h : Step u.conn ⟨ev, o⟩ c') (hsend : ev ≠ .send) (hclose : ev ≠ .close) :
    AfterFin f { u with conn := c' } := by
  cases h.closing with
  | waits hc | fin hc =>
    cases hc with
    | enter => exact absurd rfl hclose
    | wake hw => simp [ha.waiting] at hw
  | other hev hwaiting _ hcancelled =>
    obtain ⟨-, -, hq⟩ := h.sender_kept hsend hev ha.state
    exact ⟨hcancelled.trans ha.cancelled, h.not_opening ha.state, hwaiting.trans ha.waiting,
      ha.stage, fun e he => ha.queue e (hq e he)⟩

/-- A step after the FIN sends no data but from the retransmission queue. -/
theorem AfterFin.step (ha : AfterFin f u) (h : UnlockedStep u l u')
    (hclose : l.ev ≠ .conn .close) :
    AfterFin f u' ∧ ∀ m ∈ l.out.msgs, m.payload ≠ [] → m.origin = .resend ∧ m.edge ≤ f := by
  have hm := h.moved
  generalize l.ev = ev at hm hclose
  generalize l.out = o at hm
  cases hm with
  | conn hev hs =>
    refine ⟨ha.conn_step hs hev fun h => hclose (h ▸ rfl), fun m hm hp => ?_⟩
    rcases hs.data_emitted hm hp with ⟨p, hp', rfl⟩ | ⟨hev', -⟩ | ⟨-, hc⟩
    · exact ⟨rfl, (edge_resendMsg (ha.queue p hp').2).trans_le (ha.queue p hp').1⟩
    · exact absurd hev' hev
    · simp [ha.cancelled] at hc
  | outer hst hpc hs =>
    obtain ⟨hout, ⟨pc, -, rfl⟩ | ⟨-, hc⟩⟩ := hs.send_outer hpc
    · exact ⟨⟨ha.cancelled, ha.state, ha.waiting, ha.stage, ha.queue⟩, by simp [hout]⟩
    · simp [ha.cancelled] at hc
  | built => exact ⟨⟨ha.cancelled, ha.state, ha.waiting, Or.inr ⟨_, rfl⟩, ha.queue⟩, by simp⟩
  | stopped => exact ⟨⟨ha.cancelled, ha.state, ha.waiting, Or.inl rfl, ha.queue⟩, by simp⟩
  | checked _ hc => simp [ha.cancelled] at hc
  | queued hst | emitted hst | advanced book hst =>
    rcases ha.stage with hs | ⟨m, hs⟩ <;> simp [hs] at hst

/-- The part of the invariant about the moves so far, when one more is made. -/
theorem BeforeFin.snoc (hb : BeforeFin first tr u) {u₁ : Unlocked}
    (paced : u₁.conn.sender.Paced) (cancelled : u₁.conn.tcb.cancelled = false)
    (state : u₁.conn.tcb.state ≠ .synSent ∧ u₁.conn.tcb.state ≠ .synReceived)
    (zeroWait : u₁.conn.send ≠ .zeroWait)
    (waiting : u₁.conn.closeWaiting = u.conn.closeWaiting ∨
      l.ev = .conn .close ∧ u₁.conn.closeWaiting ≤ 1)
    (stage : ∀ m, u₁.stage.msg = some m → ∃ a b, u₁.conn.send = .transmit a b ∧ b < a ∧
      m.hdr.seqNum = u₁.conn.tcb.snd.nxt ∧ m.payload.length = (segmentLength a b).toNat)
    (emitted : ∀ m, u₁.stage = .emitted m → m ∈ l.out.msgs ∨ u.stage = .emitted m)
    (queue : ∀ e ∈ u₁.conn.tcb.retransmissionQueue,
      lo e + len e ≤ u₁.conn.tcb.snd.lbw.toNat ∧ len e ≤ 65535)
    (lbw : u.conn.tcb.snd.lbw ≤ u₁.conn.tcb.snd.lbw)
    (sent : ∀ m ∈ l.out.msgs, m.payload ≠ [] → m.edge ≤ u₁.conn.tcb.snd.lbw.toNat)
    (last : u₁.conn.tcb.snd.nxt = u.conn.tcb.snd.nxt ∨
      ∃ m, u.stage = .emitted m ∧ m.payload ≠ [] ∧ m.edge = u₁.conn.tcb.snd.nxt.toNat) :
    BeforeFin first (tr ++ [⟨u, l, u₁⟩]) u₁ := by
  have hgrow : ∀ {P : Move Unlocked UnlockedLabel → Prop}, (∃ y ∈ tr, P y) →
      ∃ y ∈ tr ++ [⟨u, l, u₁⟩], P y := by
    rintro P ⟨y, hy, hp⟩
    exact ⟨y, List.mem_append_left _ hy, hp⟩
  refine ⟨paced, cancelled, state, zeroWait, ?_, fun hno => ?_, stage, fun m hm => ?_, queue,
    fun y hy m hm hp => ?_, ?_⟩
  · rcases waiting with hw | hw
    · exact hw.trans_le hb.waiting
    · exact hw.2
  · rcases waiting with hw | hw
    · exact hw.trans (hb.uncalled fun y hy => hno y (List.mem_append_left _ hy))
    · exact absurd hw.1 (hno ⟨u, l, u₁⟩ (by simp))
  · rcases emitted m hm with hm | hm
    · exact ⟨_, List.mem_append_right _ (List.mem_singleton_self _), hm⟩
    · exact hgrow (hb.emitted m hm)
  · rcases List.mem_append.mp hy with hy | hy
    · exact (hb.sent y hy m hm hp).trans lbw
    · rw [List.mem_singleton.mp hy] at hm
      exact sent m hm hp
  · rcases last with hl | ⟨m, hst, hp, he⟩
    · rw [hl]
      exact hb.last.imp id hgrow
    · obtain ⟨y, hy, hm⟩ := hb.emitted m hst
      exact Or.inr (hgrow ⟨y, hy, m, hm, hp, he⟩)

/-- The step sends the FIN: it has the number SND.LBW, and `Send` is outside an iteration. -/
structure SendsFin (u : Unlocked) (l : UnlockedLabel) (u' : Unlocked) : Prop where
  ev : l.ev = .conn .close ∨ l.ev = .conn .closeWake ∧ 0 < u.conn.closeWaiting
  nxt : u.conn.tcb.snd.nxt = u.conn.tcb.snd.lbw
  out : ∃ fin, l.out.msgs = [fin] ∧ fin.hdr.hasFin = true ∧ fin.payload = [] ∧
    fin.hdr.seqNum = u.conn.tcb.snd.lbw
  after : AfterFin u.conn.tcb.snd.lbw.toNat u'

/-- A FIN is sent by a `Close` that is called now, or was called before. -/
theorem BeforeFin.called (hb : BeforeFin first tr u) (h : SendsFin u l u') :
    ∃ y ∈ tr ++ [⟨u, l, u'⟩], y.ev.ev = .conn .close := by
  rcases h.ev with he | ⟨-, hw⟩
  · exact ⟨_, List.mem_append_right _ (List.mem_singleton_self _), he⟩
  · by_contra hno
    push Not at hno
    have h0 := hb.uncalled fun y hy => hno y (List.mem_append_left _ hy)
    omega

/-- An iteration under way keeps SND.NXT below SND.LBW. -/
theorem BeforeFin.outside (hb : BeforeFin first tr u)
    (h : u.conn.tcb.snd.nxt = u.conn.tcb.snd.lbw) : u.stage = .outside := by
  cases hst : u.stage with
  | outside => rfl
  | built m | checked m | queued m | emitted m =>
    obtain ⟨a, b, hpc, hlt, -⟩ := hb.stage m (by rw [hst]; rfl)
    have hp := (hb.paced.transmit a b hpc).2
    have hlen := segmentLength_pos hlt
    have hsub := segmentLength_le_sub a b
    simp only [Conn.sender_snd, h] at hp
    omega

theorem sendFin_queue (c : Conn) : ∃ hdr, hdr.seqNum = c.tcb.snd.nxt ∧
    c.sendFin.1.tcb.retransmissionQueue = c.tcb.retransmissionQueue ++ [⟨hdr, 0⟩] :=
  ⟨_, rfl, rfl⟩

theorem BeforeFin.fin (hb : BeforeFin first tr u) {ev : Event} {c₁ : Conn}
    (hc : Closing u.conn ev c₁) (heq : u.conn.tcb.snd.nxt = u.conn.tcb.snd.lbw)
    (hone : ev = .close → u.conn.closeWaiting = 0) :
    SendsFin u ⟨.conn ev, { msgs := c₁.sendFin.2 }⟩ { u with conn := c₁.sendFin.1 } := by
  have hsnd := hc.snd
  have hqueue : c₁.tcb.retransmissionQueue = u.conn.tcb.retransmissionQueue := by
    cases hc <;> rfl
  refine ⟨?_, heq, ⟨_, rfl, ?_, rfl, ?_⟩, rfl, ?_, ?_, Or.inl (hb.outside heq), fun e he => ?_⟩
  · cases hc with
    | enter => exact Or.inl rfl
    | wake hw => exact Or.inr ⟨rfl, hw⟩
  · simp [TCPFields.hasFin, tcpFlagFin, tcpFlagAck]
  · rw [← heq, ← hsnd]
    rfl
  · simp only [Conn.sendFin]
    split <;> simp
  · cases hc with
    | enter => exact hone rfl
    | wake hw =>
      have := hb.waiting
      simp only [Conn.sendFin]
      omega
  · obtain ⟨hdr, hseq, hq⟩ := sendFin_queue c₁
    rw [hq, hqueue] at he
    rcases List.mem_append.mp he with he | he
    · exact hb.queue e he
    · rw [List.mem_singleton.mp he]
      simp [lo, len, hseq, hsnd, heq]

/-- A step of the connection outside `Send`, before the FIN. -/
theorem BeforeFin.conn_step (hb : BeforeFin first tr u) {ev : Event} {o : Output}
    (h : Step u.conn ⟨ev, o⟩ c') (hsend : ev ≠ .send)
    (hone : ev = .close → u.conn.closeWaiting = 0) (hzero : c'.send ≠ .zeroWait)
    (hlbw : u.conn.tcb.snd.lbw ≤ c'.tcb.snd.lbw) :
    BeforeFin first (tr ++ [⟨u, ⟨.conn ev, o⟩, { u with conn := c' }⟩]) { u with conn := c' } ∨
      SendsFin u ⟨.conn ev, o⟩ { u with conn := c' } := by
  have hemit : ∀ m ∈ o.msgs, m.payload ≠ [] → m.edge ≤ u.conn.tcb.snd.lbw.toNat := by
    intro m hm hp
    rcases h.data_emitted hm hp with ⟨p, hp', rfl⟩ | ⟨hev, -⟩ | ⟨hz, -⟩
    · exact (edge_resendMsg (hb.queue p hp').2).trans_le (hb.queue p hp').1
    · exact absurd hev hsend
    · exact absurd hz hb.zeroWait
  cases h.closing with
  | waits hc hne =>
    left
    cases hc with
    | enter =>
      refine hb.snoc ⟨hb.paced.le, hb.paced.transmit, hb.paced.zero⟩ hb.cancelled hb.state
        hb.zeroWait (Or.inr ⟨rfl, ?_⟩) hb.stage (fun m hm => Or.inr hm) hb.queue hlbw (by simp)
        (Or.inl rfl)
      simp [hone rfl]
    | wake hw =>
      refine hb.snoc ⟨hb.paced.le, hb.paced.transmit, hb.paced.zero⟩ hb.cancelled hb.state
        hb.zeroWait (Or.inl ?_) hb.stage (fun m hm => Or.inr hm) hb.queue hlbw (by simp)
        (Or.inl rfl)
      exact Nat.sub_add_cancel hw
  | fin hc heq => exact Or.inr (hb.fin hc heq hone)
  | other hev hwaiting _ hcancelled =>
    left
    obtain ⟨hpc, hnxt, hq⟩ := h.sender_kept hsend hev hb.state
    have hpaced := hb.paced.move h.sender hb.state ⟨hev.1, fun hw => absurd hw hev.2⟩ hlbw
    refine hb.snoc hpaced (hcancelled.trans hb.cancelled) (h.not_opening hb.state) hzero
      (Or.inl hwaiting) (fun m hm => ?_) (fun m hm => Or.inr hm) (fun e he => ?_) hlbw
      (fun m hm hp => (hemit m hm hp).trans hlbw) (Or.inl hnxt)
    · obtain ⟨a, b, hab, hlt, hseq, hlen⟩ := hb.stage m hm
      exact ⟨a, b, hpc.trans hab, hlt, hseq.trans hnxt.symm, hlen⟩
    · obtain ⟨he, hlen⟩ := hb.queue e (hq e he)
      exact ⟨he.trans hlbw, hlen⟩

/-- A step of `Send`, before the FIN. -/
theorem BeforeFin.send_step (hb : BeforeFin first tr u) {o : Output}
    (h : UnlockedMove u .send o u') (hzero : u'.conn.send ≠ .zeroWait) :
    BeforeFin first (tr ++ [⟨u, ⟨.send, o⟩, u'⟩]) u' := by
  -- the segment of the iteration lies below SND.LBW
  have hbelow : ∀ m, u.stage.msg = some m → m.edge ≤ u.conn.tcb.snd.lbw.toNat ∧
      m.payload.length ≤ 1360 ∧ m.payload ≠ [] := by
    intro m hm
    obtain ⟨a, b, hpc, hlt, hseq, hlen⟩ := hb.stage m hm
    have hp := (hb.paced.transmit a b hpc).2
    have hpos := segmentLength_pos hlt
    have hsub := segmentLength_le_sub a b
    have hle := segmentLength_le a b
    simp only [Conn.sender_snd] at hp
    refine ⟨?_, by omega, ?_⟩
    · rw [Msg.edge, hseq]
      omega
    · rw [← List.length_pos_iff]
      omega
  cases h with
  | outer hst hpc hs =>
    obtain ⟨hout, ⟨pc, hj, rfl⟩ | ⟨hz, -⟩⟩ := hs.send_outer hpc
    · refine hb.snoc (hj.paced rfl rfl hb.paced.le fun hz => absurd hz hb.zeroWait) hb.cancelled
        hb.state hzero (Or.inl rfl) (by simp [hst, Stage.msg]) (by simp [hst]) hb.queue (by simp)
        (by simp [hout]) (Or.inl rfl)
    · exact absurd hz hb.zeroWait
  | @built a b hst hpc hlt =>
    refine hb.snoc hb.paced hb.cancelled hb.state hb.zeroWait (Or.inl rfl) (fun m hm => ?_)
      (by simp) hb.queue (by simp) (by simp) (Or.inl rfl)
    cases hm
    exact ⟨a, b, hpc, hlt, rfl, by simp [TCB.freshMsg]⟩
  | stopped hst hc => simp [hb.cancelled] at hc
  | @checked m hst hc =>
    exact hb.snoc hb.paced hb.cancelled hb.state hb.zeroWait (Or.inl rfl)
      (fun m' hm => hb.stage m' (by rw [hst]; exact hm)) (by simp) hb.queue (by simp) (by simp)
      (Or.inl rfl)
  | @queued m hst =>
    obtain ⟨hedge, hlen, -⟩ := hbelow m (by rw [hst]; rfl)
    refine hb.snoc ⟨hb.paced.le, hb.paced.transmit, hb.paced.zero⟩ hb.cancelled hb.state
      hb.zeroWait (Or.inl rfl) (fun m' hm => hb.stage m' (by rw [hst]; exact hm)) (by simp)
      (fun e he => ?_) (by simp) (by simp) (Or.inl rfl)
    rcases List.mem_append.mp he with he | he
    · exact hb.queue e he
    · rw [List.mem_singleton.mp he]
      have hlen' : len ⟨m.hdr, BitVec.ofNat 32 m.payload.length⟩ = m.payload.length :=
        toNat_ofNat_length (by omega)
      rw [hlen']
      exact ⟨hedge, by omega⟩
  | @emitted m hst =>
    obtain ⟨hedge, -, -⟩ := hbelow m (by rw [hst]; rfl)
    refine hb.snoc hb.paced hb.cancelled hb.state hb.zeroWait (Or.inl rfl)
      (fun m' hm => hb.stage m' (by rw [hst]; exact hm)) ?_ hb.queue (by simp) ?_ (Or.inl rfl)
    · rintro m' ⟨⟩
      exact Or.inl (List.mem_singleton_self _)
    · rintro m' hm' -
      rw [List.mem_singleton.mp hm']
      exact hedge
  | @advanced m a b book hst hpc =>
    obtain ⟨a', b', hpc', hlt, hseq, hlen⟩ := hb.stage m (by rw [hst]; rfl)
    obtain ⟨hedge, -, hne⟩ := hbelow m (by rw [hst]; rfl)
    rw [hpc] at hpc'
    obtain ⟨rfl, rfl⟩ := SendPc.transmit.inj hpc'
    have hpaced := hb.paced.move
      (.segment (c := u.conn) hpc hlt hb.cancelled) hb.state (by simp) (by simp)
    have hnxt : m.edge = (u.conn.tcb.snd.nxt + segmentLength a b).toNat := by
      rw [Msg.edge, hseq, hlen, BitVec.toNat_add]
      rw [Msg.edge, hseq, hlen] at hedge
      omega
    exact hb.snoc ⟨hpaced.le, hpaced.transmit, hpaced.zero⟩ hb.cancelled hb.state (by simp)
      (Or.inl rfl) (by simp [Stage.msg]) (by simp) hb.queue (by simp) (by simp)
      (Or.inr ⟨m, hst, hne, hnxt⟩)

end Steps

/-- One call of `Close`, no zero-window wait, and no sequence number crosses the last one. -/
def OrderlyClose (pre : List (Move Unlocked UnlockedLabel)) (x : Move Unlocked UnlockedLabel) :
    Prop :=
  (x.ev.ev = .conn .close → ∀ y ∈ pre, y.ev.ev ≠ .conn .close) ∧
    x.dst.conn.send ≠ .zeroWait ∧ x.src.conn.tcb.snd.lbw ≤ x.dst.conn.tcb.snd.lbw

instance (pre : List (Move Unlocked UnlockedLabel)) (x : Move Unlocked UnlockedLabel) :
    Decidable (OrderlyClose pre x) := inferInstanceAs (Decidable (_ ∧ _ ∧ _))

/-- The FIN sent by the move `x` has the number one past the last byte ever transmitted. -/
structure FinLast (first : U32) (pre : List (Move Unlocked UnlockedLabel))
    (x : Move Unlocked UnlockedLabel) (post : List (Move Unlocked UnlockedLabel)) (fin : Msg) :
    Prop where
  flag : fin.hdr.hasFin = true
  lbw : fin.hdr.seqNum = x.src.conn.tcb.snd.lbw
  onePast : fin.hdr.seqNum = first ∨
    ∃ y ∈ pre, ∃ m ∈ y.ev.out.msgs, m.payload ≠ [] ∧ m.edge = fin.hdr.seqNum.toNat
  below : ∀ y ∈ pre ++ x :: post, ∀ m ∈ y.ev.out.msgs, m.payload ≠ [] →
    m.edge ≤ fin.hdr.seqNum.toNat
  resent : ∀ y ∈ post, ∀ m ∈ y.ev.out.msgs, m.payload ≠ [] → m.origin = .resend

section Run

variable {c : Conn} {u : Unlocked} {tr : List (Move Unlocked UnlockedLabel)}

theorem Established.beforeFin (hc : Established c) :
    BeforeFin c.tcb.snd.nxt [] { conn := c } where
  paced := hc.paced
  cancelled := hc.cancelled
  state := by simp [hc.state]
  zeroWait := by simp [hc.send]
  waiting := by simp [hc.closeWaiting]
  uncalled := fun _ => hc.closeWaiting
  stage := by simp [Stage.msg]
  emitted := by simp
  queue := by simp [hc.queue]
  sent := by simp
  last := Or.inl rfl

/-- Up to the FIN, and from the call of `Close` that sent it. -/
theorem beforeFin_or_afterFin (hc : Established c) (h : Run UnlockedStep { conn := c } tr u)
    (ho : Along OrderlyClose tr) :
    BeforeFin c.tcb.snd.nxt tr u ∨
      (∃ f, AfterFin f u) ∧ ∃ y ∈ tr, y.ev.ev = .conn .close := by
  refine h.inv (I := fun tr u => BeforeFin c.tcb.snd.nxt tr u ∨
    (∃ f, AfterFin f u) ∧ ∃ y ∈ tr, y.ev.ev = .conn .close) (Or.inl hc.beforeFin) ho ?_
  rintro tr u l u' (hb | ⟨⟨f, ha⟩, y, hy, hclose⟩) hs ⟨hone, hzero, hlbw⟩
  · have hm := hs.moved
    obtain ⟨ev, o⟩ := l
    cases ev with
    | send => exact Or.inl (hb.send_step hm hzero)
    | conn ev =>
      simp only at hm hone
      cases hm with
      | conn hev hstep =>
        exact (hb.conn_step hstep hev (fun he => hb.uncalled (hone (he ▸ rfl))) hzero hlbw).imp
          id fun hf => ⟨⟨_, hf.after⟩, hb.called hf⟩
  · have hne : l.ev ≠ .conn .close := fun he => hone he y hy hclose
    exact Or.inr ⟨⟨f, (ha.step hs hne).1⟩, y, List.mem_append_left _ hy, hclose⟩

/-- What follows a FIN in a run without another call of `Close`. -/
theorem resent_after {f : ℕ} {v : Unlocked} (ha : AfterFin f v) (h : Run UnlockedStep v tr u)
    (hclose : ∀ x ∈ tr, x.ev.ev ≠ .conn .close) :
    ∀ y ∈ tr, ∀ m ∈ y.ev.out.msgs, m.payload ≠ [] → m.origin = .resend ∧ m.edge ≤ f := by
  refine (h.inv (I := fun tr u => AfterFin f u ∧ ∀ y ∈ tr, ∀ m ∈ y.ev.out.msgs,
    m.payload ≠ [] → m.origin = .resend ∧ m.edge ≤ f) ⟨ha, by simp⟩
    (along_of_forall_mem hclose) ?_).2
  rintro tr u l u' ⟨ha, hpast⟩ hs hne
  obtain ⟨ha', hout⟩ := ha.step hs hne
  refine ⟨ha', fun y hy => ?_⟩
  rcases List.mem_append.mp hy with hy | hy
  · exact hpast y hy
  · rw [List.mem_singleton.mp hy]
    exact hout

/-- After the FIN the one call of `Close` has nothing left to do but to return. -/
theorem AfterFin.no_close {f : ℕ} {l : UnlockedLabel} {u' : Unlocked} (ha : AfterFin f u)
    (h : UnlockedStep u l u') (hclose : l.ev ≠ .conn .close) :
    ¬ (l.ev = .conn .close ∨ l.ev = .conn .closeWake) := by
  rintro (he | he)
  · exact hclose he
  · have hm := h.moved
    rw [he] at hm
    generalize l.out = o at hm
    cases hm with
    | conn _ hs =>
      cases hs.closing with
      | waits hcl | fin hcl => cases hcl with | wake hw => simp [ha.waiting] at hw
      | other hne => exact hne.2 rfl

/-- A message of `Close` is its FIN. -/
theorem BeforeFin.sendsFin {first : U32} {x : Move Unlocked UnlockedLabel} {m : Msg}
    (hb : BeforeFin first tr x.src) (h : UnlockedStep x.src x.ev x.dst)
    (hev : x.ev.ev = .conn .close ∨ x.ev.ev = .conn .closeWake) (ho : OrderlyClose tr x)
    (hm : m ∈ x.ev.out.msgs) : SendsFin x.src x.ev x.dst := by
  obtain ⟨u, ⟨ev, o⟩, u'⟩ := x
  have hmove := h.moved
  simp only at hmove hev hm hb
  cases hmove with
  | @conn ev o c' _ hs =>
    have hone := ho.1
    simp only [UnlockedEvent.conn.injEq] at hev hone
    cases hs.closing with
    | waits => simp at hm
    | fin hcl heq => exact hb.fin hcl heq fun he => hb.uncalled (hone he)
    | other hne => exact absurd hev (not_or.mpr hne)
  | _ => simp at hev

end Run

/-- No data after the FIN, whose number is SND.LBW. -/
theorem fin_after_all_data {c : Conn} {u : Unlocked} {tr : List (Move Unlocked UnlockedLabel)}
    (hc : Established c) (h : Run UnlockedStep { conn := c } tr u) (ho : Along OrderlyClose tr)
    {pre post : List (Move Unlocked UnlockedLabel)} {x : Move Unlocked UnlockedLabel}
    (hx : tr = pre ++ x :: post)
    (hev : x.ev.ev = .conn .close ∨ x.ev.ev = .conn .closeWake) {fin : Msg}
    (hfin : fin ∈ x.ev.out.msgs) : FinLast c.tcb.snd.nxt pre x post fin := by
  obtain ⟨hpre, hs⟩ := h.pre hx
  have hox : OrderlyClose pre x := ho pre x post hx
  have hopre : Along OrderlyClose pre := (hx ▸ ho).left
  rcases beforeFin_or_afterFin hc hpre hopre with hb | ⟨⟨f, ha⟩, y, hy, hclose⟩
  · have hsends := hb.sendsFin hs hev hox hfin
    have hpast := hb.called hsends
    have hnone : ∀ y ∈ post, y.ev.ev ≠ .conn .close := by
      intro y hy he
      obtain ⟨mid, post', rfl⟩ := List.append_of_mem hy
      obtain ⟨z, hz, hze⟩ := hpast
      refine (ho (pre ++ x :: mid) y post' (by simp [hx])).1 he z ?_ hze
      rcases List.mem_append.mp hz with hz | hz
      · exact List.mem_append_left _ hz
      · exact List.mem_append_right _ (List.mem_singleton.mp hz ▸ List.mem_cons_self)
    have hafter := resent_after hsends.after (h.post hx) hnone
    obtain ⟨fin', hout, hflag, hpay, hseq⟩ := hsends.out
    rw [hout, List.mem_singleton] at hfin
    subst hfin
    refine ⟨hflag, hseq, ?_, fun y hy m hm hp => ?_, fun y hy m hm hp => (hafter y hy m hm hp).1⟩
    · rw [hseq, ← hsends.nxt]
      exact hb.last
    · rw [hseq]
      rcases List.mem_append.mp hy with hy | hy
      · exact hb.sent y hy m hm hp
      · rcases List.mem_cons.mp hy with rfl | hy
        · rw [hout, List.mem_singleton] at hm
          exact absurd (hm ▸ hpay) hp
        · exact (hafter y hy m hm hp).2
  · exact absurd hev (ha.no_close hs fun he => hox.1 he y hy hclose)

section Sample

def Unlocked.next (u : Unlocked) (ev : UnlockedEvent) : Option (UnlockedLabel × Unlocked) :=
  (u.step ⟨0, 0, true⟩ ev).map fun r => (⟨ev, r.2⟩, r.1)

def Unlocked.play (u : Unlocked) (events : List UnlockedEvent) :
    List (Move Unlocked UnlockedLabel) × Unlocked :=
  Runs.play Unlocked.next u events

theorem Unlocked.play_run (u : Unlocked) (events : List UnlockedEvent) :
    Run UnlockedStep u (u.play events).1 (u.play events).2 :=
  play_map_run UnlockedLabel.mk (fun _ _ _ _ h => ⟨_, h⟩) u events

/-- `Close` is called while `Send` stands between its test of `Cancelled` and the queue. -/
def Unlocked.closedInLoop : List UnlockedEvent :=
  [.conn (.write [7, 8]), .send, .send, .send, .conn .close, .send, .send, .conn .closeWake, .send,
    .conn .closeWake, .send, .conn .timeout]

/-- The run of that schedule up to the FIN, the FIN, and what follows. -/
def Unlocked.closedRun : List (Move Unlocked UnlockedLabel) :=
  (Unlocked.play { conn := Conn.fresh 100 100 500 } Unlocked.closedInLoop).1

theorem fin_after_all_data_closedInLoop :
    ∃ fin, FinLast 100 (Unlocked.closedRun.take 9) (Unlocked.closedRun.get ⟨9, by decide⟩)
      (Unlocked.closedRun.drop 10) fin := by
  have hfin : ((Unlocked.closedRun.get ⟨9, by decide⟩).ev.out.msgs.head (by decide)) ∈
      (Unlocked.closedRun.get ⟨9, by decide⟩).ev.out.msgs := List.head_mem _
  have hrun : Run UnlockedStep { conn := Conn.fresh 100 100 500 } Unlocked.closedRun _ :=
    Unlocked.play_run _ _
  have ho : Along OrderlyClose Unlocked.closedRun := along_of_forall_fin (by decide)
  have hx : Unlocked.closedRun = Unlocked.closedRun.take 9 ++
      Unlocked.closedRun.get ⟨9, by decide⟩ :: Unlocked.closedRun.drop 10 := by simp
  exact ⟨_, fin_after_all_data (established_fresh (Or.inl rfl)) hrun ho hx (by decide) hfin⟩

end Sample

end TcpIp
