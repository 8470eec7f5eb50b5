import TcpIp.Tcp.Established

/-! The order of SND.UNA, SND.NXT and SND.LBW under arbitrary incoming segments. -/
namespace TcpIp

open Runs

/-- `Send` never has more to transmit than was written. -/
structure Sender.Paced (s : Sender) : Prop where
  le : s.snd.nxt ≤ s.snd.lbw
  transmit : ∀ a b, s.pc = .transmit a b →
    b ≤ a ∧ s.snd.nxt.toNat + (a - b).toNat ≤ s.snd.lbw.toNat
  zero : s.pc = .zeroWait → s.snd.nxt < s.snd.lbw

section Paced

variable {c c' : Conn} {ev : Event} {l : Label} {s : Sender}

theorem amountToSend_le (t : TCB) : (t.amountToSend).toNat ≤ (t.snd.lbw - t.snd.nxt).toNat := by
  simp [TCB.amountToSend]

theorem Jump.paced {t : TCB} {pc pc' : SendPc} (h : Jump t pc pc') (hpc : s.pc = pc')
    (hsnd : s.snd = t.snd) (hle : t.snd.nxt ≤ t.snd.lbw)
    (hz : pc = .zeroWait → t.snd.wnd = 0 → t.snd.nxt < t.snd.lbw) : s.Paced := by
  refine ⟨hsnd ▸ hle, fun a b hab => ?_, fun hzero => ?_⟩
  · rw [hpc] at hab
    rw [hsnd]
    cases h with
    | transmit hdata =>
      obtain ⟨rfl, rfl⟩ := SendPc.transmit.inj hab
      have := amountToSend_le t
      constructor <;> bv_omega
    | idle h => rcases h with rfl | rfl | ⟨rfl, -⟩ <;> cases hab
    | _ => cases hab
  · rw [hpc] at hzero
    rw [hsnd]
    cases h with
    | zeroWait hw hdata => exact hdata
    | idle h =>
      rcases h with rfl | rfl | ⟨rfl, hw⟩
      · cases hzero
      · cases hzero
      · exact hz rfl hw
    | _ => cases hzero

/-- `Send` does not go back. -/
theorem Sender.Paced.nxt_le (hp : c.sender.Paced) (h : SenderMove c .send s) :
    c.tcb.snd.nxt ≤ s.snd.nxt := by
  cases h with
  | same hsend => exact absurd rfl hsend
  | segment hpc hlt hc =>
    rename_i a b
    obtain ⟨hba, hsum⟩ := hp.transmit a b hpc
    have hlen := segmentLength_le_sub a b
    simp only [Conn.sender_snd] at hsum
    simp only
    bv_omega
  | zeroExit hpc =>
    have hlt := hp.zero hpc
    simp only [Conn.sender_snd] at hlt
    simp only
    bv_omega
  | finSent hev => rcases hev with hev | ⟨hev, -⟩ <;> cases hev
  | jump | loss => exact BitVec.le_refl _

/-- More written data leaves `Send` with no more to transmit. -/
theorem Sender.Paced.grow (hp : s.Paced) (buffer : ℕ → U8) {lbw : U32} (hlbw : s.snd.lbw ≤ lbw) :
    ({ s with snd := { s.snd with buffer, lbw } } : Sender).Paced := by
  refine ⟨BitVec.le_trans hp.le hlbw, fun a b hab => ?_, fun hzero => ?_⟩
  · have hab' := hp.transmit a b hab
    rw [BitVec.le_def] at hlbw
    exact ⟨hab'.1, by simp only; omega⟩
  · have hlt := hp.zero hzero
    simp only
    bv_omega

theorem Sender.Paced.move (hp : c.sender.Paced) (h : SenderMove c ev s)
    (hstate : c.tcb.state ≠ .synSent ∧ c.tcb.state ≠ .synReceived)
    (hclose : ev ≠ .close ∧ (ev = .closeWake → c.closeWaiting = 0))
    (hlbw : c.tcb.snd.lbw ≤ s.snd.lbw) : s.Paced := by
  obtain ⟨hle, htr, hz⟩ := hp
  simp only [Conn.sender] at hle htr hz
  cases h with
  | same | acked | loss | initCC | enableCC | lastAcked => exact ⟨hle, htr, hz⟩
  | opened hs => exact absurd hs (not_or.mpr hstate)
  | wrote hs hw hb => exact Sender.Paced.grow (s := c.sender) ⟨hle, htr, hz⟩ _ hlbw
  | jump hj => exact hj.paced rfl rfl hle fun hpc _ => hz hpc
  | segment hpc hlt hc =>
    rename_i a b
    obtain ⟨hba, hsum⟩ := htr a b hpc
    have hlen := segmentLength_le_sub a b
    refine ⟨?_, fun a' b' hab => ?_, by simp⟩
    · simp only [BitVec.le_def, BitVec.toNat_add]
      omega
    · obtain ⟨rfl, rfl⟩ := SendPc.transmit.inj hab
      simp only
      constructor <;> bv_omega
  | zeroExit hpc hw hc hj =>
    have hlt := hz hpc
    refine hj.paced rfl rfl ?_ fun _ hw' => absurd hw' hw
    simp only
    bv_omega
  | finSent hev =>
    rcases hev with rfl | ⟨rfl, hw⟩
    · exact absurd rfl hclose.1
    · simp [hclose.2 rfl] at hw

end Paced

/-- A round of `Write`. -/
def Event.isWrite : Event → Bool
  | .write _ => true
  | _ => false

/-- Where a connection can be before `Close` is called on it. -/
structure DataPhase (c : Conn) : Prop where
  state : c.tcb.state = .established ∨ c.tcb.state = .closeWait ∨ c.tcb.state = .closed
  closeWaiting : c.closeWaiting = 0
  cancelled : c.tcb.cancelled = false

section DataPhase

variable {c c' : Conn} {seg : Segment} {out : List Msg} {l : Label}

theorem Established.dataPhase (h : Established c) : DataPhase c :=
  ⟨Or.inl h.state, h.closeWaiting, h.cancelled⟩

theorem Established.paced (h : Established c) : c.sender.Paced := by
  refine ⟨?_, ?_, ?_⟩ <;> simp [h.lbw, h.send]

theorem DataPhase.not_opening (h : DataPhase c) :
    c.tcb.state ≠ .synSent ∧ c.tcb.state ≠ .synReceived := by
  rcases h.state with hs | hs | hs <;> simp [hs]

theorem TCB.ackData_state (s : TCB) (key : SocketData) :
    (s.ackData key).1.state = s.state ∨ (s.ackData key).1.state = .closeWait := by
  unfold TCB.ackData
  split
  · exact Or.inr rfl
  · exact Or.inl rfl

theorem DataEffect.state {s u : TCB} {key : SocketData} (h : DataEffect s key seg u out) :
    u.state = s.state ∨ u.state = .closeWait := by
  cases h with
  | empty | refused => exact Or.inl rfl
  | inOrder | early => exact TCB.ackData_state _ _

theorem DataPhase.handled (h : DataPhase c) (hh : Handled c seg c' out) : DataPhase c' := by
  have hstate := h.state
  cases hh with
  | ignored | finRepeated => exact h
  | received hr hack hd ha =>
    cases hr with
    | established hs hf =>
      have hst := hd.state
      obtain ⟨st, r, e, rfl⟩ := hd.frame
      obtain ⟨snd, q, cwnd, b, rfl⟩ := ha.frame
      exact ⟨hst.imp id Or.inl, h.closeWaiting, h.cancelled⟩
    | finWait1 hs | finAcked hs | finWait2 hs => simp [hs] at hstate
  | fin hs hf =>
    refine ⟨?_, h.closeWaiting, ?_⟩
    · simp only [TCB.receiveFin]
      split
      · exact Or.inr (Or.inl rfl)
      · split
        · exact hstate
        · exact hstate
    · simp only [TCB.receiveFin]
      split
      · exact h.cancelled
      · split
        · exact h.cancelled
        · exact h.cancelled
  | synSent iss hs | synRepeated hs | accepted hs | finWait1Fin hs | finWait2Fin hs
  | closingAcked hs | lastAcked k hs => simp [hs] at hstate

theorem DataPhase.step (h : DataPhase c) (hs : Step c l c') (hev : l.ev ≠ .close) :
    DataPhase c' := by
  have hm := hs.moved
  generalize l.ev = ev at hm hev
  generalize l.out = o at hm
  cases hm with
  | segment hin hh => exact h.handled hh
  | wrote hh hw =>
    obtain ⟨-, -, buffer, rfl, -⟩ := writeRound_wrote hw
    exact { h with }
  | read hr hh hin he | readWake hr he =>
    obtain ⟨n, -, rfl, -⟩ := he.consumed
    exact { h with }
  | send he =>
    generalize c.send = pc at he
    cases he <;> exact { h with }
  | closeWaits hc | closes hc =>
    cases hc with
    | enter => exact absurd rfl hev
    | wake hw => simp [h.closeWaiting] at hw
  | gaveUp | handshakeGaveUp | expired => exact { h with state := Or.inr (Or.inr rfl) }
  | notWritten | probe | timerIdle => exact h
  | closeReturn | timerStopped | resent | handshakeResent | ackToken | enableCC | initCC =>
    exact { h with }

end DataPhase

/-- The pointers are in order and at most a buffer apart. -/
def SendPointers (s : Send) : Prop :=
  s.una ≤ s.nxt ∧ s.nxt ≤ s.lbw ∧ s.lbw - s.una ≤ maxBufSize

instance (s : Send) : Decidable (SendPointers s) := inferInstanceAs (Decidable (_ ∧ _ ∧ _))

/-- The segment passes the window test although it acknowledges bytes past SND.NXT. -/
def Conn.acksUnsent (c : Conn) : Event → Bool
  | .segment seg =>
    c.passesToReceive seg.hdr && !c.tcb.thirdDuplicate seg.hdr && seg.hdr.windowSize ≠ 0 &&
      c.tcb.snd.nxt < seg.hdr.ackNum &&
      (c.tcb.snd.wnd = 0 || seg.hdr.ackNum ≤ c.tcb.snd.una + c.tcb.snd.wnd)
  | _ => false

section SendPointers

variable {c c' : Conn} {l : Label} {tr : List (Move Conn Label)}

theorem acksUnsent_iff {seg : Segment} (h : c.tcb.snd.una ≤ c.tcb.snd.nxt) :
    c.acksUnsent (.segment seg) = true ↔
      c.takesAck seg.hdr = true ∧ c.tcb.snd.nxt < seg.hdr.ackNum := by
  simp only [Conn.acksUnsent, Conn.takesAck, TCB.acceptsAck, TCB.ackDropped, Bool.and_eq_true,
    Bool.not_eq_true', decide_eq_true_eq, Bool.or_eq_true]
  by_cases hw : seg.hdr.windowSize = 0
  · simp only [hw, if_true, decide_eq_false_iff_not]
    constructor
    · simp
    · rintro ⟨⟨-, -, hnot⟩, hlt⟩
      exact absurd (Or.inr hlt) hnot
  · simp only [hw, if_false, decide_eq_false_iff_not]
    constructor
    · rintro ⟨⟨⟨⟨hp, hd⟩, -⟩, hlt⟩, hr⟩
      refine ⟨⟨hp, hd, ?_⟩, hlt⟩
      rintro (hle | ⟨hgt, hne⟩)
      · bv_omega
      · rcases hr with hr | hr
        · exact hne hr
        · bv_omega
    · rintro ⟨⟨hp, hd, hnot⟩, hlt⟩
      refine ⟨⟨⟨⟨hp, hd⟩, hw⟩, hlt⟩, ?_⟩
      by_cases hz : c.tcb.snd.wnd = 0
      · exact Or.inl hz
      · refine Or.inr ?_
        by_contra hgt
        exact hnot (Or.inr ⟨by bv_omega, hz⟩)

/-- An acknowledgement that moves SND.UNA moves it forward. -/
theorem una_lt_of_takesAck {hdr : TCPFields} (h : c.takesAck hdr = true) :
    c.tcb.snd.una < hdr.ackNum := by
  simp only [Conn.takesAck, Bool.and_eq_true] at h
  exact una_lt_of_acceptsAck h.2

/-- Outside `Write` the ring stays as it is, and UNA does not go back. -/
theorem SenderMove.ring_kept {ev : Event} {s : Sender} (h : SenderMove c ev s)
    (hstate : c.tcb.state ≠ .synSent ∧ c.tcb.state ≠ .synReceived) (hev : ev.isWrite = false) :
    s.snd.buffer = c.tcb.snd.buffer ∧ s.snd.lbw = c.tcb.snd.lbw ∧ c.tcb.snd.una ≤ s.snd.una := by
  cases h with
  | opened hs => exact absurd hs (not_or.mpr hstate)
  | wrote => cases hev
  | acked htakes => exact ⟨rfl, rfl, BitVec.le_of_lt (una_lt_of_takesAck htakes)⟩
  | _ => exact ⟨rfl, rfl, BitVec.le_refl _⟩

theorem Established.sendPointers (h0 : Established c) (huna : c.tcb.snd.una ≤ c.tcb.snd.nxt) :
    SendPointers c.tcb.snd := by
  refine ⟨huna, by rw [h0.lbw]; exact BitVec.le_refl _, ?_⟩
  rw [h0.lbw, BitVec.le_def, toNat_maxBufSize]
  rcases h0.una with heq | heq <;> bv_omega

/-- A round of `Write` keeps the pointers in order and at most a buffer apart. -/
theorem SendPointers.grow {s : Send} {data : List U8} (h : SendPointers s) (buffer : ℕ → U8)
    (hlbw : s.lbw ≤ s.lbw + s.writable data) :
    SendPointers { s with buffer, lbw := s.lbw + s.writable data } := by
  obtain ⟨hun, hnl, hbuf⟩ := h
  refine ⟨hun, BitVec.le_trans hnl hlbw, ?_⟩
  have hroom := Send.writable_add_le data (show (s.lbw - s.una).toNat ≤ 65535 from hbuf)
  rw [BitVec.le_def, toNat_maxBufSize]
  simp only
  bv_omega

/-- A step keeps the pointers in order exactly when it takes no acknowledgement of unsent bytes. -/
theorem sendPointers_move {ev : Event} {s : Sender} (h : SenderMove c ev s)
    (hd : DataPhase c) (hp : c.sender.Paced) (hsp : SendPointers c.tcb.snd) (hev : ev ≠ .close)
    (hlbw : c.tcb.snd.lbw ≤ s.snd.lbw) :
    SendPointers s.snd ↔ c.acksUnsent ev = false := by
  have hle := (hp.move h hd.not_opening ⟨hev, fun _ => hd.closeWaiting⟩ hlbw).le
  have hkept := hsp
  obtain ⟨hun, hnl, hbuf⟩ := hsp
  have hno : (∀ seg, ev = .segment seg → c.takesAck seg.hdr = false) →
      c.acksUnsent ev = false := by
    intro hseg
    cases ev with
    | segment seg =>
      rw [← Bool.not_eq_true, acksUnsent_iff hun, hseg seg rfl]
      simp
    | _ => rfl
  cases h with
  | same hsend hseg => exact iff_of_true hkept (hno hseg)
  | loss hloss hseg => exact iff_of_true hkept (hno hseg)
  | jump | initCC | enableCC => exact iff_of_true hkept rfl
  | wrote hs hw hb => exact iff_of_true (hkept.grow _ hlbw) rfl
  | segment hpc hlt hc =>
    rename_i a b
    obtain ⟨-, hsum⟩ := hp.transmit a b hpc
    simp only [Conn.sender] at hsum
    have hlen := segmentLength_le_sub a b
    refine iff_of_true ⟨?_, hle, hbuf⟩ rfl
    simp only
    bv_omega
  | zeroExit hpc =>
    have hlt := hp.zero hpc
    simp only [Conn.sender] at hlt
    refine iff_of_true ⟨?_, hle, hbuf⟩ rfl
    simp only
    bv_omega
  | acked hack =>
    rename_i seg
    have hua := una_lt_of_takesAck hack
    rw [← Bool.not_eq_true, acksUnsent_iff hun]
    simp only [SendPointers, hack, true_and]
    constructor
    · rintro ⟨hle', -, -⟩
      bv_omega
    · intro hnot
      refine ⟨?_, hnl, ?_⟩ <;> bv_omega
  | opened hs => exact absurd hs (not_or.mpr hd.not_opening)
  | finSent hfin =>
    rcases hfin with rfl | ⟨-, hw⟩
    · exact absurd rfl hev
    · simp [hd.closeWaiting] at hw
  | lastAcked hs =>
    have hstate := hd.state
    simp [hs] at hstate

/-- Against any peer the pointers stay in order exactly as long as no segment acknowledges
unsent bytes inside the window. -/
theorem sendPointers_iff (h0 : Established c) (huna : c.tcb.snd.una ≤ c.tcb.snd.nxt)
    (h : Run Step c tr c') (hclose : ∀ x ∈ tr, x.ev.ev ≠ .close)
    (hcross : ∀ x ∈ tr, x.src.tcb.snd.lbw ≤ x.dst.tcb.snd.lbw) :
    (∀ x ∈ tr, SendPointers x.dst.tcb.snd) ↔ ∀ x ∈ tr, x.src.acksUnsent x.ev.ev = false := by
  refine h.forall_iff
    (I := fun c => DataPhase c ∧ c.sender.Paced ∧ SendPointers c.tcb.snd)
    (H := fun x => x.ev.ev ≠ .close ∧ x.src.tcb.snd.lbw ≤ x.dst.tcb.snd.lbw)
    ⟨h0.dataPhase, h0.paced, h0.sendPointers huna⟩ (fun x hx => ⟨hclose x hx, hcross x hx⟩) ?_ ?_
  · rintro t l u ⟨hd, hp, hsp⟩ hs ⟨hev, hlbw⟩ hack
    exact ⟨hd.step hs hev, hp.move hs.sender hd.not_opening ⟨hev, fun _ => hd.closeWaiting⟩ hlbw,
      (sendPointers_move hs.sender hd hp hsp hev hlbw).mpr hack⟩
  · rintro t l u ⟨hd, hp, hsp⟩ hs ⟨hev, hlbw⟩
    exact sendPointers_move hs.sender hd hp hsp hev hlbw

theorem sendPointers_iff_write_ack :
    let c := Conn.fresh 100 100 500
    let tr := (c.play [.write [1, 2, 3], .send, .send,
      .segment (Segment.fromPeer 500 102 16 1000 [] (by simp))]).1
    ((∀ x ∈ tr, SendPointers x.dst.tcb.snd) ↔ ∀ x ∈ tr, x.src.acksUnsent x.ev.ev = false) ∧
      tr.length = 4 ∧ ∀ x ∈ tr, SendPointers x.dst.tcb.snd :=
  ⟨sendPointers_iff (established_fresh (Or.inl rfl)) (by decide) (Conn.play_run _ _) (by decide)
    (by decide), by decide, by decide⟩

/-- One segment that acknowledges a hundred unsent bytes moves SND.UNA past SND.NXT. -/
theorem sendPointers_broken_by_early_ack :
    ¬ ∀ (c c' : Conn) (tr : List (Move Conn Label)), Established c →
      c.tcb.snd.una ≤ c.tcb.snd.nxt → Run Step c tr c' → (∀ x ∈ tr, x.ev.ev ≠ .close) →
      (∀ x ∈ tr, x.src.tcb.snd.lbw ≤ x.dst.tcb.snd.lbw) →
      ∀ x ∈ tr, SendPointers x.dst.tcb.snd := by
  intro h
  have hrun := Conn.play_run (Conn.fresh 100 100 500)
    [.segment (Segment.fromPeer 500 200 16 1000 [] (by simp))]
  have hbad := h _ _ _ (established_fresh (Or.inl rfl)) (by decide) hrun (by decide) (by decide)
  revert hbad
  decide

end SendPointers

end TcpIp
