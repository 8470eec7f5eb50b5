import Mathlib.Data.List.TakeWhile
import TcpIp.Tcp.Emissions
import TcpIp.Tcp.SendPointers
import TcpIp.Tcp.TimeWait

/-! What is left to retransmit when the FIN has been acknowledged. -/
namespace TcpIp

open Runs

/-- The segment acknowledges only what was sent. A probe is one byte past SND.NXT. -/
def Conn.acksOnlySent (c : Conn) : Event → Bool
  | .segment seg =>
    !seg.hdr.hasAck || seg.hdr.ackNum ≤ c.tcb.snd.nxt ||
      c.send = .zeroWait && !c.tcb.cancelled && seg.hdr.ackNum ≤ c.tcb.snd.nxt + 1
  | _ => true

/-- The sequence numbers do not run over the end of the 32-bit range. -/
def KeepsOrder (x : Move Conn Label) : Prop :=
  x.src.tcb.snd.lbw ≤ x.dst.tcb.snd.lbw ∧ x.src.tcb.snd.nxt ≤ x.dst.tcb.snd.nxt

instance (x : Move Conn Label) : Decidable (KeepsOrder x) := inferInstanceAs (Decidable (_ ∧ _))

/-- FIN_WAIT_2 is entered with nothing left to retransmit. -/
def EntersFinWait2Clean (x : Move Conn Label) : Prop :=
  x.src.tcb.state = .finWait1 → x.dst.tcb.state = .finWait2 →
    x.dst.tcb.retransmissionQueue = [] ∧ x.dst.tcb.snd.una = x.dst.tcb.snd.nxt

instance (x : Move Conn Label) : Decidable (EntersFinWait2Clean x) :=
  inferInstanceAs (Decidable (_ → _ → _))

/-- The acknowledgement of the FIN moves the state, but `Receive` does not take it: it is a third
duplicate, or the FIN lies outside the window. -/
def Conn.finAckRefused (c : Conn) : Event → Bool
  | .segment seg =>
    c.tcb.state = .finWait1 && seg.hdr.hasAck && seg.hdr.ackNum = c.tcb.snd.nxt &&
      !c.reachesFin seg && (c.tcb.thirdDuplicate seg.hdr || seg.hdr.windowSize ≠ 0 &&
        c.tcb.snd.wnd ≠ 0 && c.tcb.snd.una + c.tcb.snd.wnd < c.tcb.snd.nxt)
  | _ => false

/-- SND.UNA and everything queued are behind SND.NXT; an acknowledged probe is not yet counted. -/
structure Outstanding (c : Conn) : Prop where
  opened : c.tcb.state ≠ .synSent ∧ c.tcb.state ≠ .synReceived
  queue : ∀ e ∈ c.tcb.retransmissionQueue, e.tcpHeader.seqNum < c.tcb.snd.nxt
  zero : c.send = .zeroWait → c.tcb.snd.nxt < c.tcb.snd.lbw
  una : c.tcb.snd.una ≤ c.tcb.snd.nxt ∨
    c.send = .zeroWait ∧ c.tcb.cancelled = false ∧ c.tcb.snd.una ≤ c.tcb.snd.nxt + 1
  fin : c.tcb.state = .finWait1 → c.tcb.cancelled = true ∧ c.tcb.snd.una < c.tcb.snd.nxt

section Outstanding

variable {c c' : Conn} {l : Label} {ev : Event} {s : Sender} {seg : Segment}

theorem Established.outstanding (h : Established c) (huna : c.tcb.snd.una ≤ c.tcb.snd.nxt) :
    Outstanding c where
  opened := by simp [h.state]
  queue := by simp [h.queue]
  zero := by simp [h.send]
  una := Or.inl huna
  fin := by simp [h.state]

/-- Whatever joins the queue is sent at SND.NXT. -/
theorem Step.queued_at_nxt (h : Step c l c') {e : RetransmitSegment}
    (he : e ∈ c'.tcb.retransmissionQueue) :
    e ∈ c.tcb.retransmissionQueue ∨ e.tcpHeader.seqNum = c.tcb.snd.nxt := by
  refine (h.queued he).imp_right ?_
  rintro ⟨m, -, hhdr, ⟨a, b, rfl, -⟩ | ⟨rfl, -⟩⟩
  · exact hhdr ▸ rfl
  · exact hhdr ▸ rfl

/-- The queue stays behind SND.NXT, which moves on whenever something joins. -/
theorem Outstanding.queue_move (hI : Outstanding c) (h : SenderMove c ev s)
    (hnew : ∀ e ∈ s.queue,
      e ∈ c.tcb.retransmissionQueue ∨ e.tcpHeader.seqNum = c.tcb.snd.nxt)
    (hnxt : c.tcb.snd.nxt ≤ s.snd.nxt) : ∀ e ∈ s.queue, e.tcpHeader.seqNum < s.snd.nxt := by
  intro e he
  have hold : e ∈ c.tcb.retransmissionQueue → e.tcpHeader.seqNum < s.snd.nxt := by
    intro hmem
    have hlt := hI.queue e hmem
    bv_omega
  have hmoved : c.tcb.snd.nxt ≠ s.snd.nxt → e.tcpHeader.seqNum < s.snd.nxt := by
    intro hne
    rcases hnew e he with hmem | heq
    · exact hold hmem
    · rw [heq]
      exact BitVec.lt_of_le_ne hnxt hne
  cases h with
  | opened hs => exact absurd hs (not_or.mpr hI.opened)
  | segment hpc hlt =>
    have hpos := segmentLength_pos hlt
    exact hmoved (by simp only; bv_omega)
  | finSent => exact hmoved (by simp only; bv_omega)
  | acked | lastAcked => exact hold ((List.dropWhile_sublist _).subset he)
  | _ => exact hold he

/-- `Send` waits at a closed window only with data to probe with. -/
theorem Outstanding.zero_move (hI : Outstanding c) (h : SenderMove c ev s)
    (hlbw : c.tcb.snd.lbw ≤ s.snd.lbw) (hz : s.pc = .zeroWait) : s.snd.nxt < s.snd.lbw := by
  cases h with
  | opened hs => exact absurd hs (not_or.mpr hI.opened)
  | jump hj =>
    cases hj with
    | zeroWait hw hdata => exact hdata
    | idle => exact hI.zero hz
    | _ => cases hz
  | segment => cases hz
  | zeroExit hpc hw hc hj hpc' =>
    rcases hpc' with rfl | rfl | rfl <;> cases hz
  | finSent hev heq =>
    have hlt := hI.zero hz
    simp [heq] at hlt
  | wrote =>
    have hlt := hI.zero hz
    simp only at hlbw ⊢
    bv_omega
  | _ => exact hI.zero hz

/-- An honest acknowledgement leaves SND.UNA behind what was sent. -/
theorem Outstanding.una_move (hI : Outstanding c) (h : SenderMove c ev s)
    (hack : c.acksOnlySent ev = true) (hnxt : c.tcb.snd.nxt ≤ s.snd.nxt) :
    s.snd.una ≤ s.snd.nxt ∨
      s.pc = .zeroWait ∧ s.cancelled = false ∧ s.snd.una ≤ s.snd.nxt + 1 := by
  have huna := hI.una
  cases h with
  | opened hs => exact absurd hs (not_or.mpr hI.opened)
  | jump hj hz =>
    rcases huna with hle | ⟨hpc, hc, hle⟩
    · exact Or.inl hle
    · rcases hz hpc with hc' | ⟨-, hpc'⟩
      · simp [hc] at hc'
      · exact Or.inr ⟨hpc', hc, hle⟩
  | segment hpc =>
    rcases huna with hle | ⟨hpc', -⟩
    · exact Or.inl (BitVec.le_trans hle hnxt)
    · simp [hpc] at hpc'
  | zeroExit hpc =>
    have hlt := hI.zero hpc
    refine Or.inl ?_
    simp only at hnxt ⊢
    rcases huna with hle | ⟨-, -, hle⟩ <;> bv_omega
  | acked htakes =>
    simp only [Conn.takesAck, Conn.passesToReceive, Bool.and_eq_true] at htakes
    simpa [Conn.acksOnlySent, htakes.1.1, or_assoc, and_assoc] using hack
  | finSent hev heq =>
    rcases huna with hle | ⟨hpc, -⟩
    · exact Or.inl (BitVec.le_trans hle hnxt)
    · have hlt := hI.zero hpc
      simp [heq] at hlt
  | _ => exact huna

/-- After `Receive` the state is the handler's, or CLOSE_WAIT when the remembered FIN is reached. -/
theorem Step.state_of_passes (h : Step c l c') (hev : l.ev = .segment seg)
    (hp : c.passesToReceive seg.hdr = true) : ∃ st, Receives c seg.hdr st ∧
      c'.tcb.state = if c.reachesFin seg then .closeWait else st := by
  obtain ⟨st, u, t, o₁, o₂, hr, hd, ha, rfl, -⟩ := (h.handled hev).of_passes hp
  refine ⟨st, hr, ?_⟩
  rw [ha.state_eq, hd.state_eq hp]

/-- FIN_WAIT_1 is entered by the FIN of `Close`, and left by a segment that acknowledges it. -/
theorem Step.finWait1 (h : Step c l c') (hst : c'.tcb.state = .finWait1) :
    (c.tcb.state = .finWait1 ∧ ∀ seg, l.ev = .segment seg → c.takesAck seg.hdr = true →
      seg.hdr.ackNum ≠ c.tcb.snd.nxt) ∨
    (l.ev = .close ∨ l.ev = .closeWake) ∧ c.tcb.snd.nxt = c.tcb.snd.lbw := by
  have hm := h.state
  generalize hev : l.ev = ev at hm
  rw [hst] at hm
  generalize hfw : ConnectionState.finWait1 = st at hm
  cases hm with
  | same =>
    refine Or.inl ⟨rfl, fun seg hseg htakes hnxt => ?_⟩
    simp only [Conn.takesAck, Bool.and_eq_true] at htakes
    obtain ⟨st, hr, hif⟩ := h.state_of_passes (hev.trans hseg) htakes.1
    rw [hst] at hif
    split at hif
    · cases hif
    · subst hif
      cases hr with
      | finWait1 _ hne => exact hne hnxt
  | finWait1Fin => split at hfw <;> cases hfw
  | finSent hcl heq => exact Or.inr ⟨hcl, heq⟩
  | _ => cases hfw

/-- In FIN_WAIT_1 the FIN is not acknowledged. -/
theorem Outstanding.fin_step (hI : Outstanding c) (hs : Step c l c')
    (hack : c.acksOnlySent l.ev = true) (hnxt : c.tcb.snd.nxt ≤ c'.tcb.snd.nxt)
    (hst : c'.tcb.state = .finWait1) :
    c'.tcb.cancelled = true ∧ c'.tcb.snd.una < c'.tcb.snd.nxt := by
  rcases hs.finWait1 hst with ⟨hfw, hne⟩ | ⟨hcl, heq⟩
  · obtain ⟨hc, hlt⟩ := hI.fin hfw
    have hm := hs.sender
    change c'.sender.cancelled = true ∧ c'.sender.snd.una < c'.sender.snd.nxt
    change c.tcb.snd.nxt ≤ c'.sender.snd.nxt at hnxt
    generalize c'.sender = s at hm hnxt
    generalize l.ev = ev at hm hack hne
    cases hm with
    | opened ho => exact absurd ho (not_or.mpr hI.opened)
    | segment _ _ hc' => simp [hc] at hc'
    | zeroExit _ _ hc' => simp [hc] at hc'
    | finSent =>
      refine ⟨rfl, ?_⟩
      simp only at hnxt ⊢
      bv_omega
    | acked htakes =>
      refine ⟨hc, BitVec.lt_of_le_ne ?_ (hne _ rfl htakes)⟩
      simp only [Conn.takesAck, Conn.passesToReceive, Bool.and_eq_true] at htakes
      simpa [Conn.acksOnlySent, htakes.1.1, hc] using hack
    | _ => exact ⟨hc, hlt⟩
  · obtain ⟨hc, hsnd⟩ := hs.snd_of_close hcl heq
    rw [hsnd] at hnxt ⊢
    refine ⟨hc, ?_⟩
    rcases hI.una with hle | ⟨hpc, -⟩
    · simp only at hnxt ⊢
      bv_omega
    · have hlt := hI.zero hpc
      simp [heq] at hlt

theorem Outstanding.step (hI : Outstanding c) (hs : Step c l c') (hack : c.acksOnlySent l.ev = true)
    (hord : KeepsOrder ⟨c, l, c'⟩) : Outstanding c' where
  opened := hs.not_opening hI.opened
  queue := hI.queue_move hs.sender (fun _ => hs.queued_at_nxt) hord.2
  zero := hI.zero_move hs.sender hord.1
  una := hI.una_move hs.sender hack hord.2
  fin := hI.fin_step hs hack hord.2

/-- The FIN's acknowledgement is refused by `Receive` exactly when it is a third duplicate or
outside the window. -/
theorem takesAck_of_finAck (hst : c.tcb.state = .finWait1) (hack : seg.hdr.hasAck = true)
    (ha : seg.hdr.ackNum = c.tcb.snd.nxt) (hr : c.reachesFin seg = false)
    (hlt : c.tcb.snd.una < c.tcb.snd.nxt) :
    c.takesAck seg.hdr = !c.finAckRefused (.segment seg) := by
  have hp : c.passesToReceive seg.hdr = true := by simp [Conn.passesToReceive, hst, hack, ha]
  have hdrop : c.tcb.ackDropped seg.hdr = decide (seg.hdr.windowSize ≠ 0 ∧ c.tcb.snd.wnd ≠ 0 ∧
      c.tcb.snd.una + c.tcb.snd.wnd < c.tcb.snd.nxt) := by
    have hnot : ¬ c.tcb.snd.nxt ≤ c.tcb.snd.una := by bv_omega
    by_cases hw : seg.hdr.windowSize = 0
    · simp [TCB.ackDropped, hw, ha, hnot]
    · simp [TCB.ackDropped, ha, hnot, and_comm]
  simp [Conn.takesAck, hp, TCB.acceptsAck, hdrop, Conn.finAckRefused, hst, hack, ha, hr,
    Bool.or_assoc]

/-- FIN_WAIT_2 is entered from FIN_WAIT_1 by an acknowledgement of everything sent. -/
theorem Step.finWait2 (h : Step c l c') (hst : c.tcb.state = .finWait1)
    (hst' : c'.tcb.state = .finWait2) :
    ∃ seg, l.ev = .segment seg ∧ seg.hdr.hasAck = true ∧ seg.hdr.ackNum = c.tcb.snd.nxt ∧
      c.reachesFin seg = false := by
  have hm := h.state
  generalize c'.tcb.state = st at hm hst'
  generalize l.ev = ev at hm
  cases hm with
  | same => simp [hst] at hst'
  | finAcked hs hack ha hr => exact ⟨_, rfl, hack, ha, hr⟩
  | finWait1Fin => split at hst' <;> cases hst'
  | finSent => split at hst' <;> cases hst'
  | _ => cases hst'

/-- An acknowledgement of everything sent empties the queue, or is not taken. -/
theorem Outstanding.clean_iff (hI : Outstanding c) (h : SenderMove c (.segment seg) s)
    (hst : c.tcb.state = .finWait1) (ha : seg.hdr.ackNum = c.tcb.snd.nxt) :
    (s.queue = [] ∧ s.snd.una = s.snd.nxt) ↔ c.takesAck seg.hdr = true := by
  have hne : c.tcb.snd.una ≠ c.tcb.snd.nxt := by
    have hlt := (hI.fin hst).2
    bv_omega
  cases h with
  | opened ho => exact absurd ho (not_or.mpr hI.opened)
  | same _ hseg => simp [hseg seg rfl, hne]
  | loss _ hseg => simp [hseg seg rfl, hne]
  | acked htakes =>
    have hempty : (c.tcb.retransmissionQueue.dropWhile fun r =>
        r.tcpHeader.seqNum < seg.hdr.ackNum) = [] := by
      rw [List.dropWhile_eq_nil_iff, ha]
      exact fun e he => decide_eq_true (hI.queue e he)
    exact iff_of_true ⟨hempty, ha⟩ htakes
  | finSent hev => simp at hev
  | lastAcked hs => simp [hst] at hs

theorem Step.finWait2_of_finAckRefused (h : Step c l c') (href : c.finAckRefused l.ev = true) :
    c.tcb.state = .finWait1 ∧ c'.tcb.state = .finWait2 := by
  cases hev : l.ev with
  | segment seg =>
    simp only [hev, Conn.finAckRefused, Bool.and_eq_true, decide_eq_true_eq,
      Bool.not_eq_true'] at href
    obtain ⟨⟨⟨⟨hst, hack⟩, ha⟩, hr⟩, -⟩ := href
    have hp : c.passesToReceive seg.hdr = true := by simp [Conn.passesToReceive, hst, hack, ha]
    obtain ⟨st, hrec, hif⟩ := h.state_of_passes hev hp
    simp only [hr, Bool.false_eq_true, if_false] at hif
    cases hrec with
    | finAcked => exact ⟨hst, hif⟩
    | finWait1 _ hne => exact absurd ha hne
    | established hs => simp [hst] at hs
    | finWait2 hs => simp [hst] at hs
  | _ => simp [hev, Conn.finAckRefused] at href

/-- A step enters FIN_WAIT_2 clean exactly when `Receive` does not refuse the acknowledgement. -/
theorem Outstanding.entersFinWait2Clean_iff (hI : Outstanding c) (hs : Step c l c') :
    EntersFinWait2Clean ⟨c, l, c'⟩ ↔ c.finAckRefused l.ev = false := by
  by_cases henters : c.tcb.state = .finWait1 ∧ c'.tcb.state = .finWait2
  · obtain ⟨hst, hst'⟩ := henters
    obtain ⟨seg, hev, hack, ha, hr⟩ := hs.finWait2 hst hst'
    have hm := hs.sender
    rw [hev] at hm ⊢
    have hclean := hI.clean_iff hm hst ha
    rw [takesAck_of_finAck hst hack ha hr (hI.fin hst).2] at hclean
    simpa [EntersFinWait2Clean, hst, hst'] using hclean
  · have hvac : EntersFinWait2Clean ⟨c, l, c'⟩ := fun hst hst' => absurd ⟨hst, hst'⟩ henters
    exact iff_of_true hvac
      (Bool.eq_false_of_not_eq_true (mt hs.finWait2_of_finAckRefused henters))

end Outstanding

section FinWait2

variable {c c' : Conn} {tr : List (Move Conn Label)}

/-- With a peer that acknowledges only what was sent, FIN_WAIT_2 is entered with nothing left to
retransmit exactly as long as `Receive` takes the acknowledgement of the FIN. -/
theorem finWait2_clean_iff (h0 : Established c) (huna : c.tcb.snd.una ≤ c.tcb.snd.nxt)
    (h : Run Step c tr c') (hord : ∀ x ∈ tr, KeepsOrder x)
    (hack : ∀ x ∈ tr, x.src.acksOnlySent x.ev.ev = true) :
    (∀ x ∈ tr, EntersFinWait2Clean x) ↔ ∀ x ∈ tr, x.src.finAckRefused x.ev.ev = false := by
  refine h.forall_iff (I := Outstanding)
    (H := fun x => KeepsOrder x ∧ x.src.acksOnlySent x.ev.ev = true)
    (h0.outstanding huna) (fun x hx => ⟨hord x hx, hack x hx⟩) ?_ ?_
  · rintro t l u hI hs ⟨hx, ha⟩ -
    exact hI.step hs ha hx
  · rintro t l u hI hs -
    exact hI.entersFinWait2Clean_iff hs

/-- One byte sent and everything closed, then acknowledged: nothing is left. -/
theorem finWait2_clean_iff_one_byte :
    let tr := ((Conn.fresh 100 100 500).play [.write [1], .send, .send, .send, .close,
      .segment (Segment.fromPeer 500 102 16 1000 [] Segment.nil_le)]).1
    ((∀ x ∈ tr, EntersFinWait2Clean x) ↔ ∀ x ∈ tr, x.src.finAckRefused x.ev.ev = false) ∧
      tr.length = 6 ∧ (∀ x ∈ tr, x.src.finAckRefused x.ev.ev = false) ∧
      ∃ x ∈ tr, x.src.tcb.state = .finWait1 ∧ x.dst.tcb.state = .finWait2 :=
  ⟨finWait2_clean_iff (established_fresh (Or.inl rfl)) (by decide) (Conn.play_run _ _) (by decide)
    (by decide), by decide, by decide, by decide⟩

/-- The peer offers a window of three bytes and gets three: the acknowledgement of these and the
FIN is outside the window, so the state moves on with everything still queued. -/
theorem finWait2_full_window :
    ¬ ∀ (c c' : Conn) (tr : List (Move Conn Label)), Established c →
      c.tcb.snd.una ≤ c.tcb.snd.nxt → Run Step c tr c' → (∀ x ∈ tr, KeepsOrder x) →
      (∀ x ∈ tr, x.src.acksOnlySent x.ev.ev = true) → ∀ x ∈ tr, EntersFinWait2Clean x := by
  intro h
  have hrun := Conn.play_run (Conn.fresh 100 100 500)
    [.write [1], .send, .send, .segment (Segment.fromPeer 500 101 16 3 [] Segment.nil_le), .send,
      .write [2, 3, 4], .send, .send, .close,
      .segment (Segment.fromPeer 500 105 16 3 [] Segment.nil_le)]
  have hclean := h _ _ _ (established_fresh (Or.inl rfl)) (by decide) hrun (by decide) (by decide)
  revert hclean
  decide

end FinWait2

end TcpIp
