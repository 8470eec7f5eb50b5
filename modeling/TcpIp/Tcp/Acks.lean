import TcpIp.Tcp.Emissions
import TcpIp.Tcp.Established

/-! The acknowledgement numbers an endpoint sends over a whole run. -/
namespace TcpIp

open Runs

/-- The step accepts the peer's FIN: it counts it in RCV.NXT or goes to CLOSE_WAIT. -/
def Conn.acceptsFin (c : Conn) : Event → Bool
  | .segment seg =>
    c.countsFin (.segment seg) || c.reachesFin seg ||
      c.tcb.state = .established && seg.hdr.hasFin && seg.hdr.seqNum = c.tcb.rcv.nxt
  | _ => false

/-- A FIN from below RCV.NXT arrives in ESTABLISHED. -/
def Conn.oldFin (c : Conn) : Event → Bool
  | .segment seg =>
    c.tcb.state = .established && seg.hdr.hasFin && seg.hdr.seqNum < c.tcb.rcv.nxt
  | _ => false

/-- The step builds a segment, other than the FIN that `Close` sends in CLOSE_WAIT. -/
def Conn.speaks (c : Conn) : Event → Bool
  | .segment seg =>
    c.passesToReceive seg.hdr && 0 < seg.payload.length || c.countsFin (.segment seg) ||
      (c.tcb.state = .established || c.tcb.state = .timeWait || c.tcb.state = .closeWait) &&
        seg.hdr.hasFin
  | .send =>
    !c.tcb.cancelled &&
      match c.send with
      | .transmit amountToSend amountSent => amountSent < amountToSend
      | _ => false
  | .probe => !c.tcb.cancelled && c.send = .zeroWait
  | .close | .closeWake => c.tcb.snd.nxt = c.tcb.snd.lbw && c.tcb.state ≠ .closeWait
  | _ => false

section History

variable (tr : List (Move Conn Label))

/-- How many FINs stand in RCV.NXT. -/
def finsCounted : ℕ := tr.countP fun x => x.src.countsFin x.ev.ev

def finAccepted : Bool := tr.any fun x => x.src.acceptsFin x.ev.ev

def FinReceived : Prop := ∃ x ∈ tr, ∃ seg, x.ev.ev = .segment seg ∧ seg.hdr.hasFin = true

/-- The end of the contiguous data received, and one more once the peer's FIN is accepted. -/
def dueAck (c : Conn) : ℕ :=
  c.tcb.rcv.nxt.toNat - finsCounted tr + if finAccepted tr then 1 else 0

/-- The acknowledgement numbers of the freshly built segments, in order. -/
def freshAcks : List ℕ :=
  tr.flatMap fun x =>
    (x.ev.out.msgs.filter fun m => m.origin ≠ .resend).map fun m => m.hdr.ackNum.toNat

end History

/-- Every freshly built segment acknowledges what is due. -/
def AcksDue (pre : List (Move Conn Label)) (x : Move Conn Label) : Prop :=
  ∀ m ∈ x.ev.out.msgs, m.origin ≠ .resend → m.hdr.ackNum.toNat = dueAck (pre ++ [x]) x.dst

/-- No FIN comes late in ESTABLISHED; after CLOSE_WAIT was entered no segment is built but the
FIN of `Close`; after a FIN was counted no other is accepted. -/
def KeepsAcks (pre : List (Move Conn Label)) (x : Move Conn Label) : Prop :=
  x.src.oldFin x.ev.ev = false ∧
    (finAccepted pre = true → finsCounted pre = 0 → x.src.speaks x.ev.ev = false) ∧
    (0 < finsCounted pre → x.src.acceptsFin x.ev.ev = false)

instance (pre : List (Move Conn Label)) (x : Move Conn Label) : Decidable (KeepsAcks pre x) :=
  inferInstanceAs (Decidable (_ ∧ (_ → _ → _) ∧ (_ → _)))

/-- RCV.NXT goes on without crossing the last sequence number. -/
def AdvancesNxt (x : Move Conn Label) : Prop :=
  x.src.tcb.rcv.nxt ≤ x.dst.tcb.rcv.nxt ∧ x.dst.tcb.rcv.nxt.toNat + 1 < 2 ^ 32

instance (x : Move Conn Label) : Decidable (AdvancesNxt x) :=
  inferInstanceAs (Decidable (_ ∧ _))

/-- What a run with right acknowledgements leaves behind. -/
structure Acking (tr : List (Move Conn Label)) (c : Conn) : Prop where
  opened : c.tcb.state ≠ .synSent ∧ c.tcb.state ≠ .synReceived
  once : finsCounted tr ≤ 1
  accepted : finAccepted tr = false → finsCounted tr = 0
  closeWait : c.tcb.state = .closeWait → finAccepted tr = true ∧ finsCounted tr = 0
  counted : finsCounted tr ≤ c.tcb.rcv.nxt.toNat
  nxt : c.tcb.rcv.nxt ≠ 0
  pending : c.tcb.pendingReceivedFin = 0 ∨ FinReceived tr
  received : finAccepted tr = true → FinReceived tr

section Acks

variable {c c' : Conn} {l : Label} {seg : Segment} {m : Msg} {tr : List (Move Conn Label)}
  {x : Move Conn Label}

@[simp] theorem finsCounted_snoc :
    finsCounted (tr ++ [x]) = finsCounted tr + if x.src.countsFin x.ev.ev then 1 else 0 := by
  simp [finsCounted, List.countP_append, List.countP_cons]

@[simp] theorem finAccepted_snoc :
    finAccepted (tr ++ [x]) = (finAccepted tr || x.src.acceptsFin x.ev.ev) := by
  simp [finAccepted]

theorem FinReceived.mono (h : FinReceived tr) : FinReceived (tr ++ [x]) := by
  obtain ⟨y, hy, h⟩ := h
  exact ⟨y, List.mem_append_left _ hy, h⟩

theorem acceptsFin_of_countsFin {ev : Event} (h : c.countsFin ev = true) :
    c.acceptsFin ev = true := by
  cases ev with
  | segment seg => simp [Conn.acceptsFin, h]
  | _ => simp [Conn.countsFin] at h

/-- Only data that is taken, and a FIN that is counted, move RCV.NXT. -/
theorem Step.nxt_eq (h : Step c l c') (hopen : c.tcb.state ≠ .synSent)
    (hseg : ∀ seg, l.ev = .segment seg → c.passesToReceive seg.hdr = false)
    (hfin : c.countsFin l.ev = false) : c'.tcb.rcv.nxt = c.tcb.rcv.nxt := by
  have hm := h.receiver
  rw [← Conn.receiver_rcv c']
  generalize l.ev = ev at hm hseg hfin
  generalize c'.receiver = r at hm
  generalize l.out.read = o at hm
  cases hm with
  | same => rfl
  | opened hs => exact absurd hs hopen
  | inOrder hp | early hp => simp [hseg _ rfl] at hp
  | finCounted h => simp [h] at hfin
  | read _ he =>
    obtain ⟨n, -, rfl, -⟩ := he.consumed
    rfl

/-- A FIN that is accepted, or was remembered, has been received. -/
theorem Acking.finReceived (hI : Acking tr c) (hs : Step c l c')
    (hadv : AdvancesNxt ⟨c, l, c'⟩) (hacc : c.acceptsFin l.ev = true) :
    FinReceived (tr ++ [⟨c, l, c'⟩]) := by
  have hnow : ∀ seg, l.ev = .segment seg → seg.hdr.hasFin = true →
      FinReceived (tr ++ [⟨c, l, c'⟩]) := fun seg hev hf =>
    ⟨_, List.mem_append_right _ (List.mem_singleton_self _), seg, hev, hf⟩
  cases hev : l.ev with
  | segment seg =>
    rw [hev] at hacc
    simp only [Conn.acceptsFin, Conn.countsFin, Bool.or_eq_true, Bool.and_eq_true] at hacc
    rcases hacc with (⟨hf, -⟩ | hr) | ⟨⟨-, hf⟩, -⟩
    · exact hnow seg hev hf
    · -- RCV.NXT has come to the remembered number, which is therefore not the initial zero
      have hnxt := hs.nxt_of_reachesFin hev hr
      rcases hI.pending with hzero | hrec
      · have hle := hadv.1
        have hne := hI.nxt
        simp only [hnxt, hzero] at hle
        exact absurd (by bv_omega) hne
      · exact hrec.mono
    · exact hnow seg hev hf
  | _ => simp [hev, Conn.acceptsFin] at hacc

theorem Step.closeWait_of_not_acceptsFin (h : Step c l c') (hst : c'.tcb.state = .closeWait)
    (hacc : c.acceptsFin l.ev = false) : c.tcb.state = .closeWait := by
  have hm := h.state
  generalize l.ev = ev at hm hacc
  generalize c'.tcb.state = st at hm hst
  cases hm with
  | same => exact hst
  | pendingFin _ hr => simp [Conn.acceptsFin, hr] at hacc
  | fin hs hf hseq => simp [Conn.acceptsFin, hs, hf, hseq] at hacc
  | finWait1Fin | finSent => split at hst <;> cases hst
  | _ => cases hst

/-- A FIN that is counted does not lead to CLOSE_WAIT. -/
theorem Step.countsFin_of_closeWait (h : Step c l c') (hst : c'.tcb.state = .closeWait) :
    c.countsFin l.ev = false := by
  have hm := h.state
  generalize l.ev = ev at hm
  generalize c'.tcb.state = st at hm hst
  cases hm with
  | same => cases ev <;> simp [Conn.countsFin, hst]
  | pendingFin hr h =>
    refine countsFin_of_passes ?_
    by_contra hno
    simp [reachesFin_of_not_passes (Bool.eq_false_of_not_eq_true hno)] at h
  | fin hs => simp [Conn.countsFin, hs]
  | finWait1Fin | finSent => split at hst <;> cases hst
  | _ => cases hst

/-- One step that keeps the acknowledgements right. -/
theorem Acking.step (hI : Acking tr c) (hs : Step c l c') (hadv : AdvancesNxt ⟨c, l, c'⟩)
    (hok : KeepsAcks tr ⟨c, l, c'⟩) : Acking (tr ++ [⟨c, l, c'⟩]) c' := by
  obtain ⟨-, hpassive, hsecond⟩ := hok
  obtain ⟨hle, hmax⟩ := hadv
  simp only at hpassive hsecond hle hmax
  have hadv' : AdvancesNxt ⟨c, l, c'⟩ := ⟨hle, hmax⟩
  rw [BitVec.le_def] at hle
  have hcounts := hI.counted
  -- a FIN is counted only where none was accepted before
  have hfirst : c.countsFin l.ev = true → finsCounted tr = 0 := by
    intro hc
    by_contra hne
    simpa [acceptsFin_of_countsFin hc] using hsecond (Nat.pos_of_ne_zero hne)
  refine ⟨hs.not_opening hI.opened, ?_, ?_, fun hst => ?_, ?_, ?_, ?_, ?_⟩
  · rw [finsCounted_snoc]
    split
    · rename_i hc
      have := hfirst hc
      omega
    · exact hI.once
  · rw [finAccepted_snoc, finsCounted_snoc, Bool.or_eq_false_iff]
    rintro ⟨hacc, hno⟩
    have hcf : c.countsFin l.ev = false := by
      by_contra hyes
      simp [acceptsFin_of_countsFin (Bool.eq_true_of_not_eq_false hyes)] at hno
    simp [hI.accepted hacc, hcf]
  · have hcf := hs.countsFin_of_closeWait hst
    rw [finAccepted_snoc, finsCounted_snoc, hcf]
    by_cases hacc : c.acceptsFin l.ev = true
    · refine ⟨by simp [hacc], ?_⟩
      by_contra hne
      simpa [hacc] using hsecond (by simpa [Nat.pos_iff_ne_zero] using hne)
    · have hno := Bool.eq_false_of_not_eq_true hacc
      simpa [hno] using hI.closeWait (hs.closeWait_of_not_acceptsFin hst hno)
  · rw [finsCounted_snoc]
    split
    · rename_i hc
      have hnxt := hs.rcv_of_countsFin hc
      have := hfirst hc
      rw [hnxt] at hle ⊢
      simp only at hle ⊢
      bv_omega
    · omega
  · intro hzero
    have := hI.nxt
    rw [hzero] at hle
    exact absurd (by bv_omega) this
  · rcases hs.pendingReceivedFin with heq | ⟨seg, hev, hf, -⟩
    · rw [heq]
      exact hI.pending.imp id FinReceived.mono
    · exact Or.inr ⟨_, List.mem_append_right _ (List.mem_singleton_self _), seg, hev, hf⟩
  · rw [finAccepted_snoc, Bool.or_eq_true]
    rintro (hacc | hacc)
    · exact (hI.received hacc).mono
    · exact hI.finReceived hs hadv' hacc

/-- What is due after a step that builds a segment. -/
theorem Acking.due (hI : Acking tr c) (hadv : AdvancesNxt ⟨c, l, c'⟩)
    (hok : KeepsAcks tr ⟨c, l, c'⟩) (hspeak : c.speaks l.ev = true) :
    dueAck (tr ++ [⟨c, l, c'⟩]) c' =
      c'.tcb.rcv.nxt.toNat + if c.acceptsFin l.ev ∧ c.countsFin l.ev = false then 1 else 0 := by
  obtain ⟨-, hpassive, hsecond⟩ := hok
  have hone : 1 ≤ c'.tcb.rcv.nxt.toNat := by
    have hle := hadv.1
    have hne := hI.nxt
    simp only [BitVec.le_def] at hle
    by_contra hlt
    exact hne (by bv_omega)
  simp only at hpassive hsecond
  rw [dueAck, finsCounted_snoc, finAccepted_snoc]
  have honce := hI.once
  by_cases hacc : finAccepted tr = true
  · -- the FIN accepted before was counted, and this step accepts none
    have hk : finsCounted tr = 1 := by
      by_contra hne
      have hzero : finsCounted tr = 0 := by omega
      simp [hpassive hacc hzero] at hspeak
    have hno := hsecond (by omega)
    have hcf : c.countsFin l.ev = false := by
      by_contra hyes
      simp [acceptsFin_of_countsFin (Bool.eq_true_of_not_eq_false hyes)] at hno
    simp [hacc, hk, hno, hcf]
    omega
  · have hacc' := Bool.eq_false_of_not_eq_true hacc
    simp only [hacc', hI.accepted hacc', Bool.false_or, Nat.zero_add]
    by_cases hcf : c.countsFin l.ev = true
    · simp [hcf, acceptsFin_of_countsFin hcf]
      omega
    · simp [Bool.eq_false_of_not_eq_true hcf]

theorem acceptsFin_of_passes (h : c.passesToReceive seg.hdr = true) :
    c.acceptsFin (.segment seg) = c.reachesFin seg := by
  have hno : (c.tcb.state = .established && seg.hdr.hasFin) = false := by
    by_contra hyes
    simp only [Bool.not_eq_false, Bool.and_eq_true, decide_eq_true_eq] at hyes
    simp [Conn.passesToReceive, hyes.1, hyes.2] at h
  simp [Conn.acceptsFin, countsFin_of_passes h, hno]

/-- The FIN of `Close` in CLOSE_WAIT acknowledges the peer's. -/
theorem Acking.due_closeWait (hI : Acking tr c) (hst : c.tcb.state = .closeWait)
    (hev : l.ev = .close ∨ l.ev = .closeWake) :
    dueAck (tr ++ [⟨c, l, c'⟩]) c' = c'.tcb.rcv.nxt.toNat + 1 := by
  obtain ⟨hacc, hk⟩ := hI.closeWait hst
  have hcf : c.countsFin l.ev = false := by
    rcases hev with hev | hev <;> simp [hev, Conn.countsFin]
  rw [dueAck, finsCounted_snoc, finAccepted_snoc]
  simp [hacc, hk, hcf]

theorem Acking.acksDue (hI : Acking tr c) (hs : Step c l c') (hadv : AdvancesNxt ⟨c, l, c'⟩)
    (hok : KeepsAcks tr ⟨c, l, c'⟩) : AcksDue tr ⟨c, l, c'⟩ := by
  intro m hm horigin
  have hmax : c'.tcb.rcv.nxt.toNat + 1 < 2 ^ 32 := hadv.2
  have hsucc : (c'.tcb.rcv.nxt + 1).toNat = c'.tcb.rcv.nxt.toNat + 1 := by bv_omega
  have hdue := hI.due hadv hok
  have hnxt := hs.nxt_eq hI.opened.1
  have hold := hok.1
  have he := hs.emits hm
  simp only at hold ⊢
  generalize hev : l.ev = ev at he hdue hnxt hold
  cases he with
  | resent => exact absurd rfl horigin
  | handshakeResent _ hm' => rcases hm' with rfl | rfl <;> exact absurd rfl horigin
  | opening hs' => exact absurd hs' (not_or.mpr hI.opened)
  | acked hp hpos =>
    rw [hdue (by simp [Conn.speaks, hp, hpos]), acceptsFin_of_passes hp, countsFin_of_passes hp]
    simp only [TCB.ackMsg, createTCPHeader_ackNum, and_true]
    split
    · exact hsucc
    · rfl
  | @fin seg hs' hf =>
    have hpass : c.passesToReceive seg.hdr = false := by simp [Conn.passesToReceive, hs', hf]
    have hcf : c.countsFin (.segment seg) = false := by simp [Conn.countsFin, hs']
    have heq : c'.tcb.rcv.nxt = c.tcb.rcv.nxt := hnxt (by simp [hpass]) hcf
    have hacc : c.acceptsFin (.segment seg) = true ↔ seg.hdr.seqNum = c.tcb.rcv.nxt := by
      simp [Conn.acceptsFin, hcf, reachesFin_of_not_passes hpass, hs', hf]
    rw [hdue (by simp [Conn.speaks, hs', hf])]
    simp only [TCB.ackMsg, createTCPHeader_ackNum, hacc, hcf, and_true, ← heq] at hacc ⊢
    split
    · exact hsucc
    · rename_i hne
      have hge : seg.hdr.seqNum > c'.tcb.rcv.nxt := by
        have hnot : ¬ seg.hdr.seqNum < c'.tcb.rcv.nxt := by
          simpa [Conn.oldFin, hs', hf, heq] using hold
        bv_omega
      rw [if_pos hge]
      rfl
  | finCounted h =>
    rw [hdue (by simp [Conn.speaks, h])]
    simp [TCB.ackMsg, h]
  | @finRepeated seg hs' hf =>
    have hpass : c.passesToReceive seg.hdr = false := by
      rcases hs' with hs' | hs' <;> simp [Conn.passesToReceive, hs']
    have hacc : c.acceptsFin (.segment seg) = false := by
      rcases hs' with hs' | hs' <;>
        simp [Conn.acceptsFin, Conn.countsFin, reachesFin_of_not_passes hpass, hs']
    have heq : c'.tcb.rcv.nxt = c.tcb.rcv.nxt :=
      hnxt (by simp [hpass]) (by rcases hs' with hs' | hs' <;> simp [Conn.countsFin, hs'])
    rw [hdue (by rcases hs' with hs' | hs' <;> simp [Conn.speaks, hs', hf])]
    simp [TCB.ackMsg, hacc, heq]
  | data hpc hlt hc =>
    rw [hdue (by simpa [Conn.speaks, hc, hpc] using hlt), hnxt (by simp) rfl]
    simp [TCB.freshMsg, TCB.dataMsg, Conn.acceptsFin]
  | probe hz hc =>
    rw [hdue (by simp [Conn.speaks, hc, hz]), hnxt (by simp) rfl]
    simp [TCB.dataMsg, Conn.acceptsFin]
  | closed hev' heq =>
    have hnxt' : c'.tcb.rcv.nxt = c.tcb.rcv.nxt := by
      rcases hev' with rfl | rfl <;> exact hnxt (by simp) rfl
    by_cases hst : c.tcb.state = .closeWait
    · rw [hI.due_closeWait hst (hev ▸ hev')]
      simp only [Conn.finMsg, createTCPHeader_ackNum, if_pos hst, ← hnxt']
      exact hsucc
    · rw [hdue (by rcases hev' with rfl | rfl <;> simp [Conn.speaks, heq, hst])]
      simp only [Conn.finMsg, createTCPHeader_ackNum, if_neg hst, ← hnxt']
      rcases hev' with rfl | rfl <;> simp [Conn.acceptsFin]

theorem Acking.due_mono (hI : Acking tr c) (hs : Step c l c') (hadv : AdvancesNxt ⟨c, l, c'⟩) :
    dueAck tr c ≤ dueAck (tr ++ [⟨c, l, c'⟩]) c' := by
  have hle : c.tcb.rcv.nxt.toNat ≤ c'.tcb.rcv.nxt.toNat := hadv.1
  have hcounts := hI.counted
  have hdata : c.tcb.rcv.nxt.toNat - finsCounted tr ≤
      c'.tcb.rcv.nxt.toNat - finsCounted (tr ++ [⟨c, l, c'⟩]) := by
    rw [finsCounted_snoc]
    split
    · rename_i hcf
      have hnxt : c'.tcb.rcv.nxt = c.tcb.rcv.nxt + 1 := by rw [hs.rcv_of_countsFin hcf]
      have hmax : c'.tcb.rcv.nxt.toNat + 1 < 2 ^ 32 := hadv.2
      bv_omega
    · omega
  have hone : (if finAccepted tr then 1 else 0) ≤
      if finAccepted (tr ++ [⟨c, l, c'⟩]) then 1 else 0 := by
    rw [finAccepted_snoc]
    cases finAccepted tr <;> simp
  unfold dueAck
  omega

theorem Established.acking (h : Established c) (hnxt : c.tcb.rcv.nxt ≠ 0) : Acking [] c where
  opened := by simp [h.state]
  once := by simp [finsCounted]
  accepted := by simp [finsCounted]
  closeWait := by simp [h.state]
  counted := by simp [finsCounted]
  nxt := hnxt
  pending := Or.inl h.pendingReceivedFin
  received := by simp [finAccepted]

/-- The acknowledgements of a run so far are in order and not past what is due. -/
theorem Acking.freshAcks_snoc (hdue : AcksDue tr x) (hmono : dueAck tr x.src ≤ dueAck (tr ++ [x]) x.dst)
    (h : (freshAcks tr).Pairwise (· ≤ ·) ∧ ∀ a ∈ freshAcks tr, a ≤ dueAck tr x.src) :
    (freshAcks (tr ++ [x])).Pairwise (· ≤ ·) ∧
      ∀ a ∈ freshAcks (tr ++ [x]), a ≤ dueAck (tr ++ [x]) x.dst := by
  have hnew : ∀ a ∈ freshAcks [x], a = dueAck (tr ++ [x]) x.dst := by
    intro a ha
    simp only [freshAcks, List.flatMap_cons, List.flatMap_nil, List.append_nil, List.mem_map,
      List.mem_filter, decide_eq_true_eq] at ha
    obtain ⟨m, ⟨hm, horigin⟩, rfl⟩ := ha
    exact hdue m hm horigin
  have hsplit : freshAcks (tr ++ [x]) = freshAcks tr ++ freshAcks [x] := by
    simp [freshAcks]
  obtain ⟨hpair, hle⟩ := h
  rw [hsplit, List.pairwise_append]
  refine ⟨⟨hpair, ?_, fun a ha b hb => ?_⟩, fun a ha => ?_⟩
  · refine List.pairwise_of_forall_mem_list fun a ha b hb => ?_
    rw [hnew a ha, hnew b hb]
  · rw [hnew b hb]
    exact (hle a ha).trans hmono
  · rcases List.mem_append.mp ha with ha | ha
    · exact (hle a ha).trans hmono
    · exact Nat.le_of_eq (hnew a ha)

/-- From ESTABLISHED on, every freshly built segment acknowledges exactly the data received,
and the FIN once it was accepted, and so these numbers never decrease, in every run that keeps
to `KeepsAcks`. -/
theorem freshAcks_due (h0 : Established c) (hnxt : c.tcb.rcv.nxt ≠ 0) (h : Run Step c tr c')
    (hadv : ∀ x ∈ tr, AdvancesNxt x) (hok : Along KeepsAcks tr) :
    Along AcksDue tr ∧ (freshAcks tr).Pairwise (· ≤ ·) ∧
      (finAccepted tr = true → FinReceived tr) := by
  have hC : Along (fun pre x => AdvancesNxt x ∧ KeepsAcks pre x) tr := fun pre x post htr =>
    ⟨hadv x (by simp [htr]), hok pre x post htr⟩
  have hI := h.inv (I := fun tr c => Acking tr c ∧
      ((freshAcks tr).Pairwise (· ≤ ·) ∧ ∀ a ∈ freshAcks tr, a ≤ dueAck tr c))
    ⟨h0.acking hnxt, by simp [freshAcks]⟩ hC ?_
  · refine ⟨fun pre x post htr => ?_, hI.2.1, hI.1.received⟩
    obtain ⟨hpre, hstep⟩ := h.pre htr
    have hx := hC pre x post htr
    have hIpre : Acking pre x.src := by
      refine hpre.inv (I := Acking) (C := fun pre x => AdvancesNxt x ∧ KeepsAcks pre x)
        (h0.acking hnxt) (htr ▸ hC).left
        fun tr t l u ht hs hc => ht.step hs hc.1 hc.2
    exact hIpre.acksDue hstep hx.1 hx.2
  · rintro tr t l u ⟨ht, hacks⟩ hs ⟨hadv, hkeep⟩
    exact ⟨ht.step hs hadv hkeep,
      Acking.freshAcks_snoc (ht.acksDue hs hadv hkeep) (ht.due_mono hs hadv) hacks⟩

theorem freshAcks_due_passive_close :
    let c := Conn.fresh 100 100 500
    let tr := (c.play [.segment (Segment.fromPeer 500 100 16 1000 [1, 2] (by simp)),
      .segment (Segment.fromPeer 502 100 17 1000 [] (by simp)), .close]).1
    freshAcks tr = [502, 503, 503] ∧ Along AcksDue tr ∧ (freshAcks tr).Pairwise (· ≤ ·) ∧
      (finAccepted tr = true → FinReceived tr) :=
  ⟨by decide, freshAcks_due (established_fresh (Or.inl rfl)) (by decide) (Conn.play_run _ _)
    (by decide) (along_of_forall_fin (by decide))⟩

/-- The FIN accepted in ESTABLISHED is acknowledged by 501, its repetition in CLOSE_WAIT by 500. -/
theorem freshAcks_decrease_on_repeated_fin :
    ¬ ∀ (c c' : Conn) (tr : List (Move Conn Label)), Established c → c.tcb.rcv.nxt ≠ 0 →
      Run Step c tr c' → (∀ x ∈ tr, AdvancesNxt x) →
      Along AcksDue tr ∧ (freshAcks tr).Pairwise (· ≤ ·) := by
  intro h
  have hrun := Conn.play_run (Conn.fresh 100 100 500)
    [.segment (Segment.fromPeer 500 100 17 1000 [] (by simp)),
      .segment (Segment.fromPeer 500 100 17 1000 [] (by simp))]
  have hpair := (h _ _ _ (established_fresh (Or.inl rfl)) (by decide) hrun (by decide)).2
  exact absurd hpair (by decide)

end Acks

end TcpIp
