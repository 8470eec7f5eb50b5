import TcpIp.Tcp.States
import TcpIp.Tcp.Established
import TcpIp.Tcp.Receiver

/-! What has happened before a connection enters TIME_WAIT. -/
namespace TcpIp

open Runs

/-- A segment acknowledged everything up to the present SND.NXT after `Close` had sent its FIN. -/
def FinAcked (tr : List (Move Conn Label)) (c : Conn) : Prop :=
  ∃ y ∈ tr, ∃ seg, y.ev.ev = .segment seg ∧ seg.hdr.hasAck = true ∧
    y.src.tcb.cancelled = true ∧ seg.hdr.ackNum = y.src.tcb.snd.nxt ∧
    y.src.tcb.snd.nxt = c.tcb.snd.nxt

/-- A FIN was consumed at its place in the sequence. -/
def FinConsumed (tr : List (Move Conn Label)) : Prop :=
  ∃ y ∈ tr, ∃ seg, y.ev.ev = .segment seg ∧ seg.hdr.hasFin = true ∧
    seg.hdr.seqNum = y.src.tcb.rcv.nxt ∧ y.dst.tcb.rcv.nxt = y.src.tcb.rcv.nxt + 1

def EntersTimeWait (x : Move Conn Label) : Prop :=
  x.src.tcb.state ≠ .timeWait ∧ x.dst.tcb.state = .timeWait

/-- A FIN is taken in FIN_WAIT_1 that acknowledges neither everything nor everything but the
FIN, or that is not the next in sequence. -/
def Conn.takesFinEarly (c : Conn) : Event → Bool
  | .segment seg =>
    c.tcb.state = .finWait1 && seg.hdr.hasAck && seg.hdr.hasFin &&
      seg.hdr.ackNum ≠ c.tcb.snd.nxt &&
      (seg.hdr.ackNum ≠ c.tcb.snd.nxt - 1 || seg.hdr.seqNum ≠ c.tcb.rcv.nxt)
  | _ => false

/-- What the states of an active close tell about the past. -/
structure Closes (tr : List (Move Conn Label)) (c : Conn) : Prop where
  finSent : c.tcb.state = .finWait1 ∨ c.tcb.state = .finWait2 ∨ c.tcb.state = .closing →
    c.tcb.cancelled = true
  finAcked : c.tcb.state = .finWait2 → FinAcked tr c
  finConsumed : c.tcb.state = .closing → FinConsumed tr

section TimeWait

variable {c c' : Conn} {seg : Segment} {l : Label} {s : Sender} {ev : Event}
  {tr : List (Move Conn Label)} {x : Move Conn Label}

theorem FinAcked.mono (h : FinAcked tr c) (hnxt : c'.tcb.snd.nxt = c.tcb.snd.nxt) :
    FinAcked (tr ++ [x]) c' := by
  obtain ⟨y, hy, seg, hev, hack, hc, ha, hn⟩ := h
  exact ⟨y, List.mem_append_left _ hy, seg, hev, hack, hc, ha, hn.trans hnxt.symm⟩

theorem FinConsumed.mono (h : FinConsumed tr) : FinConsumed (tr ++ [x]) := by
  obtain ⟨y, hy, hrest⟩ := h
  exact ⟨y, List.mem_append_left _ hy, hrest⟩

/-- After the FIN only another `Close` moves SND.NXT. -/
theorem SenderMove.cancelled (h : SenderMove c ev s) (hc : c.tcb.cancelled = true)
    (hstate : c.tcb.state ≠ .synSent ∧ c.tcb.state ≠ .synReceived) :
    s.cancelled = true ∧
      (s.snd.nxt = c.tcb.snd.nxt ∨
        (ev = .close ∨ ev = .closeWake) ∧ c.tcb.snd.nxt = c.tcb.snd.lbw) := by
  cases h with
  | opened hs => exact absurd hs (not_or.mpr hstate)
  | segment _ _ hc' => simp [hc] at hc'
  | zeroExit _ _ hc' => simp [hc] at hc'
  | finSent hev heq => exact ⟨rfl, Or.inr ⟨hev.imp id And.left, heq⟩⟩
  | _ => exact ⟨hc, Or.inl rfl⟩

/-- `Close` sends its FIN as soon as everything written has been sent. -/
theorem Step.snd_of_close (h : Step c l c') (hev : l.ev = .close ∨ l.ev = .closeWake)
    (heq : c.tcb.snd.nxt = c.tcb.snd.lbw) :
    c'.tcb.cancelled = true ∧ c'.tcb.snd = { c.tcb.snd with nxt := c.tcb.snd.nxt + 1 } := by
  have hm := h.moved
  generalize l.ev = ev at hm hev
  generalize l.out = o at hm
  cases hm with
  | closeWaits hc hne => cases hc <;> exact absurd heq hne
  | closes hc => cases hc <;> exact ⟨rfl, rfl⟩
  | handshakeGaveUp hh => rcases hh with ⟨rfl, -⟩ | ⟨rfl, -⟩ <;> simp at hev
  | handshakeResent hh => rcases hh with ⟨rfl, -⟩ | ⟨rfl, -⟩ <;> simp at hev
  | _ => simp at hev

/-- One step of an active close that takes no FIN early. -/
theorem Closes.step (hI : Closes tr c) (hs : Step c l c')
    (hok : c.takesFinEarly l.ev = false) : Closes (tr ++ [⟨c, l, c'⟩]) c' := by
  have hsender : c.tcb.state = .finWait1 ∨ c.tcb.state = .finWait2 ∨ c.tcb.state = .closing →
      c'.tcb.cancelled = true ∧ (c'.tcb.snd.nxt = c.tcb.snd.nxt ∨
        (l.ev = .close ∨ l.ev = .closeWake) ∧ c.tcb.snd.nxt = c.tcb.snd.lbw) := by
    intro hst
    refine hs.sender.cancelled (hI.finSent hst) ?_
    rcases hst with hst | hst | hst <;> simp [hst]
  have hm := hs.state
  generalize hev : l.ev = ev at hm
  generalize hst : c'.tcb.state = st at hm
  cases hm with
  | same hseg hclose =>
    refine ⟨fun h => (hsender (hst ▸ h)).1, fun h => ?_, fun h => (hI.finConsumed (hst ▸ h)).mono⟩
    refine (hI.finAcked (hst ▸ h)).mono ?_
    rcases (hsender (Or.inr (Or.inl (hst ▸ h)))).2 with hnxt | ⟨hcl, heq⟩
    · exact hnxt
    · exact absurd heq (hclose (hev ▸ hcl))
  | finAcked hs' hack ha =>
    obtain ⟨hcan, hnxt⟩ := hsender (Or.inl hs')
    have hnxt' : c'.tcb.snd.nxt = c.tcb.snd.nxt := by simpa [hev] using hnxt
    refine ⟨fun _ => hcan, fun _ => ?_, fun h => by simp [hst] at h⟩
    exact ⟨_, List.mem_append_right _ (List.mem_singleton_self _), _, hev, hack,
      hI.finSent (Or.inl hs'), ha, hnxt'.symm⟩
  | finWait1Fin hs' hack ha hf =>
    rename_i seg
    have hgood : seg.hdr.ackNum = c.tcb.snd.nxt - 1 ∧ seg.hdr.seqNum = c.tcb.rcv.nxt := by
      rw [hev] at hok
      simpa [Conn.takesFinEarly, hs', hack, hf, ha] using hok
    rw [if_pos hgood.1] at hst
    refine ⟨fun _ => (hsender (Or.inl hs')).1, fun h => by simp [hst] at h, fun _ => ?_⟩
    exact ⟨_, List.mem_append_right _ (List.mem_singleton_self _), _, hev, hf, hgood.2,
      by rw [hs.rcv_of_countsFin (by simp [hev, Conn.countsFin, hs', hack, ha, hf])]⟩
  | finSent hcl heq =>
    have hcan := (hs.snd_of_close (hev ▸ hcl) heq).1
    refine ⟨fun _ => hcan, fun h => ?_, fun h => ?_⟩ <;>
      (rw [hst] at h; split at h <;> cases h)
  | _ => exact ⟨fun h => by simp [hst] at h, fun h => by simp [hst] at h,
      fun h => by simp [hst] at h⟩

/-- The step into TIME_WAIT. -/
theorem Closes.entersTimeWait (hI : Closes tr c) (hs : Step c l c')
    (hok : c.takesFinEarly l.ev = false) (hx : EntersTimeWait ⟨c, l, c'⟩) :
    FinAcked (tr ++ [⟨c, l, c'⟩]) c ∧ FinConsumed (tr ++ [⟨c, l, c'⟩]) := by
  obtain ⟨hne, htw⟩ := hx
  simp only at hne htw
  have hm := hs.state
  generalize hev : l.ev = ev at hm
  rw [htw] at hm
  generalize hst : ConnectionState.timeWait = st at hm
  cases hm with
  | same => exact absurd hst.symm hne
  | finWait1Fin hs' hack ha hf =>
    rename_i seg
    have hgood : seg.hdr.ackNum = c.tcb.snd.nxt - 1 ∧ seg.hdr.seqNum = c.tcb.rcv.nxt := by
      rw [hev] at hok
      simpa [Conn.takesFinEarly, hs', hack, hf, ha] using hok
    simp [hgood.1] at hst
  | finWait2Fin hs' hf hseq =>
    refine ⟨(hI.finAcked hs').mono rfl, ?_⟩
    exact ⟨_, List.mem_append_right _ (List.mem_singleton_self _), _, hev, hf, hseq,
      by rw [hs.rcv_of_countsFin (by simp [hev, Conn.countsFin, hs', hf, hseq])]⟩
  | closingAcked hs' hack ha =>
    refine ⟨?_, (hI.finConsumed hs').mono⟩
    exact ⟨_, List.mem_append_right _ (List.mem_singleton_self _), _, hev, hack,
      hI.finSent (Or.inr (Or.inr hs')), ha, rfl⟩
  | finSent => split at hst <;> cases hst
  | _ => cases hst

/-- TIME_WAIT is entered only with the own FIN acknowledged and the peer's FIN consumed in
sequence, in every run in which no FIN is taken early in FIN_WAIT_1. -/
theorem timeWait_after_finAcked (h0 : Opening c) (h : Run Step c tr c')
    (hok : ∀ x ∈ tr, x.src.takesFinEarly x.ev.ev = false) :
    ∀ pre x post, tr = pre ++ x :: post → EntersTimeWait x →
      FinAcked (pre ++ [x]) x.src ∧ FinConsumed (pre ++ [x]) := by
  intro pre x post htr hx
  obtain ⟨hpre, hstep⟩ := h.pre htr
  have hI : Closes pre x.src := by
    refine hpre.inv (I := Closes) (C := fun _ x => x.src.takesFinEarly x.ev.ev = false) ?_
      (along_of_forall_mem fun y hy => hok y (by simp [htr, hy])) ?_
    · have hstate := h0.state
      refine ⟨fun h => ?_, fun h => ?_, fun h => ?_⟩
      · rcases h with h | h | h <;> simp [h] at hstate
      · simp [h] at hstate
      · simp [h] at hstate
    · intro tr t l u ht hs hno
      exact ht.step hs hno
  exact hI.entersTimeWait hstep (hok x (by simp [htr])) hx

theorem timeWait_after_finAcked_simultaneous :
    let c := Conn.connect ⟨1, 1000, 2, 2000⟩ 99
    let tr := (c.play [.segment (Segment.fromPeer 499 100 18 1000 [] (by simp)), .close,
      .segment (Segment.fromPeer 500 100 17 1000 [] (by simp)),
      .segment (Segment.fromPeer 501 101 16 1000 [] (by simp))]).1
    (∃ x ∈ tr, x.src.tcb.state = .closing ∧ x.dst.tcb.state = .timeWait) ∧
      ∀ pre x post, tr = pre ++ x :: post → EntersTimeWait x →
        FinAcked (pre ++ [x]) x.src ∧ FinConsumed (pre ++ [x]) :=
  ⟨by decide, timeWait_after_finAcked (opening_connect _ _) (Conn.play_run _ _) (by decide)⟩

/-- Three bytes in flight, then `Close`, then the peer's FIN, which acknowledges none of it. -/
def crossingFins : List Event :=
  [.segment (Segment.fromPeer 499 100 18 1000 [] Segment.nil_le), .write [1, 2, 3], .send, .send,
    .send, .close, .segment (Segment.fromPeer 500 100 17 1000 [] Segment.nil_le)]

/-- The FIN that acknowledges nothing takes FIN_WAIT_1 straight to TIME_WAIT. -/
theorem timeWait_premature :
    ¬ ∀ (c c' : Conn) (tr : List (Move Conn Label)), Opening c → Run Step c tr c' →
      ∀ pre x post, tr = pre ++ x :: post → EntersTimeWait x →
        FinAcked (pre ++ [x]) x.src ∧ FinConsumed (pre ++ [x]) := by
  intro h
  have hrun := Conn.play_run (Conn.connect ⟨1, 1000, 2, 2000⟩ 99) crossingFins
  have henters : ∃ x ∈ ((Conn.connect ⟨1, 1000, 2, 2000⟩ 99).play crossingFins).1,
      x.src.tcb.state = .finWait1 ∧ x.dst.tcb.state = .timeWait ∧
        x.src.tcb.snd.nxt = 104 := by
    decide
  have hacks : ∀ y ∈ ((Conn.connect ⟨1, 1000, 2, 2000⟩ 99).play crossingFins).1,
      y.src.tcb.snd.nxt ≠ 104 ∨
        y.ev.ev = .segment (Segment.fromPeer 500 100 17 1000 [] (by simp)) := by
    decide
  obtain ⟨x, hx, hsrc, hdst, hnxt⟩ := henters
  obtain ⟨pre, post, htr⟩ := List.append_of_mem hx
  obtain ⟨⟨y, hy, seg, hev, -, -, hack, hyn⟩, -⟩ :=
    h _ _ _ (opening_connect _ _) hrun pre x post htr ⟨by simp [hsrc], hdst⟩
  have hmem : y ∈ ((Conn.connect ⟨1, 1000, 2, 2000⟩ 99).play crossingFins).1 := by
    rw [htr]
    simp only [List.mem_append, List.mem_singleton] at hy
    rcases hy with hy | rfl
    · exact List.mem_append_left _ hy
    · exact List.mem_append_right _ List.mem_cons_self
  rcases hacks y hmem with hne | hseg
  · exact hne (hyn.trans hnxt)
  · rw [hseg] at hev
    cases hev
    rw [hyn, hnxt] at hack
    exact absurd hack (by decide)

end TimeWait

end TcpIp
