import TcpIp.Tcp.Closing

/-! A `Close` that waits for the last data, and the `Send` it waits for. -/
namespace TcpIp

open Runs

/-- While a `Close` waits for data to be sent, `Send` runs. -/
def NotStranded (c : Conn) : Prop :=
  0 < c.closeWaiting → c.tcb.pendingSendingFin = true → c.tcb.cancelled = false →
    c.tcb.snd.nxt ≠ c.tcb.snd.lbw → c.send ≠ .returned

/-- `Write` puts bytes in the buffer after `Send` has returned for the pending FIN. -/
def Conn.strands (c : Conn) (ev : Event) : Bool :=
  c.send = .returned && c.tcb.pendingSendingFin && !c.tcb.cancelled && !(c.written ev).isEmpty

/-- `Send` returns early only for a FIN that nothing is left before. -/
structure Returns (c : Conn) : Prop where
  state : c.tcb.state ≠ .synSent ∧ c.tcb.state ≠ .synReceived
  waiting : c.tcb.pendingSendingFin = true → c.tcb.cancelled = false → 0 < c.closeWaiting
  returned : c.send = .returned → c.tcb.cancelled = false →
    c.tcb.pendingSendingFin = true ∧ c.tcb.snd.nxt = c.tcb.snd.lbw

section Returned

variable {s : TCB} {key : SocketData} {now : Int64} {pc : SendPc}

theorem sendWindow_returned (h : s.sendWindow = .returned) : s.cancelled = true := by
  unfold TCB.sendWindow at h
  split at h
  · split at h
    · assumption
    · cases h
  · cases h

theorem sendData2_returned (h : s.sendData2 = .returned) :
    s.cancelled = true ∨ s.pendingSendingFin = true ∧ s.snd.nxt = s.snd.lbw := by
  unfold TCB.sendData2 TCB.sendZero at h
  split at h
  · rename_i heq
    split at h
    · exact Or.inr ⟨‹_›, heq⟩
    · split at h
      · exact Or.inl ‹_›
      · cases h
  · split at h
    · cases h
    · exact Or.inl (sendWindow_returned h)

theorem sendData1_returned (h : s.sendData1 = .returned) :
    s.cancelled = true ∨ s.pendingSendingFin = true ∧ s.snd.nxt = s.snd.lbw := by
  unfold TCB.sendData1 at h
  split at h
  · rename_i heq
    split at h
    · exact Or.inr ⟨‹_›, heq⟩
    · split at h
      · exact Or.inl ‹_›
      · cases h
  · cases h

theorem sendHead_returned (h : s.sendHead = .returned) :
    s.cancelled = true ∨ s.pendingSendingFin = true ∧ s.snd.nxt = s.snd.lbw := by
  unfold TCB.sendHead at h
  split at h
  · exact sendData1_returned h
  · exact sendData2_returned h

/-- Why `Send` returns: the FIN is sent, or it waits and everything has been sent. -/
theorem sendStep_returned (h : (s.sendStep key now pc).1 = .returned) (hpc : pc ≠ .returned) :
    s.cancelled = true ∨ (s.pendingSendingFin = true ∧ s.snd.nxt = s.snd.lbw) ∧
      (s.sendStep key now pc).2.1 = s := by
  cases pc with
  | notStarted => cases h
  | returned => exact absurd rfl hpc
  | top => exact (sendHead_returned h).imp id fun hs => ⟨hs, rfl⟩
  | waitData1 =>
    simp only [TCB.sendStep] at h
    split at h
    · exact Or.inl ‹_›
    · exact (sendData1_returned h).imp id fun hs => ⟨hs, rfl⟩
  | transmit a b =>
    simp only [TCB.sendStep, TCB.sendSegment] at h ⊢
    split at h
    · split at h
      · exact Or.inl ‹_›
      · cases h
    · rename_i hlt
      exact (sendHead_returned h).imp id fun hs => ⟨hs, by rw [if_neg hlt]⟩
  | waitData2 =>
    simp only [TCB.sendStep] at h
    split at h
    · exact Or.inl ‹_›
    · exact (sendData2_returned h).imp id fun hs => ⟨hs, rfl⟩
  | zeroWait =>
    simp only [TCB.sendStep] at h
    split at h
    · exact Or.inl ‹_›
    · split at h
      · cases h
      · have hc := sendWindow_returned h
        exact Or.inl hc
  | windowWait =>
    simp only [TCB.sendStep] at h
    split at h
    · exact Or.inl ‹_›
    · exact Or.inl (sendWindow_returned h)

end Returned

section Steps

variable {c c' : Conn} {l : Label}

/-- A round of `Write` moves SND.LBW exactly when it writes something. -/
theorem lbw_eq_iff (data : List U8) : c.tcb.snd.lbw + c.tcb.snd.writable data = c.tcb.snd.lbw ↔
    data.take (c.tcb.snd.writable data).toNat = [] := by
  have hle := c.tcb.snd.writable_le_length data
  have hlen : data.take (c.tcb.snd.writable data).toNat = [] ↔
      (c.tcb.snd.writable data).toNat = 0 := by
    rw [← List.length_eq_zero_iff, List.length_take]
    omega
  rw [hlen]
  constructor
  · intro h
    bv_omega
  · intro h
    bv_omega

/-- Once `Send` has returned, only `Write` moves SND.LBW, and only the FIN SND.NXT. -/
theorem Step.returned_kept (h : Step c l c')
    (hstate : c.tcb.state ≠ .synSent ∧ c.tcb.state ≠ .synReceived) (hr : c.send = .returned)
    (hc : c'.tcb.cancelled = false) :
    c'.send = .returned ∧ c'.tcb.snd.nxt = c.tcb.snd.nxt ∧
      (c'.tcb.snd.lbw = c.tcb.snd.lbw ↔ c.written l.ev = []) := by
  by_cases hsend : l.ev = .send
  · obtain ⟨env, h⟩ := h
    simp only [hsend, Conn.step, hr, TCB.sendStep] at h
    obtain ⟨rfl, -⟩ := Prod.mk.inj (Option.some.inj h)
    simp [hsend, Conn.written]
  · have hm := h.sender
    generalize l.ev = ev at hm hsend
    rw [← Conn.sender_cancelled] at hc
    simp only [← Conn.sender_pc c', ← Conn.sender_snd c']
    generalize c'.sender = s at hm hc
    cases hm with
    | same _ _ hw => exact ⟨hr, rfl, by simp [hw]⟩
    | opened hs => exact absurd hs (not_or.mpr hstate)
    | @wrote data buffer hs hw hb =>
      refine ⟨hr, rfl, ?_⟩
      rw [hw]
      exact lbw_eq_iff data
    | jump | segment | zeroExit => exact absurd rfl hsend
    | acked | lastAcked | initCC | enableCC => exact ⟨hr, rfl, by simp [Conn.written]⟩
    | loss hl =>
      refine ⟨hr, rfl, ?_⟩
      cases ev with
      | segment | timeout => simp [Conn.written]
      | _ => simp [Conn.seesLoss] at hl
    | finSent => simp at hc

/-- A step that makes `Send` return while the FIN is not sent. -/
theorem Step.returns (h : Step c l c')
    (hstate : c.tcb.state ≠ .synSent ∧ c.tcb.state ≠ .synReceived) (hr : c.send ≠ .returned)
    (hr' : c'.send = .returned) (hc : c.tcb.cancelled = false) :
    c.tcb.pendingSendingFin = true ∧ c.tcb.snd.nxt = c.tcb.snd.lbw ∧ c'.tcb = c.tcb := by
  by_cases hsend : l.ev = .send
  · obtain ⟨env, h⟩ := h
    simp only [hsend, Conn.step] at h
    obtain ⟨rfl, -⟩ := Prod.mk.inj (Option.some.inj h)
    rcases sendStep_returned hr' hr with hc' | ⟨⟨hp, heq⟩, hs⟩
    · simp [hc] at hc'
    · exact ⟨hp, heq, hs⟩
  · have hclosing := h.closing
    by_cases hev : l.ev ≠ .close ∧ l.ev ≠ .closeWake
    · exact absurd ((h.sender_kept hsend hev hstate).1.symm.trans hr') hr
    · generalize l.ev = ev at hclosing hev
      generalize l.out = o at hclosing
      cases hclosing with
      | waits hcl | fin hcl => cases hcl <;> exact absurd hr' hr
      | other hne => exact absurd hne hev

theorem Returns.step (hr : Returns c) (h : Step c l c') (hno : c.strands l.ev = false) :
    Returns c' := by
  refine ⟨h.not_opening hr.state, fun hp hc => ?_, fun hret hc => ?_⟩
  · obtain ⟨hc₀, -, hpos | ⟨hwaiting, hpending⟩⟩ := h.fin_unsent hc
    · exact hpos
    · rw [hwaiting]
      exact hr.waiting (hpending ▸ hp) hc₀
  · obtain ⟨hc₀, hpending, -⟩ := h.fin_unsent hc
    by_cases hpc : c.send = .returned
    · obtain ⟨hp, heq⟩ := hr.returned hpc hc₀
      obtain ⟨-, hnxt, hlbw⟩ := h.returned_kept hr.state hpc hc
      have hw : c.written l.ev = [] := by simpa [Conn.strands, hpc, hp, hc₀] using hno
      exact ⟨hpending hp, hnxt.trans (heq.trans (hlbw.mpr hw).symm)⟩
    · obtain ⟨hp, heq, htcb⟩ := h.returns hr.state hpc hret hc₀
      exact ⟨htcb ▸ hp, htcb ▸ heq⟩

/-- A step strands data exactly when it is such a `Write`. -/
theorem Returns.notStranded_iff (hr : Returns c) (h : Step c l c') :
    NotStranded c' ↔ c.strands l.ev = false := by
  constructor
  · intro hn
    by_contra hyes
    simp only [Conn.strands, Bool.not_eq_false, Bool.and_eq_true, decide_eq_true_eq,
      Bool.not_eq_true', List.isEmpty_eq_false_iff] at hyes
    obtain ⟨⟨⟨hret, hp⟩, hc⟩, hw⟩ := hyes
    have heq := (hr.returned hret hc).2
    -- it is a `Write`, which leaves the close as it is
    have hev : l.ev ≠ .close ∧ l.ev ≠ .closeWake := by
      constructor <;> intro hev <;> exact hw (by rw [hev]; rfl)
    obtain ⟨hwaiting, hpending, hcancelled⟩ := h.close_kept hev
    obtain ⟨hret', hnxt, hlbw⟩ := h.returned_kept hr.state hret (hcancelled.trans hc)
    refine hn (hwaiting ▸ hr.waiting hp hc) (hpending.trans hp) (hcancelled.trans hc) ?_ hret'
    rw [hnxt, heq]
    exact fun hsame => hw (hlbw.mp hsame.symm)
  · intro hno hw hp hc hne hret
    exact hne ((hr.step h hno).returned hret hc).2

theorem Established.returns (hc : Established c) : Returns c := by
  refine ⟨?_, ?_, ?_⟩ <;> simp [hc.state, hc.pendingSendingFin, hc.send]

end Steps

/-- A pending close strands data exactly through a late `Write`. -/
theorem notStranded_run_iff {c c' : Conn} {tr : List (Move Conn Label)} (hc : Established c)
    (h : Run Step c tr c') :
    (∀ x ∈ tr, NotStranded x.dst) ↔ ∀ x ∈ tr, x.src.strands x.ev.ev = false :=
  h.forall_iff (I := Returns) (H := fun _ => True) hc.returns (by simp)
    (fun _ _ _ ht hs _ hno => ht.step hs hno) fun _ _ _ ht hs _ => ht.notStranded_iff hs

/-- `Close` waits for one segment; `Send` sends it and returns. -/
def Conn.closePending : List Event := [.write [7], .send, .close, .send, .send]

theorem notStranded_run_iff_closeWake :
    ((Conn.fresh 100 100 500).play (Conn.closePending ++ [.closeWake])).2.tcb.cancelled = true ∧
      ∀ x ∈ ((Conn.fresh 100 100 500).play (Conn.closePending ++ [.closeWake])).1,
        NotStranded x.dst :=
  ⟨by decide,
    (notStranded_run_iff (established_fresh (Or.inl rfl)) (Conn.play_run _ _)).mpr (by decide)⟩

/-- A `Write` comes before `Close` wakes. -/
theorem stranded_by_late_write :
    ¬ ∀ (c c' : Conn) (tr : List (Move Conn Label)), Established c → Run Step c tr c' →
      ∀ x ∈ tr, NotStranded x.dst := by
  intro h
  have hlast := h _ _ _ (established_fresh (Or.inl rfl))
    (Conn.play_run (Conn.fresh 100 100 500) (Conn.closePending ++ [.write [8]]))
    (((Conn.fresh 100 100 500).play (Conn.closePending ++ [.write [8]])).1.get ⟨5, by decide⟩)
    (List.get_mem _ _)
  exact hlast (by decide) (by decide) (by decide) (by decide) (by decide)

end TcpIp
