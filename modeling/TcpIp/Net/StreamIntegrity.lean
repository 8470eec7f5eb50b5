import TcpIp.Net.FlowControl

/-! End-to-end integrity: the bytes read are a prefix of the bytes written. -/
namespace TcpIp

open Runs

/-- The bytes a waiting call of `Read` has gathered. -/
def Conn.gathered (c : Conn) : List U8 :=
  match c.reading with
  | some call => call.data
  | none => []

/-- The reader `y` of the stream `W` has been given `ret`. A call that fails after the connection
gave up loses what it had gathered, and no call returns anything after it. -/
structure Reading (f : ℕ) (W : List U8) (y : Conn) (ret : List U8) : Prop where
  returned : ret <+: W
  consumed : y.tcb.timeoutCancelled = false ∨ y.reading.isSome = true →
    ret ++ y.gathered = W.take (y.tcb.rcv.lbr.toNat - f)

section Reading

variable {f : ℕ} {W ret : List U8} {x y y' : Conn} {out back : List Msg} {l : Label}

theorem Reading.write (h : Reading f W y ret) (hflow : Flow f W x y out back) (ws : List U8) :
    Reading f (W ++ ws) y ret where
  returned := h.returned.trans (List.prefix_append W ws)
  consumed hy := by
    have hlbw : x.tcb.snd.lbw.toNat = f + W.length := hflow.sending.lbw
    have htop : x.sender.top ≤ x.tcb.snd.lbw.toNat := hflow.sending.top_le
    have hnxt : y.tcb.rcv.nxt.toNat ≤ x.sender.top := hflow.holding.nxt_le
    have hlbr : y.tcb.rcv.lbr.toNat ≤ y.tcb.rcv.nxt.toNat := hflow.holding.lbr_le
    rw [List.take_append_of_le_length (by omega)]
    exact h.consumed hy

/-- A call of `Read` whose gathered bytes continue what was returned. -/
theorem Flow.read_consumed (hflow : Flow f W x y out back) {call : ReadCall} {t : TCB}
    {o : ReadOutcome} (hr : ReadEffect y.tcb call t o)
    (hcall : ret ++ call.data = W.take (y.tcb.rcv.lbr.toNat - f)) :
    ∃ bytes, o.Delivers bytes ∧ ret ++ bytes = W.take (t.rcv.lbr.toNat - f) := by
  have hfirst := hflow.first
  have hlbr := hflow.holding.lbr_le
  have hwnd := hflow.holding.wnd
  simp only [Conn.receiver_rcv] at hlbr hwnd
  have hsub : (y.tcb.rcv.nxt - y.tcb.rcv.lbr).toNat =
      y.tcb.rcv.nxt.toNat - y.tcb.rcv.lbr.toNat := by bv_omega
  obtain ⟨n, hn, rfl, ho⟩ := hr.consumed
  rw [BitVec.le_def, hsub] at hn
  refine ⟨_, ho (by omega), ?_⟩
  have hload : Ring.load 65535 y.tcb.rcv.buffer y.tcb.rcv.lbr.toNat n.toNat =
      (W.drop (y.tcb.rcv.lbr.toNat - f)).take n.toNat :=
    hflow.holding.held.load_eq hfirst (Nat.le_refl _) (by simp only [Conn.receiver_rcv]; omega)
  have hend : (y.tcb.rcv.lbr + n).toNat - f = y.tcb.rcv.lbr.toNat - f + n.toNat := by
    rw [BitVec.toNat_add]
    omega
  calc ret ++ (call.data ++ Ring.load 65535 y.tcb.rcv.buffer y.tcb.rcv.lbr.toNat n.toNat)
      = W.take (y.tcb.rcv.lbr.toNat - f) ++
          (W.drop (y.tcb.rcv.lbr.toNat - f)).take n.toNat := by
        rw [← List.append_assoc, hcall, hload]
    _ = W.take ((y.tcb.readBy n).rcv.lbr.toNat - f) := by
        rw [← List.take_add]
        exact congrArg (W.take ·) hend.symm

/-- What a call of `Read` has gathered continues what was returned, unless the call fails. -/
theorem Reading.call (h : Reading f W y ret) {ev : Event} {call : ReadCall} {o : ReadOutcome}
    (hcall : ReadCalls y ev call o) (ho : o ≠ .failed) :
    ret ++ call.data = W.take (y.tcb.rcv.lbr.toNat - f) := by
  cases hcall with
  | enter hnone _ ht =>
    have hc : y.tcb.timeoutCancelled = false := by
      by_contra hc
      exact ho (ht (Bool.eq_true_of_not_eq_false hc))
    simpa [Conn.gathered, hnone] using h.consumed (Or.inl hc)
  | wake hsome => simpa [Conn.gathered, hsome] using h.consumed (Or.inr (by simp [hsome]))

/-- A step that reads nothing leaves the reader where it was. -/
theorem Reading.quiet (h : Reading f W y ret) (hs : Step y l y')
    (hlbr : y'.tcb.rcv.lbr = y.tcb.rcv.lbr) (hreading : y'.reading = y.reading)
    (hnone : l.out.read = none) : Reading f W y' (ret ++ l.out.bytes) := by
  have hbytes : l.out.bytes = [] := by simp [Output.bytes, hnone]
  rw [hbytes, List.append_nil]
  refine ⟨h.returned, fun hy => ?_⟩
  rw [hlbr]
  rw [hreading] at hy
  unfold Conn.gathered
  rw [hreading]
  refine h.consumed (hy.imp_left fun hc => ?_)
  by_contra hno
  simp [hs.timeoutCancelled (Bool.eq_true_of_not_eq_false hno)] at hc

/-- Only a connection that gave up lets a call fail, and it stays that way. -/
theorem Reading.refused (h : Reading f W y ret) (hs : Step y l y')
    (hcan : y.tcb.timeoutCancelled = true) (hnone : y'.reading = none)
    (hbytes : l.out.bytes = []) : Reading f W y' (ret ++ l.out.bytes) := by
  rw [hbytes, List.append_nil]
  refine ⟨h.returned, fun hy => ?_⟩
  simp [hs.timeoutCancelled hcan, hnone] at hy

/-- A pass of a call that does not fail returns the next bytes of the stream or keeps them. -/
theorem Reading.delivered {o : ReadOutcome} {bytes : List U8} (h : Reading f W y ret)
    (hne : o ≠ .eof) (hnf : o ≠ .failed) (hdel : o.Delivers bytes)
    (heq : ret ++ bytes = W.take (y'.tcb.rcv.lbr.toNat - f)) (hreading : y'.reading = o.pending)
    (hout : l.out.read = o.shown) : Reading f W y' (ret ++ l.out.bytes) := by
  cases o with
  | eof => exact absurd rfl hne
  | failed => exact absurd rfl hnf
  | returned k data =>
    have hbytes : l.out.bytes = bytes := by
      rw [← hdel]
      simp [Output.bytes, hout, ReadOutcome.shown]
    have hnone : y'.reading = none := hreading
    rw [hbytes, heq]
    exact ⟨List.take_prefix _ _, fun _ => by simp [Conn.gathered, hnone]⟩
  | waiting call' =>
    have hbytes : l.out.bytes = [] := by simp [Output.bytes, hout, ReadOutcome.shown]
    have hsome : y'.reading = some call' := hreading
    rw [hbytes, List.append_nil]
    refine ⟨h.returned, fun _ => ?_⟩
    rw [← heq, ← hdel]
    simp [Conn.gathered, hsome]

/-- The reader's side moves. -/
theorem Reading.step (h : Reading f W y ret) (hflow : Flow f W x y out back) (hpeer : Peer y back)
    (hout : ∀ m ∈ out, m.hdr.hasFin = false) (hs : Step y l y') (hev : DataEvent out l.ev) :
    Reading f W y' (ret ++ l.out.bytes) := by
  have hcount : y.countsFin l.ev = false := hev.countsFin hout
  have hm := hs.receiver
  generalize l.ev = ev at hm hcount
  generalize ho : l.out.read = o at hm
  generalize hr : y'.receiver = r at hm
  have hrcv : y'.tcb.rcv = r.rcv := congrArg Receiver.rcv hr
  have hreading : y'.reading = r.reading := congrArg Receiver.reading hr
  cases hm with
  | same => exact h.quiet hs (congrArg _ hrcv) hreading ho
  | opened hsyn => exact absurd hsyn hpeer.opened.1
  | inOrder | early => exact h.quiet hs (by rw [hrcv]; rfl) hreading ho
  | finCounted hc => simp [hcount] at hc
  | @read _ call t o hcall hre =>
    by_cases hbad : o = .eof ∨ o = .failed
    · have hcan : y.tcb.timeoutCancelled = true := by
        rcases hbad with rfl | rfl
        · rcases hre.eof rfl with hcw | hc
          · rcases hpeer.state with hst | hst <;> simp [hst] at hcw
          · exact hc
        · exact hre.failed rfl
      apply h.refused hs hcan
      · rcases hbad with rfl | rfl <;> exact hreading
      · rcases hbad with rfl | rfl <;> simp [Output.bytes, ho, ReadOutcome.shown]
    · obtain ⟨hne, hnf⟩ := not_or.mp hbad
      obtain ⟨bytes, hdel, heq⟩ := hflow.read_consumed hre (h.call hcall hnf)
      exact h.delivered hne hnf hdel (by rw [hrcv]; exact heq) hreading ho

end Reading

section StreamIntegrity

variable {n n' : Net} {tr : List (Move Net (Side × Label))}

/-- Both streams with their readers. -/
structure Net.Streaming (first : Side → ℕ) (n : Net) : Prop extends n.Flowing first where
  reading : ∀ x, Reading (first x) (n.written x) (n.conn x.other) (n.returned x.other)

theorem Net.Opened.streaming (h : n.Opened) : n.Streaming n.first where
  toFlowing := h.flowing
  reading x :=
    { returned := by simp [h.returned]
      consumed := fun _ => by
        simp [Conn.gathered, (h.established x.other).reading, h.returned, h.written] }

theorem Net.Streaming.step {first : Side → ℕ} {x : Side} {l : Label} (h : n.Streaming first)
    (hs : NetStep n (x, l) n') (hlbw : KeepsBelow ⟨n, (x, l), n'⟩) : n'.Streaming first := by
  refine ⟨h.toFlowing.step hs hlbw, fun y => ?_⟩
  obtain ⟨hev, c', hs, rfl⟩ := hs
  simp only at hev hs
  rcases y.eq_or x with rfl | rfl
  · simpa using (h.reading y).write (h.flow y) _
  · have hflow := h.flow x.other
    have hread := h.reading x.other
    rw [Side.other_other] at hflow hread
    simpa using hread.step hflow (h.peer x) (h.peer x.other).noFin hs hev

/-- At any point of any run, what one side has read is a prefix of what the other has written. -/
theorem streamIntegrity (h0 : n.Opened) (h : Run NetStep n tr n')
    (hbelow : ∀ y ∈ tr, KeepsBelow y) (x : Side) :
    n'.returned x.other <+: n'.written x := by
  have hinv : n'.Streaming n.first :=
    h.state_inv h0.streaming hbelow fun _ _ _ ht hs hb => ht.step hs hb
  exact (hinv.reading x).returned

theorem streamIntegrity_reordered :
    ∃ (n n' : Net) (tr : List (Move Net (Side × Label))), n.Opened ∧ Run NetStep n tr n' ∧
      (∀ y ∈ tr, KeepsBelow y) ∧ n'.written .a = [1, 2, 3] ∧ n'.returned .b = [1, 2, 3] ∧
      n'.returned .b <+: n'.written .a := by
  have hbelow : ∀ y ∈ (Net.sample.play Net.reordered).1, KeepsBelow y := by decide
  refine ⟨_, _, _, opened_sample, Net.play_run _ Net.reordered, hbelow, by decide, by decide, ?_⟩
  exact streamIntegrity opened_sample (Net.play_run _ Net.reordered) hbelow .a

end StreamIntegrity

end TcpIp
