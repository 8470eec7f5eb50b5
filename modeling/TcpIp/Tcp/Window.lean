import TcpIp.Tcp.States
import TcpIp.Tcp.Established

/-! What `Send` decides to transmit, against the window at that moment. -/
namespace TcpIp

open Runs

/-- The window `Send` works with. -/
def TCB.window (s : TCB) : U32 := min32 s.snd.wnd s.cwnd

/-- The bytes from SND.NXT on lie in the window that starts at SND.UNA. -/
def InWindow (s : TCB) (amount : U32) : Prop :=
  ∀ i < amount, s.snd.nxt + i - s.snd.una < s.window

/-- While `Send` waits for data it relies on its earlier window test: an acknowledgement, a loss
or the start of congestion control must leave SND.NXT in the new window. -/
def Conn.keepsWindow (c : Conn) : Event → Bool
  | .segment seg =>
    if c.takesAck seg.hdr then
      c.tcb.snd.nxt - seg.hdr.ackNum ≤ min32 (seg.hdr.windowSize.setWidth 32) c.ackedCwnd
    else !c.seesLoss (.segment seg) || c.tcb.snd.nxt - c.tcb.snd.una ≤ min32 c.tcb.snd.wnd initCwnd
  | .timeout =>
    !c.seesLoss .timeout || c.tcb.snd.nxt - c.tcb.snd.una ≤ min32 c.tcb.snd.wnd initCwnd
  | .initCC => c.tcb.snd.nxt - c.tcb.snd.una ≤ min32 c.tcb.snd.wnd initCwnd
  | _ => true

/-- While `Send` waits for data inside its window loop, SND.NXT is in the window. -/
def Sender.Waits (s : Sender) : Prop :=
  s.pc = .waitData1 → s.cancelled = false → s.snd.nxt - s.snd.una ≤ min32 s.snd.wnd s.cwnd

section Window

variable {c c' : Conn} {ev : Event} {s : Sender} {tr : List (Move Conn Label)}

/-- What is decided lies in the window exactly when SND.NXT does. -/
theorem inWindow_iff {t : TCB} (hdata : t.snd.nxt ≠ t.snd.lbw) :
    InWindow t t.amountToSend ↔ t.snd.nxt - t.snd.una ≤ t.window := by
  have hamount : t.amountToSend.toNat =
      min (t.snd.una + t.window - t.snd.nxt).toNat (t.snd.lbw - t.snd.nxt).toNat := by
    simp [TCB.amountToSend, TCB.window]
  constructor
  · intro h
    by_contra hout
    -- the subtraction underflows, so at least one byte goes out
    have hpos : (0 : U32) < t.amountToSend := by
      rw [BitVec.lt_def, hamount]
      bv_omega
    have hfirst := h 0 hpos
    bv_omega
  · intro h i hi
    rw [BitVec.lt_def, hamount] at hi
    bv_omega

theorem Jump.waits {t : TCB} {pc pc' : SendPc} (h : Jump t pc pc') (hpc : s.pc = pc')
    (hsnd : s.snd = t.snd) (hcwnd : s.cwnd = t.cwnd)
    (hw : pc = .waitData1 → t.cancelled = false → t.snd.nxt - t.snd.una ≤ t.window) :
    s.Waits := by
  intro hwait hc
  rw [hpc] at hwait
  rw [hsnd, hcwnd]
  subst hwait
  cases h with
  | idle h => simp at h
  | waitData1 h =>
    rcases h with hopen | ⟨rfl, hcan⟩
    · unfold TCB.windowOpen at hopen
      bv_omega
    · exact hw rfl hcan

theorem Sender.Waits.move (hw : c.sender.Waits) (h : SenderMove c ev s)
    (hstate : c.tcb.state ≠ .synSent ∧ c.tcb.state ≠ .synReceived)
    (hkeep : c.send = .waitData1 → c.keepsWindow ev = true) : s.Waits := by
  cases h with
  | same | wrote | enableCC | lastAcked => exact hw
  | opened hs => exact absurd hs (not_or.mpr hstate)
  | jump hj => exact hj.waits rfl rfl rfl hw
  | segment | finSent => simp [Sender.Waits]
  | zeroExit hpc hwnd hc hj => exact hj.waits rfl rfl rfl (by simp)
  | acked hack =>
    intro hpc _
    have hk := hkeep hpc
    simp only [Conn.keepsWindow, hack, if_true, decide_eq_true_eq] at hk
    exact hk
  | loss hloss hseg =>
    intro hpc _
    have hk := hkeep hpc
    cases ev with
    | segment seg =>
      simpa [Conn.keepsWindow, hseg seg rfl, hloss] using hk
    | timeout => simpa [Conn.keepsWindow, hloss] using hk
    | _ => simp [Conn.seesLoss] at hloss
  | initCC =>
    intro hpc _
    simpa [Conn.keepsWindow] using hkeep hpc

theorem Jump.inWindow {t : TCB} {pc : SendPc} {amount : U32}
    (h : Jump t pc (.transmit amount 0))
    (hw : pc = .waitData1 → t.cancelled = false → t.snd.nxt - t.snd.una ≤ t.window) :
    InWindow t amount ∧ t.snd.nxt - t.snd.una ≤ t.window := by
  cases h with
  | idle h => simp at h
  | transmit hdata hopen =>
    have hle : t.snd.nxt - t.snd.una ≤ t.window := by
      rcases hopen with hopen | ⟨hpc, hc⟩
      · have hlt : t.snd.nxt - t.snd.una < t.window := hopen
        bv_omega
      · exact hw hpc hc
    exact ⟨(inWindow_iff hdata).mpr hle, hle⟩

/-- A pass that is about to transmit has SND.NXT in the window. -/
theorem Step.inWindow {l : Label} {amount : U32} (h : Step c l c') (hw : c.sender.Waits)
    (hev : l.ev = .send) (hpc : c'.send = .transmit amount 0) :
    InWindow c'.tcb amount ∧ c'.tcb.snd.nxt - c'.tcb.snd.una ≤ c'.tcb.window := by
  have hm := h.moved
  rw [hev] at hm
  generalize l.out = o at hm
  cases hm with
  | closeWaits hc | closes hc => cases hc
  | handshakeGaveUp hh | handshakeResent hh => simp at hh
  | send he =>
    generalize hpc₀ : c.send = pc₀ at he
    simp only at hpc
    cases he with
    | jump hj =>
      subst hpc
      exact hj.inWindow fun h hc => hw (hpc₀.trans h) hc
    | zeroExit hwnd hc hj =>
      subst hpc
      exact hj.inWindow (by simp)
    | segment b hlt hc =>
      -- after a segment the amount sent is not zero
      rename_i a sent
      obtain ⟨-, hzero⟩ := SendPc.transmit.inj hpc
      have hpos := segmentLength_pos hlt
      have hle := segmentLength_le_sub a sent
      bv_omega

/-- Every byte that `Send` decides to transmit is in the window, in every run in which what
happens during its wait for data keeps SND.NXT in the window. -/
theorem send_inWindow (h0 : Established c) (h : Run Step c tr c')
    (hkeep : ∀ x ∈ tr, x.src.send = .waitData1 → x.src.keepsWindow x.ev.ev = true) :
    ∀ x ∈ tr, ∀ amount, x.ev.ev = .send → x.dst.send = .transmit amount 0 →
      InWindow x.dst.tcb amount ∧
        x.dst.tcb.snd.nxt - x.dst.tcb.snd.una ≤ x.dst.tcb.window := by
  intro x hx amount hev hpc
  obtain ⟨pre, post, rfl⟩ := List.append_of_mem hx
  obtain ⟨hpre, hstep⟩ := h.pre rfl
  have hinv := hpre.state_inv
    (I := fun c => c.sender.Waits ∧ c.tcb.state ≠ .synSent ∧ c.tcb.state ≠ .synReceived)
    (P := fun x => x.src.send = .waitData1 → x.src.keepsWindow x.ev.ev = true)
    ⟨by simp [Sender.Waits, h0.send], by simp [h0.state], by simp [h0.state]⟩
    (fun y hy => hkeep y (by simp [hy]))
    fun t e u ht hs hk => ⟨ht.1.move hs.sender ht.2 hk, hs.not_opening ht.2⟩
  exact hstep.inWindow hinv.1 hev hpc

theorem send_inWindow_three_bytes :
    let tr := ((Conn.fresh 100 100 500).play
      [.write [1], .send, .send, .send, .segment (Segment.fromPeer 500 101 16 9 [] (by simp)),
        .write [2, 3], .send]).1
    (∃ x ∈ tr, x.src.send = .waitData1 ∧ x.dst.send = .transmit 2 0) ∧
      ∀ x ∈ tr, ∀ amount, x.ev.ev = .send → x.dst.send = .transmit amount 0 →
        InWindow x.dst.tcb amount ∧
          x.dst.tcb.snd.nxt - x.dst.tcb.snd.una ≤ x.dst.tcb.window :=
  ⟨by decide, send_inWindow (established_fresh (Or.inl rfl)) (Conn.play_run _ _) (by decide)⟩

/-- With 2000 bytes in flight a retransmission timeout cuts the congestion window to one segment;
then one more byte is written. -/
def lossInFlight : List Event :=
  [.enableCC, .initCC, .write (List.replicate 1360 0), .send, .send, .send,
    .segment (Segment.fromPeer 500 1460 16 65535 [] Segment.nil_le), .write (List.replicate 2000 0),
    .send, .send, .send, .send, .send, .timeout, .write [1], .send]

/-- The byte written after the loss is sent outside the window. -/
theorem send_overruns_after_loss :
    ¬ ∀ (c c' : Conn) (tr : List (Move Conn Label)), Established c → Run Step c tr c' →
      ∀ x ∈ tr, ∀ amount, x.ev.ev = .send → x.dst.send = .transmit amount 0 →
        InWindow x.dst.tcb amount := by
  intro h
  have hrun := Conn.play_run (Conn.fresh 100 100 500) lossInFlight
  have hbad := h _ _ _ (established_fresh (Or.inl rfl)) hrun
  have hlast : ∃ x ∈ ((Conn.fresh 100 100 500).play lossInFlight).1,
      x.ev.ev = .send ∧ x.dst.send = .transmit 1 0 ∧
        ¬ (x.dst.tcb.snd.nxt + 0 - x.dst.tcb.snd.una < x.dst.tcb.window) := by
    decide +kernel
  obtain ⟨x, hx, hev, hpc, hout⟩ := hlast
  exact hout (hbad x hx 1 hev hpc 0 (by decide))

end Window

end TcpIp
