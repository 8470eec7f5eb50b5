import TcpIp.Tcp.Emissions
import TcpIp.Tcp.SendPointers

/-! What a step does to a close under way. -/
namespace TcpIp

/-- What a step can do to `Close`: it waits, sends its FIN, or is not concerned. -/
inductive CloseMove (c : Conn) : Event → Output → Conn → Prop
  | waits {ev : Event} {c₁ : Conn} (hc : Closing c ev c₁)
      (hne : c.tcb.snd.nxt ≠ c.tcb.snd.lbw) :
      CloseMove c ev {} { c₁ with closeWaiting := c₁.closeWaiting + 1 }
  | fin {ev : Event} {c₁ : Conn} (hc : Closing c ev c₁) (heq : c.tcb.snd.nxt = c.tcb.snd.lbw) :
      CloseMove c ev { msgs := c₁.sendFin.2 } c₁.sendFin.1
  | other {ev : Event} {o : Output} {c' : Conn} (hev : ev ≠ .close ∧ ev ≠ .closeWake)
      (hwaiting : c'.closeWaiting = c.closeWaiting)
      (hpending : c'.tcb.pendingSendingFin = c.tcb.pendingSendingFin)
      (hcancelled : c'.tcb.cancelled = c.tcb.cancelled) : CloseMove c ev o c'

section Closing

variable {c c' c₁ : Conn} {ev : Event} {l : Label} {m : Msg}

theorem Closing.snd (h : Closing c ev c₁) : c₁.tcb.snd = c.tcb.snd := by
  cases h <;> rfl

theorem Step.closing (h : Step c l c') : CloseMove c l.ev l.out c' := by
  have hm := h.moved
  generalize l.ev = ev at hm
  generalize l.out = o at hm
  cases hm with
  | closeWaits hc hne => exact .waits hc (hc.snd ▸ hne)
  | closes hc heq => exact .fin hc (hc.snd ▸ heq)
  | segment hin hh =>
    cases hh with
    | received hr hack hd ha =>
      obtain ⟨st', r, e, rfl⟩ := hd.frame
      obtain ⟨snd, q, cwnd, b, rfl⟩ := ha.frame
      exact .other (by simp) rfl rfl rfl
    | synSent iss hs _ _ hc' =>
      subst hc'
      exact .other (by simp) rfl rfl rfl
    | fin hs hf =>
      simp only [TCB.receiveFin]
      split
      · exact .other (by simp) rfl rfl rfl
      · split <;> exact .other (by simp) rfl rfl rfl
    | finWait2Fin hs hf _ hs' =>
      subst hs'
      exact .other (by simp) rfl rfl rfl
    | _ => exact .other (by simp) rfl rfl rfl
  | wrote hh hw =>
    obtain ⟨-, -, buffer, rfl, -⟩ := writeRound_wrote hw
    exact .other (by simp) rfl rfl rfl
  | read hr hh hin he | readWake hr he =>
    obtain ⟨n, -, rfl, -⟩ := he.consumed
    exact .other (by simp) rfl rfl rfl
  | send he =>
    generalize c.send = pc at he
    cases he <;> exact .other (by simp) rfl rfl rfl
  | handshakeGaveUp hev =>
    rcases hev with ⟨rfl, -⟩ | ⟨rfl, -⟩ <;> exact .other (by simp) rfl rfl rfl
  | handshakeResent hev =>
    rcases hev with ⟨rfl, -⟩ | ⟨rfl, -⟩ <;> exact .other (by simp) rfl rfl rfl
  | _ => exact .other (by simp) rfl rfl rfl

/-- Only `Close` changes what a close waits for. -/
theorem Step.close_kept (h : Step c l c') (hev : l.ev ≠ .close ∧ l.ev ≠ .closeWake) :
    c'.closeWaiting = c.closeWaiting ∧
      c'.tcb.pendingSendingFin = c.tcb.pendingSendingFin ∧
      c'.tcb.cancelled = c.tcb.cancelled := by
  have hm := h.closing
  generalize l.ev = ev at hm hev
  generalize l.out = o at hm
  cases hm with
  | waits hc | fin hc => cases hc <;> simp at hev
  | other _ hwaiting hpending hcancelled => exact ⟨hwaiting, hpending, hcancelled⟩

/-- While the FIN is not sent, a step leaves the close alone or makes it wait. -/
theorem Step.fin_unsent (h : Step c l c') (hc : c'.tcb.cancelled = false) :
    c.tcb.cancelled = false ∧
      (c.tcb.pendingSendingFin = true → c'.tcb.pendingSendingFin = true) ∧
      (0 < c'.closeWaiting ∨ c'.closeWaiting = c.closeWaiting ∧
        c'.tcb.pendingSendingFin = c.tcb.pendingSendingFin) := by
  have hm := h.closing
  generalize l.ev = ev at hm
  generalize l.out = o at hm
  cases hm with
  | waits hcl => cases hcl <;> exact ⟨hc, by simp, Or.inl (Nat.succ_pos _)⟩
  | fin => simp [Conn.sendFin] at hc
  | other _ hwaiting hpending hcancelled =>
    exact ⟨hcancelled ▸ hc, fun hp => hpending ▸ hp, Or.inr ⟨hwaiting, hpending⟩⟩

/-- Outside `Send` and `Close` the sender keeps its place, and nothing new is queued. -/
theorem Step.sender_kept (h : Step c l c') (hsend : l.ev ≠ .send)
    (hclose : l.ev ≠ .close ∧ l.ev ≠ .closeWake)
    (hstate : c.tcb.state ≠ .synSent ∧ c.tcb.state ≠ .synReceived) :
    c'.send = c.send ∧ c'.tcb.snd.nxt = c.tcb.snd.nxt ∧
      ∀ e ∈ c'.tcb.retransmissionQueue, e ∈ c.tcb.retransmissionQueue := by
  have hm := h.sender
  generalize l.ev = ev at hm hsend hclose
  simp only [← Conn.sender_pc c', ← Conn.sender_snd c', ← Conn.sender_queue c']
  generalize c'.sender = s at hm
  cases hm with
  | opened hs => exact absurd hs (not_or.mpr hstate)
  | finSent hev => rcases hev with rfl | ⟨rfl, -⟩ <;> simp at hclose
  | jump | segment | zeroExit => exact absurd rfl hsend
  | acked | lastAcked => exact ⟨rfl, rfl, fun e he => (List.dropWhile_sublist _).subset he⟩
  | _ => exact ⟨rfl, rfl, fun e he => he⟩

/-- Data goes out from the retransmission queue, the transmit loop or the probe. -/
theorem Step.data_emitted (h : Step c l c') (hm : m ∈ l.out.msgs) (hp : m.payload ≠ []) :
    (∃ p ∈ c.tcb.retransmissionQueue, m = c.tcb.resendMsg c.key p) ∨
      (l.ev = .send ∧ ∃ a b, c.send = .transmit a b ∧ b < a) ∨
      c.send = .zeroWait ∧ c.tcb.cancelled = false := by
  have he := h.emits hm
  generalize l.ev = ev at he
  cases he with
  | resent hp' => exact Or.inl ⟨_, hp', rfl⟩
  | data hpc hlt => exact Or.inr (Or.inl ⟨rfl, _, _, hpc, hlt⟩)
  | probe hz hc => exact Or.inr (Or.inr ⟨hz, hc⟩)
  | handshakeResent hev hm' => rcases hm' with rfl | rfl <;> exact absurd rfl hp
  | opening hs hm' => exact absurd hm'.1 hp
  | acked | fin | finCounted | finRepeated | closed => exact absurd rfl hp

end Closing

end TcpIp
