import TcpIp.Tcp.Receiver
import TcpIp.Tcp.Sender

/-! A connection that is only read from, by calls that take whatever is there. -/
namespace TcpIp

/-- The events of a connection whose application only reads, without asking for a full buffer. -/
def Event.ofReader : Event → Bool
  | .read _ readAll => !readAll
  | .segment _ | .readWake | .send | .probe | .timeout | .ackToken | .expire => true
  | _ => false

/-- A call of `Read` that takes whatever is there and has found nothing yet. -/
structure ReadCall.Fresh (call : ReadCall) : Prop where
  readAll : call.readAll = false
  amountReadSoFar : call.amountReadSoFar = 0
  data : call.data = []

/-- What a pass of such a call comes to: it waits or ends the stream only where there is nothing
to read, it returns as many bytes as it says, and it fails only on a connection that gave up. -/
inductive FreshOutcome (s : TCB) : ReadOutcome → Prop
  | waiting {call : ReadCall} (h : call.Fresh) : FreshOutcome s (.waiting call)
  | eof (h : s.rcv.lbr = s.rcv.nxt) (hend : s.state = .closeWait ∨ s.timeoutCancelled = true) :
      FreshOutcome s .eof
  | returned {amountRead : U32} {data : List U8}
      (h : (s.rcv.nxt - s.rcv.lbr).toNat ≤ 65535 → data.length = amountRead.toNat) :
      FreshOutcome s (.returned amountRead data)
  | failed (h : s.timeoutCancelled = true) : FreshOutcome s .failed

/-- Nothing was ever written to the connection, so it has nothing to send, to resend or to give
up on. -/
structure Conn.Silent (c : Conn) : Prop where
  sent : c.tcb.snd.nxt = c.tcb.snd.lbw
  queue : c.tcb.retransmissionQueue = []
  zeroWait : c.send ≠ .zeroWait
  transmit : ∀ a b, c.send ≠ .transmit a b
  kept : c.tcb.timeoutCancelled = false
  reading : ∀ call, c.reading = some call → call.Fresh

section Fresh

variable {s : TCB} {call : ReadCall} {c c' : Conn} {l : Label}

theorem readRun_fresh (h : call.Fresh) : FreshOutcome s (s.readRun call).2 := by
  have hso := h.amountReadSoFar
  unfold TCB.readRun
  by_cases hlt : call.amountReadSoFar < call.amountToRead
  swap
  · rw [TCB.readLoop, if_neg hlt]
    exact .returned fun _ => by simp [h.data, hso]
  by_cases heq : s.rcv.lbr = s.rcv.nxt
  · rw [TCB.readLoop, if_pos hlt, if_pos heq, if_neg (by simp [hso])]
    split
    · rename_i hend
      exact .eof heq hend
    · exact .waiting h
  · -- the copy takes at least a byte, and then all that is wanted or all there is
    obtain ⟨fuel, hfuel⟩ : ∃ fuel, call.amountToRead.toNat = fuel + 1 :=
      Nat.exists_eq_add_one.mpr (by bv_omega)
    have hsum : (s.readCopy call).2.amountReadSoFar = s.available call := by
      show call.amountReadSoFar + s.available call = _
      simp [hso]
    have hcopied : (s.readCopy call).2.amountReadSoFar > 0 := by
      rw [hsum]
      unfold TCB.available
      split <;> bv_omega
    have hdone : (s.readCopy call).2.amountReadSoFar < (s.readCopy call).2.amountToRead →
        (s.readCopy call).1.rcv.lbr = (s.readCopy call).1.rcv.nxt := by
      rw [hsum]
      show s.available call < call.amountToRead → s.rcv.lbr + s.available call = s.rcv.nxt
      unfold TCB.available
      split <;> bv_omega
    have hcount : (s.rcv.nxt - s.rcv.lbr).toNat ≤ 65535 →
        (s.readCopy call).2.data.length = (s.readCopy call).2.amountReadSoFar.toNat := by
      intro hle
      rw [readCopy_eq hle, hsum]
      simp [h.data]
    have hall : ¬ (s.readCopy call).2.readAll = true := by
      show ¬ call.readAll = true
      simp [h.readAll]
    rw [TCB.readLoop, if_pos hlt, if_neg heq, hfuel]
    simp only
    rw [TCB.readLoop]
    split
    · rename_i hmore
      rw [if_pos (hdone hmore), if_pos ⟨hall, hcopied⟩]
      exact .returned hcount
    · exact .returned hcount

theorem read_fresh (n : U32) : FreshOutcome s (s.read n false).2 := by
  unfold TCB.read
  split
  · rename_i h
    exact .failed h
  · split
    · rename_i h
      exact .eof h.2 (Or.inl h.1)
    · exact readRun_fresh ⟨rfl, rfl, rfl⟩

theorem Event.ne_read_of_ofReader {ev : Event} (h : ev.ofReader = true) (n : U32) :
    ev ≠ .read n true := by
  rintro rfl
  cases h

/-- A step leaves the call of `Read` alone, or it is a pass of it. -/
theorem Step.fresh (h : Step c l c') (hcall : ∀ call, c.reading = some call → call.Fresh)
    (hev : ∀ n, l.ev ≠ .read n true) :
    c'.reading = c.reading ∧ l.out.read = none ∨
      ∃ o, FreshOutcome c.tcb o ∧ c'.reading = o.pending ∧ l.out.read = o.shown := by
  obtain ⟨env, hs⟩ := id h
  have hm := h.receiver
  cases hl : l.ev with
  | read n readAll =>
    rw [hl] at hs
    obtain rfl : readAll = false := by
      cases readAll with
      | false => rfl
      | true => exact absurd hl (hev n)
    simp only [Conn.step] at hs
    split at hs
    · rw [applyRead_eq] at hs
      simp only [Option.some.injEq, Prod.mk.injEq] at hs
      obtain ⟨rfl, hout⟩ := hs
      exact Or.inr ⟨(c.tcb.read n false).2, read_fresh n, rfl, by rw [← hout]⟩
    · cases hs
  | readWake =>
    rw [hl] at hs
    obtain ⟨call, hsome, hs⟩ := Option.map_eq_some_iff.mp hs
    rw [applyRead_eq] at hs
    obtain ⟨rfl, hout⟩ := Prod.mk.inj hs
    exact Or.inr ⟨(c.tcb.readRun call).2, readRun_fresh (hcall call hsome), rfl, by rw [← hout]⟩
  | _ =>
    rw [hl] at hm
    refine Or.inl ?_
    generalize ho : l.out.read = o at hm
    generalize hr : c'.receiver = r at hm
    have hreading : c'.reading = r.reading := congrArg Receiver.reading hr
    rw [hreading]
    cases hm with
    | read hc => cases hc
    | _ => exact ⟨rfl, rfl⟩

theorem FreshOutcome.pending {o : ReadOutcome} (h : FreshOutcome s o)
    (hp : o.pending = some call) : call.Fresh := by
  cases h with
  | waiting hf =>
    obtain rfl := Option.some.inj hp
    exact hf
  | eof | returned | failed => cases hp

end Fresh

section Silent

variable {c c' : Conn} {ev : Event} {l : Label} {snd : Sender}

theorem waitTimeout_silent {s : TCB} (key : SocketData) (now : Int64)
    (hq : s.retransmissionQueue = []) :
    s.waitTimeout key now = .stop ∨ s.waitTimeout key now = .idle := by
  have heff : TimeoutEffect s key (s.waitTimeout key now) := waitTimeout_effect
  generalize s.waitTimeout key now = r at heff
  cases heff with
  | stop => exact Or.inl rfl
  | idle => exact Or.inr rfl
  | giveUp hne => exact absurd hq hne
  | resent _ _ hne => simp [hq] at hne

/-- With nothing to retransmit the timer never gives up. -/
theorem Step.not_givenUp (h : Step c l c') (hq : c.tcb.retransmissionQueue = [])
    (hc : c.tcb.timeoutCancelled = false) : c'.tcb.timeoutCancelled = false := by
  have htimeout : l.ev = .timeout → c'.tcb = c.tcb := by
    intro hl
    obtain ⟨env, hs⟩ := h
    rw [hl] at hs
    simp only [Conn.step] at hs
    split at hs
    · rcases waitTimeout_silent c.key env.now hq with hr | hr
      all_goals
        rw [hr] at hs
        obtain ⟨rfl, -⟩ := Prod.mk.inj (Option.some.inj hs)
        rfl
    · cases hs
  have hm := h.moved
  generalize l.ev = ev at hm htimeout
  generalize l.out = o at hm
  cases hm with
  | gaveUp => rw [htimeout rfl, hc]
  | segment hin hh =>
    cases hh with
    | received hr hack hd ha =>
      obtain ⟨st', r, e, rfl⟩ := hd.frame
      obtain ⟨snd, q, cwnd, b, rfl⟩ := ha.frame
      exact hc
    | synSent iss hs _ _ hc' =>
      subst hc'
      exact hc
    | fin =>
      simp only [TCB.receiveFin]
      split
      · exact hc
      · split <;> exact hc
    | finWait2Fin hs hf _ hs' =>
      subst hs'
      exact hc
    | _ => exact hc
  | wrote hh hw =>
    obtain ⟨-, -, buffer, rfl, -⟩ := writeRound_wrote hw
    exact hc
  | read hr hh hin he | readWake hr he =>
    obtain ⟨n, -, rfl, -⟩ := he.consumed
    exact hc
  | send he =>
    generalize c.send = pc at he
    cases he <;> exact hc
  | closeWaits hcl | closes hcl => cases hcl <;> exact hc
  | _ => exact hc

theorem Conn.Silent.sender (h : c.Silent) (hm : SenderMove c ev snd)
    (hopen : c.tcb.state ≠ .synSent ∧ c.tcb.state ≠ .synReceived) (hev : ev.ofReader = true) :
    snd.snd.nxt = snd.snd.lbw ∧ snd.queue = [] ∧ snd.pc ≠ .zeroWait ∧
      ∀ a b, snd.pc ≠ .transmit a b := by
  have hsame := And.intro h.sent (And.intro h.queue (And.intro h.zeroWait h.transmit))
  cases hm with
  | same | loss => exact hsame
  | opened hs => exact absurd hs (not_or.mpr hopen)
  | wrote | initCC | enableCC => cases hev
  | finSent hc => rcases hc with rfl | ⟨rfl, -⟩ <;> cases hev
  | segment hpc => exact absurd hpc (h.transmit _ _)
  | zeroExit hpc => exact absurd hpc h.zeroWait
  | acked | lastAcked => exact ⟨h.sent, by simp [h.queue], h.zeroWait, h.transmit⟩
  | @jump pc hj =>
    refine ⟨h.sent, h.queue, ?_⟩
    have hz := h.zeroWait
    have ht := h.transmit
    generalize c.send = pc₀ at hj hz ht
    cases hj with
    | idle => exact ⟨hz, ht⟩
    | transmit hdata => exact absurd h.sent hdata
    | zeroWait _ hdata => simp [h.sent] at hdata
    | _ => simp

/-- The reader of a connection stays silent. -/
theorem Conn.Silent.step (h : c.Silent) (hs : Step c l c')
    (hopen : c.tcb.state ≠ .synSent ∧ c.tcb.state ≠ .synReceived) (hev : l.ev.ofReader = true) :
    c'.Silent := by
  obtain ⟨hsent, hqueue, hzero, htransmit⟩ := h.sender hs.sender hopen hev
  refine ⟨hsent, hqueue, hzero, htransmit, hs.not_givenUp h.queue h.kept, fun call hcall => ?_⟩
  rcases hs.fresh h.reading (Event.ne_read_of_ofReader hev) with ⟨hsame, -⟩ | ⟨o, ho, hpending, -⟩
  · exact h.reading call (hsame ▸ hcall)
  · exact ho.pending (hpending ▸ hcall)

end Silent

end TcpIp
