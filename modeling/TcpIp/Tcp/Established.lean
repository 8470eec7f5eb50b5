import TcpIp.Tcp.Sender

/-! Connections as the handshake leaves them. -/
namespace TcpIp

open Runs

/-- Nothing written, read, queued or closed yet. -/
structure Untouched (c : Conn) : Prop where
  lbw : c.tcb.snd.lbw = c.tcb.snd.nxt
  queue : c.tcb.retransmissionQueue = []
  lbr : c.tcb.rcv.lbr = c.tcb.rcv.nxt
  wnd : c.tcb.rcv.wnd = maxBufSize
  early : c.tcb.earlyArrivals = []
  pendingReceivedFin : c.tcb.pendingReceivedFin = 0
  pendingSendingFin : c.tcb.pendingSendingFin = false
  cancelled : c.tcb.cancelled = false
  timeoutCancelled : c.tcb.timeoutCancelled = false
  congestion : c.tcb.cControlEnabled = false
  cwnd : c.tcb.cwnd = maxBufSize
  reading : c.reading = none
  closeWaiting : c.closeWaiting = 0
  closeSent : c.closeSent = 0
  waitForClosed : c.waitForClosed = 0
  closedNotice : c.closedNotice = false

/-- A connection that has just become ESTABLISHED. The passive side learns the peer's window
from the last ACK of the handshake but leaves SND.UNA at its SYN. -/
structure Established (c : Conn) : Prop extends Untouched c where
  state : c.tcb.state = .established
  send : c.send = .top
  inTable : c.inTable = true
  una : c.tcb.snd.una = c.tcb.snd.nxt ∨ c.tcb.snd.una + 1 = c.tcb.snd.nxt

/-- A connection before ESTABLISHED: the active side has its SYN out, the passive side its
SYN-ACK. -/
structure Opening (c : Conn) : Prop extends Untouched c where
  state : c.tcb.state = .synSent ∨ c.tcb.state = .synReceived ∨ c.tcb.state = .closed
  send : c.send = .notStarted
  timer : c.timer = false
  iss : c.tcb.state = .synSent → c.passive = false ∧ c.tcb.snd.iss + 1 = c.tcb.snd.nxt
  una : c.passive = true → c.tcb.snd.una + 1 = c.tcb.snd.nxt

theorem opening_connect (key : SocketData) (iss : U32) : Opening (Conn.connect key iss) := by
  constructor
  · constructor <;> rfl
  all_goals simp [Conn.connect]

theorem opening_handleStateListen (localAddr : U32) (key : SocketData) (iss : U32)
    (hdr : TCPFields) : Opening (Conn.handleStateListen localAddr key iss hdr) := by
  constructor
  · constructor <;> rfl
  all_goals simp [Conn.handleStateListen]

section Handshake

variable {c c' : Conn} {seg : Segment} {out : List Msg} {l : Label}

/-- The segment takes the connection to ESTABLISHED on the way that starts its `Send`: the SYN-ACK
of the own SYN on the active side, the ACK of the SYN-ACK on the passive side. -/
def Conn.OpensBy (c : Conn) (seg : Segment) : Prop :=
  (seg.hdr.hasAck = false → seg.hdr.ackNum = 0) ∧ (c.tcb.state = .synReceived → c.passive = true)

/-- A segment takes an opening connection to ESTABLISHED or leaves it opening. -/
theorem Opening.handled (ho : Opening c) (hin : c.inTable = true) (h : Handled c seg c' out) :
    Opening c' ∨ Untouched c' ∧ c'.tcb.state = .established ∧
      (c.OpensBy seg → Established c') := by
  have hstate := ho.state
  cases h with
  | ignored | synRepeated => exact Or.inl ho
  | synSent iss hs hsyn hrange hc' =>
    obtain ⟨hpassive, hiss⟩ := ho.iss hs
    by_cases hgt : seg.hdr.ackNum > c.tcb.snd.iss
    · simp only [if_pos hgt] at hc'
      subst hc'
      refine Or.inr ⟨{ ho.toUntouched with lbr := rfl }, rfl, fun hack => ?_⟩
      -- an unset acknowledgement number is not past the initial one
      have hflag : seg.hdr.hasAck = true := by
        by_contra hno
        rw [hack.1 (Bool.eq_false_of_not_eq_true hno)] at hgt
        bv_omega
      have huna : seg.hdr.ackNum = c.tcb.snd.nxt := by
        have := hrange hflag
        bv_omega
      exact
        { ho.toUntouched with
          lbr := rfl
          state := rfl
          send := rfl
          inTable := hin
          una := Or.inl huna }
    · simp only [if_neg hgt] at hc'
      subst hc'
      exact Or.inl
        { ho.toUntouched with
          lbr := rfl
          state := by simp
          send := ho.send
          timer := ho.timer
          iss := by simp
          una := by simp [hpassive] }
  | accepted hs =>
    refine Or.inr ⟨{ ho.toUntouched with }, rfl, fun hopens => ?_⟩
    have hpassive := hopens.2 hs
    exact
      { ho.toUntouched with
        state := rfl
        send := if_pos hpassive
        inTable := hin
        una := Or.inr (ho.una hpassive) }
  | received hr => cases hr <;> simp_all
  | fin hs | finWait1Fin hs | finWait2Fin hs | closingAcked hs | lastAcked k hs => simp_all
  | finRepeated hs => rcases hs with hs | hs <;> simp_all

/-- Before ESTABLISHED the connection has only its handshake steps. -/
theorem Opening.step (ho : Opening c) (h : Step c l c') :
    Opening c' ∨ Untouched c' ∧ c'.tcb.state = .established ∧
      ((∀ seg, l.ev = .segment seg → c.OpensBy seg) → Established c') := by
  have hhandle : c.hasHandle = false := by simp [Conn.hasHandle, ho.send]
  have hm := h.moved
  generalize l.ev = ev at hm
  generalize l.out = o at hm
  cases hm with
  | segment hin hh =>
    exact (ho.handled hin hh).imp id fun h => ⟨h.1, h.2.1, fun hack => h.2.2 (hack _ rfl)⟩
  | notWritten => exact Or.inl ho
  | send he =>
    rw [ho.send] at he
    cases he with
    | jump hj hi =>
      cases hi (Or.inl rfl)
      exact Or.inl { ho with send := rfl }
  | handshakeGaveUp =>
    exact Or.inl { ho with state := Or.inr (Or.inr rfl), iss := by simp }
  | handshakeResent => exact Or.inl { ho with }
  | wrote hh | read hr hh | ackToken hh | enableCC hh => simp [hhandle] at hh
  | closeWaits hc | closes hc =>
    cases hc with
    | enter hh => simp [hhandle] at hh
    | wake hw => simp [ho.closeWaiting] at hw
  | timerStopped ht | timerIdle ht | gaveUp ht | resent b ht => simp [ho.timer] at ht
  | readWake hr => simp [ho.reading] at hr
  | probe hz => simp [ho.send] at hz
  | closeReturn hn => simp [ho.closedNotice] at hn
  | expired hw => simp [ho.waitForClosed] at hw
  | initCC hcc => simp [ho.congestion] at hcc

/-- The first ESTABLISHED state of a run of the handshake is one that `Established` describes. -/
theorem established_of_run {tr : List (Move Conn Label)} (ho : Opening c)
    (h : Run Step c tr c')
    (hopens : ∀ x ∈ tr, ∀ seg, x.ev.ev = .segment seg → x.src.OpensBy seg)
    (hfirst : ∀ x ∈ tr, x.src.tcb.state ≠ .established) (hest : c'.tcb.state = .established) :
    Established c' := by
  have hinv : Opening c' ∨ Established c' := by
    refine h.state_inv (I := fun t => Opening t ∨ Established t)
      (P := fun x => x.src.tcb.state ≠ .established ∧ ∀ seg, x.ev.ev = .segment seg →
        x.src.OpensBy seg) (Or.inl ho) (fun x hx => ⟨hfirst x hx, hopens x hx⟩) ?_
    rintro t l u (ht | ht) hs ⟨hne, hseg⟩
    · exact (ht.step hs).imp id fun h => h.2.2 hseg
    · exact absurd ht.state hne
  rcases hinv with ho' | he
  · have hstate := ho'.state
    simp [hest] at hstate
  · exact he

end Handshake

section Sample

/-- An established connection: `una` acknowledged, own data from `f` on, the peer's from `g`. -/
def Conn.fresh (una f g : U32) : Conn where
  localAddr := 1
  key := ⟨1, 1000, 2, 2000⟩
  passive := false
  tcb :=
    { state := .established
      snd := ⟨fun _ => 0, una, f, maxBufSize, una, f⟩
      rcv := ⟨fun _ => 0, g, maxBufSize, g - 1, g⟩
      rto := rtoUpper
      srtt := -1
      cwnd := maxBufSize }
  send := .top
  timer := true

theorem established_fresh {una f g : U32} (h : una = f ∨ una + 1 = f) :
    Established (Conn.fresh una f g) where
  state := rfl
  send := rfl
  inTable := rfl
  una := h
  lbw := rfl
  queue := rfl
  lbr := rfl
  wnd := rfl
  early := rfl
  pendingReceivedFin := rfl
  pendingSendingFin := rfl
  cancelled := rfl
  timeoutCancelled := rfl
  congestion := rfl
  cwnd := rfl
  reading := rfl
  closeWaiting := rfl
  closeSent := rfl
  waitForClosed := rfl
  closedNotice := rfl

/-- A segment from the peer of `Conn.fresh`. -/
def Segment.fromPeer (seqNum ackNum : U32) (flags : U8) (windowSize : U16) (payload : List U8)
    (payload_le : payload.length ≤ 65535) : Segment where
  hdr :=
    { srcPort := 2000, dstPort := 1000, seqNum, ackNum, dataOffset := 20, flags, windowSize,
      checksum := 0, urgentPointer := 0 }
  payload
  payload_le

/-- One event as a function, at a fixed clock and with a listener in the table. -/
def Conn.next (c : Conn) (ev : Event) : Option (Label × Conn) :=
  (c.step ⟨0, 0, true⟩ ev).map fun r => (⟨ev, r.2⟩, r.1)

/-- The run a list of events makes. -/
def Conn.play (c : Conn) (events : List Event) : List (Move Conn Label) × Conn :=
  Runs.play Conn.next c events

theorem Conn.play_run (c : Conn) (events : List Event) :
    Run Step c (c.play events).1 (c.play events).2 :=
  play_map_run Label.mk (fun _ _ _ _ h => ⟨_, h⟩) c events

end Sample

end TcpIp
