import TcpIp.Tcp.Control
import TcpIp.Tcp.Established
import TcpIp.Tcp.States

/-! Which duplicate acknowledgements lead to a fast retransmission. -/
namespace TcpIp

open Runs

namespace Conn

/-- An acknowledgement newer than SND.UNA is taken. -/
def newAck (c : Conn) : Event → Bool
  | .segment seg => c.takesAck seg.hdr
  | _ => false

/-- `Receive` gets a segment that is nothing but a repetition of the last acknowledgement. -/
def repeatsAck (c : Conn) : Event → Bool
  | .segment seg =>
    c.passesToReceive seg.hdr && seg.hdr.flags = tcpFlagAck && seg.payload.isEmpty &&
      seg.hdr.ackNum = c.tcb.snd.una
  | _ => false

/-- `fastRetransmit` is called. -/
def firesFast (c : Conn) : Event → Bool
  | .segment seg => c.fastRetransmits seg.hdr
  | _ => false

/-- However the connection goes on from here: once three pure duplicates have come in without a
newer acknowledgement, `fastRetransmit` has been called. -/
def FiresByThird (c : Conn) : Prop :=
  ∀ (tr : List (Move Conn Label)) (c' : Conn), Run Step c tr c' →
    (∀ x ∈ tr, x.src.newAck x.ev.ev = false) →
    3 ≤ tr.countP (fun x => x.src.repeatsAck x.ev.ev) →
    ∃ x ∈ tr, x.src.firesFast x.ev.ev = true

/-- Data is outstanding in ESTABLISHED with congestion control on. -/
structure Watching (c : Conn) : Prop where
  state : c.tcb.state = .established
  inTable : c.inTable = true
  enabled : c.tcb.cControlEnabled = true
  queue : c.tcb.retransmissionQueue ≠ []

/-- The counter stands for SND.UNA, and at one to three. -/
def Armed (c : Conn) : Prop :=
  c.tcb.currentAck = c.tcb.snd.una ∧ 1 ≤ c.tcb.currentAckFreq ∧ c.tcb.currentAckFreq ≤ 3

instance (c : Conn) : Decidable c.Armed := inferInstanceAs (Decidable (_ ∧ _))

/-- The states in which `Receive` is called. -/
def Receiving (c : Conn) : Prop :=
  c.tcb.state = .established ∨ c.tcb.state = .finWait1 ∨ c.tcb.state = .finWait2

end Conn

section Outstanding

variable {c c' : Conn} {seg : Segment} {out : List Msg} {l : Label}

theorem receiving_of_passes (hp : c.passesToReceive seg.hdr = true) : c.Receiving := by
  simp only [Conn.passesToReceive, Bool.and_eq_true] at hp
  unfold Conn.Receiving
  cases hs : c.tcb.state <;> simp [hs] at hp ⊢

/-- Without a newer acknowledgement, what is queued stays queued while `Receive` is called. -/
theorem Handled.queue_ne_nil (h : Handled c seg c' out)
    (hopen : c.tcb.state ≠ .synSent ∧ c.tcb.state ≠ .synReceived)
    (hnew : c.takesAck seg.hdr = false)
    (hq : c.Receiving → c.tcb.retransmissionQueue ≠ []) (hr : c'.Receiving) :
    c'.tcb.retransmissionQueue ≠ [] := by
  cases h with
  | ignored | finRepeated => exact hq hr
  | synSent iss hs => exact absurd hs hopen.1
  | synRepeated hs | accepted hs => exact absurd hs hopen.2
  | @received st u t o₁ o₂ hrec hack hd ha =>
    have hp := hrec.passes hack
    obtain ⟨st', r, e, rfl⟩ := hd.frame
    cases ha with
    | dropped b => exact hq (receiving_of_passes hp)
    | fast b => exact hq (receiving_of_passes hp)
    | accepted b hacc =>
      have hacc' : c.tcb.acceptsAck seg.hdr = true := hacc
      simp [Conn.takesAck, hp, hacc'] at hnew
  | fin hs hf =>
    have hsame : (c.tcb.receiveFin c.key seg.hdr).1.retransmissionQueue =
        c.tcb.retransmissionQueue := by
      unfold TCB.receiveFin
      split
      · rfl
      · split <;> rfl
    rw [hsame]
    exact hq (Or.inl hs)
  | finWait1Fin hs => exact hq (Or.inr (Or.inl hs))
  | finWait2Fin hs hf hseq hs' =>
    rw [hs']
    exact hq (Or.inr (Or.inr hs))
  | closingAcked | lastAcked => simp [Conn.Receiving] at hr

theorem Step.queue_ne_nil (h : Step c l c')
    (hopen : c.tcb.state ≠ .synSent ∧ c.tcb.state ≠ .synReceived) (hnew : c.newAck l.ev = false)
    (hq : c.Receiving → c.tcb.retransmissionQueue ≠ []) (hr : c'.Receiving) :
    c'.tcb.retransmissionQueue ≠ [] := by
  have hm := h.moved
  generalize l.ev = ev at hm hnew
  generalize l.out = o at hm
  cases hm with
  | segment hin hh => exact hh.queue_ne_nil hopen hnew hq hr
  | wrote hh hw =>
    obtain ⟨hs, hn, buffer, rfl, hb⟩ := writeRound_wrote hw
    exact hq hr
  | read _ _ _ he | readWake _ he =>
    obtain ⟨n, -, rfl, -⟩ := he.consumed
    exact hq hr
  | send he =>
    generalize c.send = pc at he
    cases he with
    | jump | zeroExit => exact hq hr
    | segment => simp [TCB.transmitted]
  | closeWaits hc =>
    cases hc with
    | enter | wake => exact hq hr
  | closes hc => simp [Conn.sendFin]
  | gaveUp | handshakeGaveUp | expired => simp [Conn.Receiving] at hr
  | notWritten | probe | closeReturn | timerStopped | timerIdle | resent | handshakeResent
  | ackToken | enableCC | initCC => exact hq hr

/-- SND.UNA moves with a newer acknowledgement only. -/
theorem Step.una_eq (h : Step c l c')
    (hopen : c.tcb.state ≠ .synSent ∧ c.tcb.state ≠ .synReceived)
    (hnew : c.newAck l.ev = false) : c'.tcb.snd.una = c.tcb.snd.una := by
  have hm := h.sender
  rw [← Conn.sender_snd c']
  generalize c'.sender = s at hm
  generalize l.ev = ev at hm hnew
  cases hm with
  | opened hs => exact absurd hs (not_or.mpr hopen)
  | acked ha => simp [Conn.newAck, ha] at hnew
  | _ => rfl

end Outstanding

/-- The counter has seen every duplicate since it stood at `f`, and has not gone past three. -/
structure DuplicatesCounted (a : U32) (f : ℕ) (tr : List (Move Conn Label)) (c : Conn) : Prop where
  opened : c.tcb.state ≠ .synSent ∧ c.tcb.state ≠ .synReceived
  queue : c.Receiving → c.tcb.retransmissionQueue ≠ []
  enabled : c.tcb.cControlEnabled = true
  una : c.tcb.snd.una = a
  current : c.tcb.currentAck = a
  seen : f + tr.countP (fun x => x.src.repeatsAck x.ev.ev) ≤ c.tcb.currentAckFreq
  high : c.tcb.currentAckFreq ≤ 3

section Counting

variable {c c' : Conn} {seg : Segment} {l : Label} {a : U32} {f : ℕ}
  {tr : List (Move Conn Label)}

theorem Conn.Watching.counting (hw : c.Watching) (ha : c.Armed) :
    DuplicatesCounted c.tcb.snd.una c.tcb.currentAckFreq [] c where
  opened := by simp [hw.state]
  queue := fun _ => hw.queue
  enabled := hw.enabled
  una := rfl
  current := ha.1
  seen := by simp
  high := ha.2.2

/-- A duplicate that does not fire finds the counter below three. -/
theorem DuplicatesCounted.freq_lt (hI : DuplicatesCounted a f tr c)
    (hp : c.passesToReceive seg.hdr = true)
    (hf : c.tcb.thirdDuplicate seg.hdr = false) (ha : seg.hdr.ackNum = a) :
    c.tcb.currentAckFreq < 3 := by
  have hlen := List.length_pos_iff.mpr (hI.queue (receiving_of_passes hp))
  have hne : c.tcb.currentAckFreq ≠ 3 := by
    intro h3
    simp [TCB.thirdDuplicate, hI.enabled, hI.current, ha, h3, hlen] at hf
  have := hI.high
  omega

theorem DuplicatesCounted.step (hI : DuplicatesCounted a f tr c) (h : Step c l c')
    (hnew : c.newAck l.ev = false)
    (hfast : c.firesFast l.ev = false) : DuplicatesCounted a f (tr ++ [⟨c, l, c'⟩]) c' := by
  have hm := h.control
  have hopen := h.not_opening hI.opened
  have hqueue := h.queue_ne_nil hI.opened hnew hI.queue
  have huna := (h.una_eq hI.opened hnew).trans hI.una
  generalize hk : c'.tcb.control = k at hm
  have hen : c'.tcb.cControlEnabled = k.enabled := hk ▸ rfl
  have hcur : c'.tcb.currentAck = k.currentAck := hk ▸ rfl
  have hfreq : c'.tcb.currentAckFreq = k.currentAckFreq := hk ▸ rfl
  clear hk
  have hseen := hI.seen
  have hhigh := hI.high
  -- a step that is not a duplicate leaves the counter alone
  have quiet (hno : c.repeatsAck l.ev = false) (h1 : c'.tcb.cControlEnabled = true)
      (h2 : c'.tcb.currentAck = c.tcb.currentAck)
      (h3 : c'.tcb.currentAckFreq = c.tcb.currentAckFreq) :
      DuplicatesCounted a f (tr ++ [⟨c, l, c'⟩]) c' :=
    ⟨hopen, hqueue, h1, huna, h2.trans hI.current, by simpa [hno, h3] using hseen, h3 ▸ hhigh⟩
  generalize hev : l.ev = ev at hm hnew hfast quiet
  cases hm with
  | same hseg hb =>
    refine quiet ?_ (hen.trans hI.enabled) hcur hfreq
    cases ev with
    | segment seg => simp [Conn.repeatsAck, hseg seg rfl]
    | _ => rfl
  | @dropped seg hp hf ha =>
    dsimp only at hen hcur hfreq
    rw [hI.current] at hfreq
    by_cases hack : seg.hdr.ackNum = a
    · rw [if_pos ⟨hI.enabled, hack⟩] at hfreq
      have hlt := hI.freq_lt hp hf hack
      refine ⟨hopen, hqueue, hen.trans hI.enabled, huna, hcur.trans hI.current, ?_, by omega⟩
      rw [List.countP_append, List.countP_singleton]
      split <;> omega
    · rw [if_neg fun h => hack h.2] at hfreq
      exact quiet (by simp [Conn.repeatsAck, hI.una, hack]) (hen.trans hI.enabled) hcur hfreq
  | acked ha => simp [Conn.newAck, ha] at hnew
  | fast hf => simp [Conn.firesFast, hf] at hfast
  | timedOut => exact quiet rfl (hen.trans hI.enabled) hcur hfreq
  | enableCC => exact quiet rfl hen hcur hfreq
  | initCC => exact quiet rfl (hen.trans hI.enabled) hcur hfreq

theorem Conn.Watching.firesByThird (hw : c.Watching) (ha : c.Armed) : c.FiresByThird := by
  intro tr c' hrun hnew hthree
  by_contra hnone
  have hno : ∀ x ∈ tr, x.src.newAck x.ev.ev = false ∧ x.src.firesFast x.ev.ev = false := by
    intro x hx
    refine ⟨hnew x hx, Bool.eq_false_of_not_eq_true fun hf => hnone ⟨x, hx, hf⟩⟩
  have hI : DuplicatesCounted c.tcb.snd.una c.tcb.currentAckFreq tr c' :=
    hrun.inv (I := DuplicatesCounted c.tcb.snd.una c.tcb.currentAckFreq) (hw.counting ha)
      (along_of_forall_mem hno) fun tr t e u hI hs hx => hI.step hs hx.1 hx.2
  have hseen := hI.seen
  have hhigh := hI.high
  have hlow := ha.2.1
  omega

end Counting

/-- A duplicate as the peer would send it. -/
def Conn.duplicateAck (c : Conn) : Segment where
  hdr := createTCPHeader c.key.destAddr c.key.localAddr c.key.destPort c.key.localPort
    c.tcb.rcv.nxt c.tcb.snd.una tcpFlagAck c.tcb.snd.wnd []
  payload := []
  payload_le := Segment.nil_le

section Duplicate

variable {c : Conn}

theorem passes_duplicateAck (hs : c.tcb.state = .established) :
    c.passesToReceive c.duplicateAck.hdr = true := by
  simp [Conn.passesToReceive, hs, Conn.duplicateAck, TCPFields.hasAck, TCPFields.hasFin,
    tcpFlagAck, tcpFlagFin]

theorem takesAck_duplicateAck : c.takesAck c.duplicateAck.hdr = false := by
  by_contra h
  simp only [Conn.takesAck, Bool.and_eq_true, Bool.not_eq_false] at h
  have hlt := una_lt_of_acceptsAck h.2
  exact absurd hlt (BitVec.lt_irrefl _)

theorem repeatsAck_duplicateAck (hs : c.tcb.state = .established) :
    c.repeatsAck (.segment c.duplicateAck) = true := by
  have hp := passes_duplicateAck hs
  simp [Conn.repeatsAck, hp]
  simp [Conn.duplicateAck]

theorem fastRetransmits_duplicateAck (hw : c.Watching) :
    c.fastRetransmits c.duplicateAck.hdr = true ↔
      c.tcb.snd.una = c.tcb.currentAck ∧ c.tcb.currentAckFreq = 3 := by
  have hp := passes_duplicateAck hw.state
  have hlen := List.length_pos_iff.mpr hw.queue
  have hnum : c.duplicateAck.hdr.ackNum = c.tcb.snd.una := rfl
  simp [Conn.fastRetransmits, hp, TCB.thirdDuplicate, hw.enabled, hlen, hnum]

theorem step_duplicateAck (hs : c.tcb.state = .established) (hin : c.inTable = true) (env : Env) :
    c.step env (.segment c.duplicateAck) =
      some ({ c with tcb := (c.tcb.receiveAck c.key env.now c.duplicateAck.hdr).1 },
        { msgs := (c.tcb.receiveAck c.key env.now c.duplicateAck.hdr).2 }) := by
  have hfin : c.duplicateAck.hdr.hasFin = false := by
    simp [Conn.duplicateAck, TCPFields.hasFin, tcpFlagAck, tcpFlagFin]
  have hack : c.duplicateAck.hdr.hasAck = true := by
    simp [Conn.duplicateAck, TCPFields.hasAck, tcpFlagAck]
  have hdata : c.tcb.receiveData c.key c.duplicateAck.hdr c.duplicateAck.payload =
      some (c.tcb, []) := rfl
  simp [Conn.step, hin, Conn.receivePacket, hs, Conn.handleEstablished, hfin, Conn.receive,
    TCB.receive, hack, hdata]

/-- An acknowledgement that is not taken leaves SND.UNA and the queue alone. -/
theorem AckEffect.kept {s t : TCB} {key : SocketData} {hdr : TCPFields} {out : List Msg}
    (h : AckEffect s key hdr t out) (ha : s.acceptsAck hdr = false) :
    t.snd = s.snd ∧ t.retransmissionQueue = s.retransmissionQueue ∧
      t.cControlEnabled = s.cControlEnabled := by
  cases h with
  | dropped | fast => exact ⟨rfl, rfl, rfl⟩
  | accepted b h => simp [h] at ha

/-- One more duplicate: the connection goes on as before, but for the counter and RTO. -/
theorem Conn.Watching.duplicate (hw : c.Watching) (env : Env) :
    ∃ out c₁, Step c ⟨.segment c.duplicateAck, out⟩ c₁ ∧ c₁.Watching ∧
      c₁.tcb.snd.una = c.tcb.snd.una ∧ c₁.tcb.currentAck = c.tcb.currentAck ∧
      (c.fastRetransmits c.duplicateAck.hdr = true →
        c₁.tcb.currentAckFreq = 0 ∧ c₁.tcb.rto = c.tcb.rto * 2) ∧
      (c.fastRetransmits c.duplicateAck.hdr = false →
        c₁.tcb.currentAckFreq =
          (if c.tcb.snd.una = c.tcb.currentAck then c.tcb.currentAckFreq + 1
            else c.tcb.currentAckFreq) ∧ c₁.tcb.rto = c.tcb.rto) := by
  have hp := passes_duplicateAck hw.state
  have htakes : c.takesAck c.duplicateAck.hdr = false := takesAck_duplicateAck
  have hacc : c.tcb.acceptsAck c.duplicateAck.hdr = false := by
    simpa [Conn.takesAck, hp] using htakes
  have hfast : c.fastRetransmits c.duplicateAck.hdr = c.tcb.thirdDuplicate c.duplicateAck.hdr := by
    simp [Conn.fastRetransmits, hp]
  have hstep := step_duplicateAck hw.state hw.inTable env
  generalize hack : c.tcb.receiveAck c.key env.now c.duplicateAck.hdr = r at hstep
  obtain ⟨hsnd, hq, hen⟩ := (receiveAck_effect hack).kept hacc
  have hst := (receiveAck_effect hack).state_eq
  refine ⟨_, _, ⟨env, hstep⟩, ⟨hst.trans hw.state, hw.inTable, hen.trans hw.enabled, hq ▸ hw.queue⟩,
    by rw [hsnd], ?_⟩
  rw [hfast]
  cases hf : c.tcb.thirdDuplicate c.duplicateAck.hdr with
  | true =>
    have hctl := receiveAck_fast c.key env.now hf
    rw [hack] at hctl
    exact ⟨congrArg Control.currentAck hctl,
      fun _ => ⟨congrArg Control.currentAckFreq hctl, congrArg Control.rto hctl⟩, by simp⟩
  | false =>
    have hctl := receiveAck_dropped c.key env.now hf hacc
    rw [hack] at hctl
    refine ⟨congrArg Control.currentAck hctl, by simp, fun _ => ⟨?_, congrArg Control.rto hctl⟩⟩
    have hfreq := congrArg Control.currentAckFreq hctl
    simp only [hw.enabled, true_and] at hfreq
    exact hfreq

/-- Duplicates that do not fire: they are not counted, or the counter stays short of three or is
past it. -/
theorem Conn.Watching.duplicates (n : ℕ) (hw : c.Watching)
    (hno : c.tcb.snd.una ≠ c.tcb.currentAck ∨ c.tcb.currentAckFreq + n ≤ 3 ∨
      3 < c.tcb.currentAckFreq) :
    ∃ tr c', Run Step c tr c' ∧ tr.length = n ∧ ∀ x ∈ tr, x.src.newAck x.ev.ev = false ∧
      x.src.repeatsAck x.ev.ev = true ∧ x.src.firesFast x.ev.ev = false := by
  induction n generalizing c with
  | zero => exact ⟨[], c, .nil, rfl, by simp⟩
  | succ n ih =>
    have hfast : c.fastRetransmits c.duplicateAck.hdr = false := by
      refine Bool.eq_false_of_not_eq_true fun hf => ?_
      obtain ⟨heq, h3⟩ := (fastRetransmits_duplicateAck hw).mp hf
      rcases hno with hne | hle | hgt
      · exact hne heq
      · omega
      · omega
    obtain ⟨out, c₁, hstep, hw₁, huna, hcur, -, hdup⟩ := hw.duplicate ⟨0, 0, true⟩
    have hfreq := (hdup hfast).1
    obtain ⟨tr, c', hrun, hlen, hall⟩ := ih hw₁ (by
      rw [huna, hcur]
      by_cases heq : c.tcb.snd.una = c.tcb.currentAck
      · rw [if_pos heq] at hfreq
        have hcount := hno.resolve_left (not_not.mpr heq)
        omega
      · exact Or.inl heq)
    refine ⟨_, c', hrun.cons hstep, by simp [hlen], fun x hx => ?_⟩
    rcases List.mem_cons.mp hx with rfl | hx
    · exact ⟨takesAck_duplicateAck, repeatsAck_duplicateAck hw.state, hfast⟩
    · exact hall x hx

theorem Conn.Watching.armed (hw : c.Watching) (h : c.FiresByThird) : c.Armed := by
  by_contra hno
  have hidle : c.tcb.snd.una ≠ c.tcb.currentAck ∨ c.tcb.currentAckFreq + 3 ≤ 3 ∨
      3 < c.tcb.currentAckFreq := by
    by_contra hcon
    simp only [not_or, not_not, not_le, not_lt] at hcon
    exact hno ⟨hcon.1.symm, by omega, hcon.2.2⟩
  obtain ⟨tr, c', hrun, hlen, hall⟩ := hw.duplicates 3 hidle
  have hcount : tr.countP (fun x => x.src.repeatsAck x.ev.ev) = 3 := by
    rw [← hlen, List.countP_eq_length]
    exact fun x hx => (hall x hx).2.1
  obtain ⟨x, hx, hfire⟩ := h tr c' hrun (fun x hx => (hall x hx).1) hcount.ge
  simp [(hall x hx).2.2] at hfire

/-- Three duplicates lead to a fast retransmission, however the connection goes on, exactly where
the counter stands for SND.UNA and is at one to three when they begin to come in. -/
theorem firesByThird_iff_armed (hw : c.Watching) : c.FiresByThird ↔ c.Armed :=
  ⟨hw.armed, hw.firesByThird⟩

/-- A byte acknowledged with congestion control on, and the next one sent. -/
def secondByte : List Event :=
  [.segment (Segment.fromPeer 499 100 18 1000 [] Segment.nil_le), .enableCC, .initCC, .write [1],
    .send, .send, .segment (Segment.fromPeer 500 101 16 1000 [] Segment.nil_le), .write [2], .send,
    .send]

theorem firesByThird_iff_armed_secondByte :
    let c := ((Conn.connect ⟨1, 1000, 2, 2000⟩ 99).play secondByte).2
    c.Armed ∧ (c.FiresByThird ↔ c.Armed) :=
  ⟨by decide, firesByThird_iff_armed ⟨by decide, by decide, by decide, by decide⟩⟩

/-- As before, but the peer sends three bytes of its own while nothing is outstanding. -/
def secondByteAfterData : List Event :=
  [.segment (Segment.fromPeer 499 100 18 1000 [] Segment.nil_le), .enableCC, .initCC, .write [1],
    .send, .send, .segment (Segment.fromPeer 500 101 16 1000 [] Segment.nil_le),
    .segment (Segment.fromPeer 500 101 16 1000 [7] (Nat.le_add_left 1 65534)),
    .segment (Segment.fromPeer 501 101 16 1000 [8] (Nat.le_add_left 1 65534)),
    .segment (Segment.fromPeer 502 101 16 1000 [9] (Nat.le_add_left 1 65534)), .write [2], .send,
    .send]

/-- The counter is past three when the second byte goes out, and no duplicate finds it at three. -/
theorem third_duplicate_ignored :
    ¬ ∀ (c₀ c : Conn) (tr : List (Move Conn Label)), Opening c₀ → Run Step c₀ tr c →
      (∃ x ∈ tr.getLast?, ∃ m ∈ x.ev.out.msgs, m.origin = .data) → c.Watching →
      c.FiresByThird := by
  intro h
  have hrun := Conn.play_run (Conn.connect ⟨1, 1000, 2, 2000⟩ 99) secondByteAfterData
  have hthird := h _ _ _ (opening_connect _ _) hrun (by decide)
    ⟨by decide, by decide, by decide, by decide⟩
  have hdups := Conn.play_run ((Conn.connect ⟨1, 1000, 2, 2000⟩ 99).play secondByteAfterData).2
    [.segment (Segment.fromPeer 503 101 16 1000 [] Segment.nil_le),
      .segment (Segment.fromPeer 503 101 16 1000 [] Segment.nil_le),
      .segment (Segment.fromPeer 503 101 16 1000 [] Segment.nil_le)]
  exact absurd (hthird _ _ hdups (by decide) (by decide)) (by decide)

end Duplicate

end TcpIp
