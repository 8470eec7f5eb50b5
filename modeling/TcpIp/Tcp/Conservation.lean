import TcpIp.Tcp.States
import TcpIp.Tcp.Established
import TcpIp.Tcp.Receiver

/-! The receive window against the unread data, and what `Read` can return. -/
namespace TcpIp

open Runs

/-- Window and unread bytes make up the buffer. -/
def Conserved (c : Conn) : Prop :=
  c.tcb.rcv.wnd.toNat + (c.tcb.rcv.nxt - c.tcb.rcv.lbr).toNat = 65535

instance (c : Conn) : Decidable (Conserved c) := inferInstanceAs (Decidable (_ = _))

/-- A segment that came in carried `b` as the byte with number `q`. -/
def Carried (tr : List (Move Conn Label)) (q : ℕ) (b : U8) : Prop :=
  ∃ y ∈ tr, ∃ seg j, y.ev.ev = .segment seg ∧ seg.payload[j]? = some b ∧
    q = seg.hdr.seqNum.toNat + j

/-- The `k`-th byte before LBR, counted up from there, is one that `R` allows. -/
def EndsAt (R : ℕ → U8 → Prop) (lbr : ℕ) (data : List U8) : Prop :=
  data.length ≤ lbr ∧ ∀ j b, data[j]? = some b → R (lbr - data.length + j) b

/-- A call of `Read` that returns hands out bytes that had come in, the last ones before LBR. -/
def ReturnsCarried (pre : List (Move Conn Label)) (x : Move Conn Label) : Prop :=
  ∀ n data, x.ev.out.read = some (.returned n data) →
    EndsAt (Carried pre) x.dst.tcb.rcv.lbr.toNat data

/-- The receiving half after a run in which no FIN was counted. -/
structure Receiving (tr : List (Move Conn Label)) (c : Conn) : Prop where
  opening : c.tcb.state = .synSent → Opening c
  holding : c.receiver.Holding (Carried tr) (2 ^ 32 - 1)
  reading : ∀ call, c.reading = some call →
    EndsAt (Carried tr) c.tcb.rcv.lbr.toNat call.data

section Conservation

variable {c c' : Conn} {l : Label} {tr : List (Move Conn Label)} {x : Move Conn Label}
  {R R' : ℕ → U8 → Prop} {hi : ℕ}

theorem Carried.mono {q : ℕ} {b : U8} (h : Carried tr q b) : Carried (tr ++ [x]) q b := by
  obtain ⟨y, hy, h⟩ := h
  exact ⟨y, List.mem_append_left _ hy, h⟩

theorem EndsAt.mono {lbr : ℕ} {data : List U8} (h : EndsAt R lbr data)
    (hR : ∀ q b, R q b → R' q b) : EndsAt R' lbr data :=
  ⟨h.1, fun j b hb => hR _ _ (h.2 j b hb)⟩

/-- Nothing is held yet, and the window is the whole buffer. -/
theorem Untouched.holding (h : Untouched c) (hhi : c.tcb.rcv.nxt.toNat ≤ hi) :
    c.receiver.Holding R hi where
  lbr_le := by simp [h.lbr]
  nxt_le := hhi
  wnd := by
    simp [h.lbr, h.wnd]
    omega
  held q hq hq' := by
    simp only [Conn.receiver_rcv, h.lbr] at hq hq'
    omega
  early := by simp [h.early]

theorem Receiver.Holding.conserved (h : c.receiver.Holding R hi) : Conserved c := by
  have hunread := h.unread_le
  have hwnd := h.wnd
  have hle := h.lbr_le
  simp only [Conn.receiver_rcv] at hunread hwnd hle
  unfold Conserved
  omega

/-- The bytes of a call so far, with those it copies now, end at the new LBR. -/
theorem EndsAt.append {s : TCB} {call : Option ReadCall} {n : U32} {data : List U8}
    (hd : EndsAt R s.rcv.lbr.toNat data)
    (h : (⟨s.rcv, s.earlyArrivals, call⟩ : Receiver).Holding R hi)
    (hn : s.rcv.lbr.toNat + n.toNat ≤ s.rcv.nxt.toNat) :
    EndsAt R (s.rcv.lbr.toNat + n.toNat)
      (data ++ Ring.load 65535 s.rcv.buffer s.rcv.lbr.toNat n.toNat) := by
  obtain ⟨hlen, hall⟩ := hd
  refine ⟨by simp; omega, fun j b hb => ?_⟩
  rw [List.length_append, Ring.load_length]
  rcases Nat.lt_or_ge j data.length with hj | hj
  · rw [List.getElem?_append_left hj] at hb
    have := hall j b hb
    convert this using 1
    omega
  · rw [List.getElem?_append_right hj] at hb
    have := h.held.load (Nat.le_refl _) hn hb
    convert this using 1
    show _ = s.rcv.lbr.toNat + _
    omega

/-- A call of `Read`, entered or woken: what it returns, and what it keeps while it waits. -/
theorem Receiving.read (hI : Receiving tr c) {ev : Event} {call : ReadCall} {t : TCB}
    {o : ReadOutcome} (hcall : ReadCalls c ev call o) (he : ReadEffect c.tcb call t o) :
    (⟨t.rcv, c.tcb.earlyArrivals, o.pending⟩ : Receiver).Holding (Carried tr) (2 ^ 32 - 1) ∧
      (∀ call', o.pending = some call' → EndsAt (Carried tr) t.rcv.lbr.toNat call'.data) ∧
      ∀ n data, o.shown = some (.returned n data) →
        EndsAt (Carried tr) t.rcv.lbr.toNat data := by
  obtain ⟨n, hn, rfl, hdel⟩ := he.consumed
  obtain ⟨hhold, hlbr, hle⟩ := Receiver.Holding.read (o := o.pending) hI.holding hn
  have hdel := hdel (by
    have := hI.holding.unread_le
    simp only [Conn.receiver_rcv] at this
    omega)
  have hdata : EndsAt (Carried tr) c.tcb.rcv.lbr.toNat call.data := by
    cases hcall with
    | enter => exact ⟨Nat.zero_le _, by simp⟩
    | wake hr => exact hI.reading _ hr
  have hends := hdata.append hI.holding hle
  rw [← hlbr] at hends
  refine ⟨hhold, fun call' hp => ?_, fun m data hs => ?_⟩
  · cases o with
    | waiting call₁ =>
      cases hp
      rw [show call'.data = _ from hdel]
      exact hends
    | _ => cases hp
  · cases o with
    | returned m' data' =>
      cases hs
      rw [show data = _ from hdel]
      exact hends
    | _ => cases hs

/-- A taken segment ends below the last sequence number: the window test fails across it. -/
theorem Receiver.Holding.end_lt {s : TCB} {call : Option ReadCall} {start : U32} {k : ℕ}
    (h : (⟨s.rcv, s.earlyArrivals, call⟩ : Receiver).Holding R hi)
    (hlo : s.rcv.nxt ≤ start) (hup : start < s.rcv.nxt + s.rcv.wnd)
    (hfit : k ≤ s.rcv.room start) : start.toNat + k ≤ 2 ^ 32 - 1 := by
  have hwnd : s.rcv.wnd.toNat + s.rcv.nxt.toNat = s.rcv.lbr.toNat + 65535 := h.wnd
  have hroom : start.toNat + s.rcv.room start = s.rcv.lbr.toNat + 65535 :=
    h.room hlo (by simp only; bv_omega)
  have hedge : s.rcv.nxt.toNat + s.rcv.wnd.toNat < 2 ^ 32 := by bv_omega
  omega

/-- The receiving half after one step that counts no FIN. -/
theorem Receiving.step_holding (hI : Receiving tr c) (hs : Step c l c')
    (hfin : c.countsFin l.ev = false) :
    c'.receiver.Holding (Carried (tr ++ [⟨c, l, c'⟩])) (2 ^ 32 - 1) := by
  have hmono : c.receiver.Holding (Carried (tr ++ [⟨c, l, c'⟩])) (2 ^ 32 - 1) :=
    hI.holding.mono (Nat.le_refl _) fun _ _ => Carried.mono
  by_cases hopen : c.tcb.state = .synSent
  · rcases (hI.opening hopen).step hs with ho | ⟨hu, -⟩
    · exact ho.toUntouched.holding (by omega)
    · exact hu.holding (by omega)
  · refine (hmono.move hs.receiver (by omega) hopen hfin fun seg hev _ hlo hup hfit => ?_).1
    refine ⟨hmono.end_lt hlo hup hfit, fun j b hb => ?_⟩
    exact ⟨_, List.mem_append_right _ (List.mem_singleton_self _), seg, j, hev, hb, rfl⟩

/-- One step that counts no FIN. -/
theorem Receiving.step (hI : Receiving tr c) (hs : Step c l c')
    (hfin : c.countsFin l.ev = false) :
    Receiving (tr ++ [⟨c, l, c'⟩]) c' ∧ ReturnsCarried tr ⟨c, l, c'⟩ := by
  have hopening : c'.tcb.state = .synSent → Opening c' := by
    intro hst
    rcases (hI.opening (hs.synSent hst)).step hs with h | ⟨-, h, -⟩
    · exact h
    · simp [hst] at h
  have hkept : ∀ call, c.reading = some call →
      EndsAt (Carried (tr ++ [⟨c, l, c'⟩])) c.tcb.rcv.lbr.toNat call.data :=
    fun call hr => (hI.reading call hr).mono fun _ _ => Carried.mono
  suffices h : (∀ call, c'.receiver.reading = some call →
        EndsAt (Carried (tr ++ [⟨c, l, c'⟩])) c'.receiver.rcv.lbr.toNat call.data) ∧
      ∀ n data, l.out.read = some (.returned n data) →
        EndsAt (Carried tr) c'.receiver.rcv.lbr.toNat data from
    ⟨⟨hopening, hI.step_holding hs hfin, h.1⟩, h.2⟩
  have hm := hs.receiver
  generalize l.ev = ev at hm hfin
  generalize c'.receiver = r at hm
  generalize l.out.read = o at hm
  cases hm with
  | same | inOrder | early => exact ⟨hkept, by simp⟩
  | opened hst => exact ⟨by simp [(hI.opening hst).reading], by simp⟩
  | finCounted h => simp [h] at hfin
  | read hcalls he =>
    obtain ⟨-, hpending, hshown⟩ := hI.read hcalls he
    exact ⟨fun call hp => (hpending call hp).mono fun _ _ => Carried.mono, hshown⟩

/-- A FIN that is counted leaves one number too many between window and unread data. -/
theorem Receiving.not_conserved (hI : Receiving tr c) (hs : Step c l c')
    (hfin : c.countsFin l.ev = true) : ¬ Conserved c' := by
  have hunread := hI.holding.unread_le
  have hwnd := hI.holding.wnd
  have hle := hI.holding.lbr_le
  simp only [Conn.receiver_rcv] at hunread hwnd hle
  unfold Conserved
  rw [hs.rcv_of_countsFin hfin]
  simp only
  bv_omega

theorem Opening.receiving (h : Opening c) : Receiving [] c where
  opening _ := h
  holding := h.toUntouched.holding (by omega)
  reading := by simp [h.reading]

/-- From the handshake on, window and unread data make up the buffer exactly as long as no FIN
is counted in RCV.NXT; until then the window fits its field and `Read` returns only bytes that
came in as data, each at its place. -/
theorem conserved_iff (h0 : Opening c) (h : Run Step c tr c') :
    ((∀ x ∈ tr, Conserved x.dst) ↔ ∀ x ∈ tr, x.src.countsFin x.ev.ev = false) ∧
      ((∀ x ∈ tr, x.src.countsFin x.ev.ev = false) →
        (∀ x ∈ tr, x.dst.tcb.rcv.wnd ≤ maxBufSize) ∧ Along ReturnsCarried tr) := by
  have hinv : ∀ {tr c'}, Run Step c tr c' → (∀ x ∈ tr, x.src.countsFin x.ev.ev = false) →
      Receiving tr c' := by
    intro tr c' h hok
    refine h.inv (I := Receiving) (C := fun _ x => x.src.countsFin x.ev.ev = false) h0.receiving
      (along_of_forall_mem hok) fun tr t l u ht hs hno => (ht.step hs hno).1
  have hiff : Along (fun _ x => Conserved x.dst) tr ↔
      Along (fun _ x => x.src.countsFin x.ev.ev = false) tr := by
    refine h.along_iff (I := Receiving) (H := fun _ _ => True) h0.receiving (fun _ _ _ _ => trivial)
      (fun tr t l u ht hs _ hno => (ht.step hs hno).1) fun tr t l u ht hs _ => ?_
    constructor
    · intro hcons
      by_contra hyes
      exact ht.not_conserved hs (Bool.eq_true_of_not_eq_false hyes) hcons
    · intro hno
      exact (ht.step hs hno).1.holding.conserved
  refine ⟨⟨fun hall => forall_mem_of_along (hiff.mp (along_of_forall_mem hall)), fun hok =>
    forall_mem_of_along (hiff.mpr (along_of_forall_mem hok))⟩, fun hok => ⟨fun x hx => ?_, ?_⟩⟩
  · have hcons : Conserved x.dst := forall_mem_of_along (hiff.mpr (along_of_forall_mem hok)) x hx
    rw [BitVec.le_def, toNat_maxBufSize]
    unfold Conserved at hcons
    omega
  · intro pre x post htr
    obtain ⟨hpre, hstep⟩ := h.pre htr
    have hI := hinv hpre fun y hy => hok y (by simp [htr, hy])
    exact (hI.step hstep (hok x (by simp [htr]))).2

theorem conserved_iff_early_arrival :
    let c := Conn.connect ⟨1, 1000, 2, 2000⟩ 99
    let tr := (c.play [.segment (Segment.fromPeer 499 100 18 1000 [] (by simp)),
      .segment (Segment.fromPeer 502 100 16 1000 [7, 8] (by simp)),
      .segment (Segment.fromPeer 500 100 16 1000 [5, 6] (by simp)), .read 9 false]).1
    (∃ x ∈ tr, x.src.tcb.rcv.wnd = 65531 ∧ x.dst.tcb.rcv.wnd = 65535) ∧
      ((∀ x ∈ tr, Conserved x.dst) ↔ ∀ x ∈ tr, x.src.countsFin x.ev.ev = false) ∧
      ((∀ x ∈ tr, x.src.countsFin x.ev.ev = false) →
        (∀ x ∈ tr, x.dst.tcb.rcv.wnd ≤ maxBufSize) ∧ Along ReturnsCarried tr) :=
  ⟨by decide, conserved_iff (opening_connect _ _) (Conn.play_run _ _)⟩

/-- `Close`, its FIN acknowledged, the peer's FIN, and a `Read` of one byte. -/
def readAfterFin : List Event :=
  [.segment (Segment.fromPeer 499 100 18 1000 [] Segment.nil_le), .close,
    .segment (Segment.fromPeer 500 101 16 1000 [] Segment.nil_le),
    .segment (Segment.fromPeer 500 101 17 1000 [] Segment.nil_le), .read 1 false]

/-- The FIN counted in FIN_WAIT_2 can be read as a byte, and the window then no longer fits its
field. -/
theorem not_conserved_after_fin :
    (¬ ∀ (c c' : Conn) (tr : List (Move Conn Label)), Opening c → Run Step c tr c' →
      ∀ x ∈ tr, Conserved x.dst) ∧
    (¬ ∀ (c c' : Conn) (tr : List (Move Conn Label)), Opening c → Run Step c tr c' →
      ∀ x ∈ tr, x.dst.tcb.rcv.wnd ≤ maxBufSize) ∧
    ¬ ∀ (c c' : Conn) (tr : List (Move Conn Label)), Opening c → Run Step c tr c' →
      Along ReturnsCarried tr := by
  have hopen := opening_connect ⟨1, 1000, 2, 2000⟩ 99
  have hrun := Conn.play_run (Conn.connect ⟨1, 1000, 2, 2000⟩ 99) readAfterFin
  refine ⟨fun h => ?_, fun h => ?_, fun h => ?_⟩
  · exact absurd (h _ _ _ hopen hrun) (by decide)
  · exact absurd (h _ _ _ hopen hrun) (by decide)
  · have hread : ∃ x ∈ ((Conn.connect ⟨1, 1000, 2, 2000⟩ 99).play readAfterFin).1,
        x.ev.out.read = some (.returned 1 [0]) := by
      decide
    have hevents : ((Conn.connect ⟨1, 1000, 2, 2000⟩ 99).play readAfterFin).1.map
        (fun y => y.ev.ev) = readAfterFin := by
      decide
    obtain ⟨x, hx, hout⟩ := hread
    obtain ⟨pre, post, htr⟩ := List.append_of_mem hx
    obtain ⟨y, hy, seg, j, hev, hb, -⟩ := (h _ _ _ hopen hrun pre x post htr 1 [0] hout).2 0 0 rfl
    have hseg : Event.segment seg ∈ readAfterFin := by
      rw [← hevents, ← hev, htr]
      exact List.mem_map_of_mem (List.mem_append_left _ hy)
    -- none of the three segments has a payload
    simp only [readAfterFin, List.mem_cons, Event.segment.injEq, reduceCtorEq, List.not_mem_nil,
      or_false, false_or] at hseg
    rcases hseg with rfl | rfl | rfl <;> simp [Segment.fromPeer] at hb

end Conservation

end TcpIp
