import TcpIp.Tcp.Established

/-! `Receive` under a shift of the whole sequence space. -/
namespace TcpIp

section Translate

variable (d : U32)

def TCPFields.translate (hdr : TCPFields) : TCPFields :=
  { hdr with seqNum := hdr.seqNum + d, ackNum := hdr.ackNum + d }

def Send.translate (s : Send) : Send :=
  { s with una := s.una + d, nxt := s.nxt + d, lbw := s.lbw + d }

def Receive.translate (r : Receive) : Receive := { r with nxt := r.nxt + d, lbr := r.lbr + d }

def EarlyArrivalEntry.translate (e : EarlyArrivalEntry) : EarlyArrivalEntry :=
  { e with sequenceNum := e.sequenceNum + d }

def RetransmitSegment.translate (r : RetransmitSegment) : RetransmitSegment :=
  { r with tcpHeader := r.tcpHeader.translate d }

/-- `d` added to every sequence number of the connection. -/
def TCB.translate (s : TCB) : TCB :=
  { s with
    snd := s.snd.translate d
    rcv := s.rcv.translate d
    earlyArrivals := s.earlyArrivals.map (EarlyArrivalEntry.translate d)
    retransmissionQueue := s.retransmissionQueue.map (RetransmitSegment.translate d) }

end Translate

/-- `Receive` treats the segment after the shift as it did before. -/
structure SameTreatment (d : U32) (s : TCB) (hdr : TCPFields) : Prop where
  arrival : (s.translate d).rcv.classify (hdr.translate d).seqNum = s.rcv.classify hdr.seqNum
  ack : (s.translate d).ackDropped (hdr.translate d) = s.ackDropped hdr
  queue : s.ackDropped hdr = false →
    ((s.translate d).removeFromRetransmissionQueue (hdr.translate d).ackNum).retransmissionQueue =
      (s.removeFromRetransmissionQueue hdr.ackNum).retransmissionQueue.map
        (RetransmitSegment.translate d)

/-- Adding `d` takes `x` past the end of the 32-bit numbers. -/
def carries (d x : U32) : Bool := x + d < x

/-- The shift puts exactly one of the two numbers past the end, and so turns their comparison. -/
def turns (d x y : U32) : Bool := carries d x != carries d y

/-- The number is too old for the acknowledgement half. -/
def TCB.tooOld (s : TCB) (hdr : TCPFields) : Bool := hdr.ackNum ≤ s.snd.una

/-- The number is past the bound that goes with the advertised window. -/
def TCB.tooNew (s : TCB) (hdr : TCPFields) : Bool :=
  if hdr.windowSize = 0 then hdr.ackNum > s.snd.nxt
  else hdr.ackNum > s.snd.una + s.snd.wnd && s.snd.wnd ≠ 0

/-- The comparison behind `tooNew` is turned. -/
def TCB.turnsTooNew (d : U32) (s : TCB) (hdr : TCPFields) : Bool :=
  if hdr.windowSize = 0 then turns d hdr.ackNum s.snd.nxt
  else turns d hdr.ackNum (s.snd.una + s.snd.wnd) && s.snd.wnd ≠ 0

/-- No comparison that decides where the segment belongs is turned. -/
def Receive.sortsAlike (d : U32) (r : Receive) (seqNum : U32) : Bool :=
  !turns d seqNum r.nxt && (seqNum < r.nxt || !turns d seqNum (r.nxt + r.wnd))

/-- For an acknowledgement that is taken no comparison is turned; for one that is dropped the
turned comparisons are not exactly those that failed. -/
def TCB.acksAlike (d : U32) (s : TCB) (hdr : TCPFields) : Bool :=
  if s.ackDropped hdr then
    turns d hdr.ackNum s.snd.una != s.tooOld hdr || s.turnsTooNew d hdr != s.tooNew hdr
  else !turns d hdr.ackNum s.snd.una && !s.turnsTooNew d hdr

/-- No comparison with the entries that are removed, or with the first one that stays, is turned. -/
def TCB.removesAlike (d : U32) (s : TCB) (ackNum : U32) : Bool :=
  let toRemove := (s.retransmissionQueue.takeWhile fun r => r.tcpHeader.seqNum < ackNum).length
  (s.retransmissionQueue.take (toRemove + 1)).all fun r => !turns d r.tcpHeader.seqNum ackNum

section Compare

variable {d x y : U32}

theorem add_lt_add_iff : x + d < y + d ↔ (turns d x y = true ↔ ¬ x < y) := by
  simp only [turns, carries, bne_iff_ne, ne_eq, decide_eq_decide, BitVec.lt_def, BitVec.toNat_add]
  omega

theorem add_le_add_iff : x + d ≤ y + d ↔ (turns d x y = true ↔ ¬ x ≤ y) := by
  simp only [turns, carries, bne_iff_ne, ne_eq, decide_eq_decide, BitVec.lt_def, BitVec.le_def,
    BitVec.toNat_add]
  omega

theorem decide_add_lt_add : decide (x + d < y + d) = (decide (x < y) ^^ turns d x y) := by
  by_cases hlt : x < y <;> cases ht : turns d x y <;> simp [add_lt_add_iff, ht, hlt]

theorem decide_add_le_add : decide (x + d ≤ y + d) = (decide (x ≤ y) ^^ turns d x y) := by
  by_cases hle : x ≤ y <;> cases ht : turns d x y <;> simp [add_le_add_iff, ht, hle]

theorem turns_comm : turns d x y = turns d y x := by
  simp only [turns]
  exact bne_comm

end Compare

section SameTreatment

variable {d : U32} {s : TCB} {r : Receive} {hdr : TCPFields}

theorem classify_translate {seqNum : U32} :
    (r.translate d).classify (seqNum + d) = r.classify seqNum ↔
      r.sortsAlike d seqNum = true := by
  have hedge : r.nxt + d + r.wnd = r.nxt + r.wnd + d := by
    rw [BitVec.add_assoc, BitVec.add_comm d, BitVec.add_assoc]
  have hturn : turns d seqNum r.nxt = true → seqNum < r.nxt ∨ r.nxt < seqNum := by
    intro h
    by_contra hno
    have heq : seqNum = r.nxt := by bv_omega
    simp [heq, turns] at h
  have hasymm : seqNum < r.nxt → ¬ r.nxt < seqNum := by
    intro h
    bv_omega
  simp only [Receive.classify, Receive.translate, Receive.sortsAlike, hedge, gt_iff_lt, ge_iff_le,
    add_lt_add_iff, add_le_add_iff]
  rw [turns_comm (x := r.nxt), turns_comm (x := r.nxt + r.wnd)]
  by_cases hlt : seqNum < r.nxt <;> by_cases hgt : r.nxt < seqNum <;>
    by_cases hout : r.nxt + r.wnd ≤ seqNum <;> cases ht : turns d seqNum r.nxt <;>
    cases he : turns d seqNum (r.nxt + r.wnd) <;> simp_all [-BitVec.not_lt, -BitVec.not_le]

theorem ackDropped_eq : s.ackDropped hdr = (s.tooOld hdr || s.tooNew hdr) := by
  unfold TCB.ackDropped TCB.tooOld TCB.tooNew
  split <;> simp

theorem tooOld_translate :
    (s.translate d).tooOld (hdr.translate d) =
      (s.tooOld hdr ^^ turns d hdr.ackNum s.snd.una) :=
  decide_add_le_add

theorem tooNew_translate :
    (s.translate d).tooNew (hdr.translate d) = (s.tooNew hdr ^^ s.turnsTooNew d hdr) := by
  have hedge : s.snd.una + d + s.snd.wnd = s.snd.una + s.snd.wnd + d := by
    rw [BitVec.add_assoc, BitVec.add_comm d, BitVec.add_assoc]
  simp only [TCB.tooNew, TCB.turnsTooNew, TCB.translate, Send.translate, TCPFields.translate, hedge,
    gt_iff_lt, decide_add_lt_add]
  split
  · rw [turns_comm]
  · rw [turns_comm, Bool.and_xor_distrib_right]
    rfl

theorem ackDropped_translate :
    (s.translate d).ackDropped (hdr.translate d) = s.ackDropped hdr ↔
      s.acksAlike d hdr = true := by
  rw [TCB.acksAlike, ackDropped_eq, ackDropped_eq, tooOld_translate, tooNew_translate]
  cases s.tooOld hdr <;> cases s.tooNew hdr <;> cases turns d hdr.ackNum s.snd.una <;>
    cases s.turnsTooNew d hdr <;> simp

theorem cons_ne_dropWhile {α : Type*} (p : α → Bool) (a : α) (l : List α) :
    a :: l ≠ l.dropWhile p := by
  intro h
  have hle := (List.dropWhile_suffix p (l := l)).length_le
  rw [← h, List.length_cons] at hle
  omega

/-- Two tests take the same elements off the front exactly when they agree on these and on the
first one that stays. -/
theorem dropWhile_eq_iff {α : Type*} {p q : α → Bool} {l : List α} :
    l.dropWhile q = l.dropWhile p ↔
      ∀ a ∈ l.take ((l.takeWhile p).length + 1), q a = p a := by
  induction l with
  | nil => simp
  | cons a l ih =>
    cases hp : p a with
    | true =>
      cases hq : q a with
      | true => simpa [hp, hq] using ih
      | false => simp [hp, hq, cons_ne_dropWhile]
    | false =>
      cases hq : q a with
      | true => simp [hp, hq, (cons_ne_dropWhile q a l).symm]
      | false => simp [hp, hq]

theorem translate_injective : Function.Injective (RetransmitSegment.translate d) := by
  rintro ⟨⟨⟩, _⟩ ⟨⟨⟩, _⟩ h
  simpa [RetransmitSegment.translate, TCPFields.translate] using h

theorem removeFromRetransmissionQueue_queue (ackNum : U32) :
    (s.removeFromRetransmissionQueue ackNum).retransmissionQueue =
      s.retransmissionQueue.dropWhile fun r => r.tcpHeader.seqNum < ackNum := by
  obtain ⟨k, hk⟩ := s.removeFromRetransmissionQueue_eq ackNum
  rw [hk]

theorem queue_translate {ackNum : U32} :
    ((s.translate d).removeFromRetransmissionQueue (ackNum + d)).retransmissionQueue =
        (s.removeFromRetransmissionQueue ackNum).retransmissionQueue.map
          (RetransmitSegment.translate d) ↔
      s.removesAlike d ackNum = true := by
  rw [removeFromRetransmissionQueue_queue, removeFromRetransmissionQueue_queue]
  simp only [TCB.translate, List.dropWhile_map]
  rw [(List.map_injective_iff.mpr translate_injective).eq_iff, dropWhile_eq_iff]
  rw [TCB.removesAlike, List.all_eq_true]
  refine forall₂_congr fun e _ => ?_
  show decide (e.tcpHeader.seqNum + d < ackNum + d) = decide (e.tcpHeader.seqNum < ackNum) ↔ _
  rw [decide_add_lt_add]
  cases turns d e.tcpHeader.seqNum ackNum <;> simp

/-- The shift changes nothing exactly when no comparison that decides is turned by it. A segment
at RCV.NXT with the window open is taken in order exactly when the window does not reach past
the last sequence number. -/
theorem sameTreatment_iff (d : U32) (s : TCB) (hdr : TCPFields) :
    (SameTreatment d s hdr ↔
      s.rcv.sortsAlike d hdr.seqNum = true ∧ s.acksAlike d hdr = true ∧
        (s.ackDropped hdr = false → s.removesAlike d hdr.ackNum = true)) ∧
      (s.rcv.wnd ≠ 0 →
        (s.rcv.classify s.rcv.nxt = .inOrder ↔ s.rcv.nxt.toNat + s.rcv.wnd.toNat < 2 ^ 32)) := by
  constructor
  · constructor
    · rintro ⟨harrival, hack, hqueue⟩
      exact ⟨classify_translate.mp harrival, ackDropped_translate.mp hack,
        fun h => queue_translate.mp (hqueue h)⟩
    · rintro ⟨harrival, hack, hqueue⟩
      exact ⟨classify_translate.mpr harrival, ackDropped_translate.mpr hack,
        fun h => queue_translate.mpr (hqueue h)⟩
  · intro hwnd
    constructor
    · intro h
      have := (classify_inOrder h).2
      bv_omega
    · intro h
      unfold Receive.classify
      rw [if_neg (BitVec.lt_irrefl _), if_neg (by bv_omega), if_neg (BitVec.lt_irrefl _)]

/-- The segment at RCV.NXT is refused once the shift leaves a hundred numbers before the end. -/
theorem not_sameTreatment_near_end :
    ¬ ∀ (d : U32) (c : Conn) (seg : Segment), Established c →
      SameTreatment d c.tcb seg.hdr ∧
        (c.tcb.rcv.wnd ≠ 0 → c.tcb.rcv.classify c.tcb.rcv.nxt = .inOrder) := by
  intro h
  have harrival := (h (-600) (Conn.fresh 100 100 500)
    (Segment.fromPeer 500 100 16 1000 [1] (by simp)) (established_fresh (Or.inl rfl))).1.arrival
  exact absurd harrival (by decide)

end SameTreatment

end TcpIp
