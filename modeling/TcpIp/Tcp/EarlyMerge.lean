import TcpIp.Tcp.Reassembly

/-! RCV.NXT and the queue of early arrivals against all data accepted so far. -/
namespace TcpIp

open Runs Spans

namespace EarlyArrivalEntry

def lo (e : EarlyArrivalEntry) : ℕ := e.sequenceNum.toNat

def len (e : EarlyArrivalEntry) : ℕ := e.payloadLen.toNat

end EarlyArrivalEntry

open EarlyArrivalEntry (lo len)

/-- `Receive` stores the segment's data, in order or early. -/
def Conn.accepts (c : Conn) (seg : Segment) : Bool :=
  c.passesToReceive seg.hdr && 0 < seg.payload.length &&
    (c.tcb.rcv.classify seg.hdr.seqNum = .inOrder || c.tcb.rcv.classify seg.hdr.seqNum = .early)

/-- A segment that was accepted holds the number `q`. -/
def Accepted (tr : List (Move Reader ReaderLabel)) (q : ℕ) : Prop :=
  ∃ y ∈ tr, ∃ seg, y.ev.ev = .conn (.segment seg) ∧ y.src.conn.accepts seg = true ∧
    seg.hdr.seqNum.toNat ≤ q ∧ q < seg.hdr.seqNum.toNat + seg.payload.length

/-- `n` is the end of the longest range from `f` on that `A` covers. -/
def LongestRange (f : ℕ) (A : ℕ → Prop) (n : ℕ) : Prop :=
  f ≤ n ∧ (∀ q, f ≤ q → q < n → A q) ∧ ¬ A n

/-- An accepted segment shares a byte with a queued one. -/
def Conn.overlapsQueued (c : Conn) : ReaderEvent → Bool
  | .conn (.segment seg) =>
    c.accepts seg && c.tcb.earlyArrivals.any fun e =>
      seg.hdr.seqNum.toNat < lo e + len e && lo e < seg.hdr.seqNum.toNat + seg.payload.length
  | _ => false

/-- `A` is what lies below `n` and what is queued, the queue being in order with a gap before it. -/
structure Gathered (f : ℕ) (A : ℕ → Prop) (q : List EarlyArrivalEntry) (n : ℕ) : Prop where
  first : f ≤ n
  covered : ∀ p, A p ↔ f ≤ p ∧ p < n ∨ Covers lo len q p
  ordered : Ordered lo len q
  pos : ∀ e ∈ q, 0 < len e
  gap : ∀ e ∈ q, n < lo e

section Merge

variable {f n : ℕ} {A B : ℕ → Prop} {q : List EarlyArrivalEntry} {e : EarlyArrivalEntry}

theorem Gathered.longestRange (h : Gathered f A q n) : LongestRange f A n := by
  refine ⟨h.first, fun p hf hp => (h.covered p).mpr (Or.inl ⟨hf, hp⟩), fun hn => ?_⟩
  rcases (h.covered n).mp hn with ⟨-, hlt⟩ | ⟨e, he, hle, -⟩
  · omega
  · have := h.gap e he
    omega

theorem covers_cons {p : ℕ} :
    Covers lo len (e :: q) p ↔ lo e ≤ p ∧ p < lo e + len e ∨ Covers lo len q p := by
  simp [Covers]

/-- The merge of an ordered queue takes all that has become contiguous and leaves a gap. -/
theorem updateAckNum_gathers {n : U32} (hsum : ∀ e ∈ q, lo e + len e < 2 ^ 32)
    (hord : Ordered lo len q) (hpos : ∀ e ∈ q, 0 < len e) (habove : ∀ e ∈ q, n.toNat ≤ lo e) :
    n.toNat ≤ (updateAckNum q n).2.toNat ∧
      (∀ p, Covers lo len q p ↔ n.toNat ≤ p ∧ p < (updateAckNum q n).2.toNat ∨
        Covers lo len (updateAckNum q n).1 p) ∧
      Ordered lo len (updateAckNum q n).1 ∧
      ∀ e ∈ (updateAckNum q n).1, (updateAckNum q n).2.toNat < lo e := by
  induction q generalizing n with
  | nil =>
    refine ⟨Nat.le_refl _, fun p => ?_, hord, by simp [updateAckNum]⟩
    simp only [updateAckNum]
    constructor
    · exact Or.inr
    · rintro (h | h)
      · omega
      · exact h
  | cons a rest ih =>
    obtain ⟨hall, hord'⟩ := List.pairwise_cons.mp hord
    have hloa := habove a List.mem_cons_self
    have hlena := hpos a List.mem_cons_self
    unfold updateAckNum
    split
    · -- the head starts at `n`: go on from its end
      rename_i heq
      have hlo : lo a = n.toNat := by rw [heq]; rfl
      have hend : (a.sequenceNum + a.payloadLen).toNat = lo a + len a := by
        have hlt := hsum a List.mem_cons_self
        rw [BitVec.toNat_add]
        exact Nat.mod_eq_of_lt hlt
      obtain ⟨hle, hcov, hord'', hgap⟩ := ih (n := a.sequenceNum + a.payloadLen)
        (fun e he => hsum e (List.mem_cons_of_mem _ he)) hord'
        (fun e he => hpos e (List.mem_cons_of_mem _ he))
        (fun e he => by rw [hend]; exact hall e he)
      refine ⟨by omega, fun p => ?_, hord'', hgap⟩
      rw [covers_cons, hcov p]
      constructor
      · rintro (hp | hp | hp)
        · exact Or.inl (by omega)
        · exact Or.inl (by omega)
        · exact Or.inr hp
      · rintro (hp | hp)
        · by_cases hlt : p < lo a + len a
          · exact Or.inl (by omega)
          · exact Or.inr (Or.inl (by omega))
        · exact Or.inr (Or.inr hp)
    · rename_i hne
      simp only
      have hlt : n.toNat < lo a := by
        have : n.toNat ≠ lo a := fun heq => hne (BitVec.eq_of_toNat_eq heq)
        omega
      refine ⟨Nat.le_refl _, fun p => ?_, hord, fun e he => ?_⟩
      · constructor
        · exact Or.inr
        · rintro (h | h)
          · omega
          · exact h
      · rcases List.mem_cons.mp he with rfl | he
        · exact hlt
        · have := hall e he
          omega

theorem covers_push {p : ℕ} : Covers lo len (EarlyArrivalQueue.push q e) p ↔
    lo e ≤ p ∧ p < lo e + len e ∨ Covers lo len q p := by
  simp only [Covers, EarlyArrivalQueue.mem_push]
  constructor
  · rintro ⟨e', rfl | he, hp⟩
    · exact Or.inl hp
    · exact Or.inr ⟨e', he, hp⟩
  · rintro (hp | ⟨e', he, hp⟩)
    · exact ⟨e, Or.inl rfl, hp⟩
    · exact ⟨e', Or.inr he, hp⟩

/-- An entry that meets no other goes to its place. -/
theorem push_ordered (hord : Ordered lo len q) (hsum : lo e + len e < 2 ^ 32)
    (hdis : ∀ e' ∈ q, lo e' + len e' ≤ lo e ∨ lo e + len e ≤ lo e') (hpos : 0 < len e) :
    Ordered lo len (EarlyArrivalQueue.push q e) := by
  have hend : (e.sequenceNum + e.payloadLen).toNat = lo e + len e := by
    rw [BitVec.toNat_add]
    exact Nat.mod_eq_of_lt hsum
  induction q with
  | nil => exact List.pairwise_singleton _ _
  | cons a rest ih =>
    obtain ⟨hall, hord'⟩ := List.pairwise_cons.mp hord
    have hdisa := hdis a List.mem_cons_self
    unfold EarlyArrivalQueue.push
    split
    · rename_i hle
      rw [BitVec.le_def, hend] at hle
      have hle' : lo e + len e ≤ lo a := hle
      refine List.pairwise_cons.mpr ⟨fun e' he' => ?_, hord⟩
      rcases List.mem_cons.mp he' with rfl | he'
      · exact hle'
      · have := hall e' he'
        omega
    · rename_i hle
      rw [BitVec.le_def, hend] at hle
      have hle' : ¬ lo e + len e ≤ lo a := hle
      refine List.pairwise_cons.mpr ⟨fun e' he' => ?_,
        ih hord' fun e' he' => hdis e' (List.mem_cons_of_mem _ he')⟩
      rcases EarlyArrivalQueue.mem_push.mp he' with rfl | he'
      · omega
      · exact hall e' he'

end Merge

section Steps

variable {f hi : ℕ} {A : ℕ → Prop} {R : ℕ → U8 → Prop} {s : TCB} {payload : List U8}
  {call : Option ReadCall} {c c' : Conn} {seg : Segment}

/-- An in-order segment that ends before every queued one. -/
theorem Gathered.inOrder (h : Gathered f A s.earlyArrivals s.rcv.nxt.toNat)
    (hh : (⟨s.rcv, s.earlyArrivals, call⟩ : Receiver).Holding R (2 ^ 32 - 1))
    (hlen : payload.length ≤ 65535) (hend : s.rcv.nxt.toNat + payload.length ≤ 2 ^ 32 - 1)
    (hdis : ∀ e ∈ s.earlyArrivals, s.rcv.nxt.toNat + payload.length ≤ lo e) :
    Gathered f (fun p => A p ∨ s.rcv.nxt.toNat ≤ p ∧ p < s.rcv.nxt.toNat + payload.length)
      (s.tookInOrder payload).earlyArrivals (s.tookInOrder payload).rcv.nxt.toNat := by
  have hnxt : (s.rcv.nxt + BitVec.ofNat 32 payload.length).toNat =
      s.rcv.nxt.toNat + payload.length := by
    rw [BitVec.toNat_add, toNat_ofNat_length hlen]
    omega
  have hsum : ∀ e ∈ s.earlyArrivals, lo e + len e < 2 ^ 32 := by
    intro e he
    have hle : lo e + len e ≤ 2 ^ 32 - 1 := (hh.early e he).1
    omega
  obtain ⟨hle, hcov, hord, hgap⟩ := updateAckNum_gathers hsum h.ordered h.pos
    (n := s.rcv.nxt + BitVec.ofNat 32 payload.length) (by rw [hnxt]; exact hdis)
  have hfirst := h.first
  rw [hnxt] at hle hcov
  refine ⟨?_, fun p => ?_, hord, fun e he => h.pos e (updateAckNum_subset he), hgap⟩
  · show f ≤ (updateAckNum s.earlyArrivals (s.rcv.nxt + BitVec.ofNat 32 payload.length)).2.toNat
    omega
  · show _ ↔ f ≤ p ∧ p <
      (updateAckNum s.earlyArrivals (s.rcv.nxt + BitVec.ofNat 32 payload.length)).2.toNat ∨
        Covers lo len (updateAckNum s.earlyArrivals
          (s.rcv.nxt + BitVec.ofNat 32 payload.length)).1 p
    rw [h.covered p, hcov p]
    constructor
    · rintro ((hp | hp | hp) | hp)
      · exact Or.inl (by omega)
      · exact Or.inl (by omega)
      · exact Or.inr hp
      · exact Or.inl (by omega)
    · rintro (hp | hp)
      · by_cases h1 : p < s.rcv.nxt.toNat
        · exact Or.inl (Or.inl (by omega))
        · by_cases h2 : p < s.rcv.nxt.toNat + payload.length
          · exact Or.inr (by omega)
          · exact Or.inl (Or.inr (Or.inl (by omega)))
      · exact Or.inl (Or.inr (Or.inr hp))

/-- An early segment that meets no queued one. -/
theorem Gathered.takenEarly (h : Gathered f A s.earlyArrivals s.rcv.nxt.toNat) {seqNum : U32}
    (hlen : payload.length ≤ 65535) (hpos : 0 < payload.length) (hgt : s.rcv.nxt < seqNum)
    (hend : seqNum.toNat + payload.length ≤ 2 ^ 32 - 1)
    (hdis : ∀ e ∈ s.earlyArrivals, lo e + len e ≤ seqNum.toNat ∨
      seqNum.toNat + payload.length ≤ lo e) :
    Gathered f (fun p => A p ∨ seqNum.toNat ≤ p ∧ p < seqNum.toNat + payload.length)
      (s.tookEarly seqNum payload).earlyArrivals (s.tookEarly seqNum payload).rcv.nxt.toNat := by
  show Gathered f _ (EarlyArrivalQueue.push s.earlyArrivals
    ⟨seqNum, BitVec.ofNat 32 payload.length⟩) s.rcv.nxt.toNat
  generalize he : (⟨seqNum, BitVec.ofNat 32 payload.length⟩ : EarlyArrivalEntry) = e
  have hlo : lo e = seqNum.toNat := by rw [← he]; rfl
  have hle : len e = payload.length := by rw [← he]; exact toNat_ofNat_length hlen
  refine ⟨h.first, fun p => ?_, push_ordered h.ordered (by omega) ?_ (by omega), ?_, ?_⟩
  · rw [h.covered p, covers_push, hlo, hle]
    tauto
  · intro e' he'
    rw [hlo, hle]
    exact hdis e' he'
  · intro e' he'
    rcases EarlyArrivalQueue.mem_push.mp he' with rfl | he'
    · omega
    · exact h.pos e' he'
  · intro e' he'
    rcases EarlyArrivalQueue.mem_push.mp he' with rfl | he'
    · rw [hlo]
      exact hgt
    · exact h.gap e' he'

/-- What `Receive` does with a segment it accepts. -/
theorem Step.accepted {o : Output} (h : Step c ⟨.segment seg, o⟩ c') (ha : c.accepts seg = true) :
    c.tcb.rcv.classify seg.hdr.seqNum = .inOrder ∧
        seg.payload.length ≤ c.tcb.rcv.room c.tcb.rcv.nxt ∧
        c'.tcb.rcv = (c.tcb.tookInOrder seg.payload).rcv ∧
        c'.tcb.earlyArrivals = (c.tcb.tookInOrder seg.payload).earlyArrivals ∨
      c.tcb.rcv.classify seg.hdr.seqNum = .early ∧
        seg.payload.length ≤ c.tcb.rcv.room seg.hdr.seqNum ∧
        c'.tcb.rcv = (c.tcb.tookEarly seg.hdr.seqNum seg.payload).rcv ∧
        c'.tcb.earlyArrivals = (c.tcb.tookEarly seg.hdr.seqNum seg.payload).earlyArrivals := by
  simp only [Conn.accepts, Bool.and_eq_true, Bool.or_eq_true, decide_eq_true_eq] at ha
  obtain ⟨⟨hp, hpos⟩, hc⟩ := ha
  obtain ⟨st, u, t, o₁, o₂, -, hd, ha, rfl, -⟩ := (h.handled rfl).of_passes hp
  obtain ⟨snd, q, cwnd, b, rfl⟩ := ha.frame
  cases hd with
  | empty hnil => simp [hnil] at hpos
  | refused _ hc' =>
    have hc'' : c.tcb.rcv.classify seg.hdr.seqNum = .alreadyReceived ∨
      c.tcb.rcv.classify seg.hdr.seqNum = .beyondWindow := hc'
    rcases hc'' with hc'' | hc'' <;> simp [hc''] at hc
  | inOrder _ hc' hfit =>
    rw [TCB.ackData_eq]
    exact Or.inl ⟨hc', hfit, rfl, rfl⟩
  | early _ hc' hfit =>
    rw [TCB.ackData_eq]
    exact Or.inr ⟨hc', hfit, rfl, rfl⟩

/-- Any other step outside `Read` leaves RCV.NXT and the queue alone. -/
theorem ReceiverMove.not_accepted {ev : Event} {o : Option ReadOutcome} {r : Receiver}
    (hm : ReceiverMove c ev o r) (hopen : c.tcb.state ≠ .synSent)
    (hfin : c.countsFin ev = false)
    (hno : ∀ seg, ev = .segment seg → c.accepts seg = false) :
    r.rcv.nxt = c.tcb.rcv.nxt ∧ r.early = c.tcb.earlyArrivals := by
  cases hm with
  | same => exact ⟨rfl, rfl⟩
  | opened hs => exact absurd hs hopen
  | @inOrder seg hp hpos hc | @early seg hp hpos hc =>
    have := hno seg rfl
    simp [Conn.accepts, hp, hpos, hc] at this
  | finCounted h => simp [h] at hfin
  | read _ he =>
    obtain ⟨n, -, rfl, -⟩ := he.consumed
    exact ⟨rfl, rfl⟩

end Steps

/-- The state of reassembly after a run. -/
structure Gathering (f : ℕ) (tr : List (Move Reader ReaderLabel)) (r : Reader) : Prop
    extends Assembling (fun _ _ => True) r where
  gathered : Gathered f (Accepted tr) r.conn.tcb.earlyArrivals r.conn.tcb.rcv.nxt.toNat

section Completeness

variable {r r' : Reader} {l : ReaderLabel} {f : ℕ} {A B : ℕ → Prop}
  {q : List EarlyArrivalEntry} {n : ℕ} {tr : List (Move Reader ReaderLabel)}

theorem accepted_snoc {x : Move Reader ReaderLabel} {p : ℕ} : Accepted (tr ++ [x]) p ↔
    Accepted tr p ∨ ∃ seg, x.ev.ev = .conn (.segment seg) ∧ x.src.conn.accepts seg = true ∧
      seg.hdr.seqNum.toNat ≤ p ∧ p < seg.hdr.seqNum.toNat + seg.payload.length := by
  simp only [Accepted, List.mem_append, List.mem_singleton]
  constructor
  · rintro ⟨y, hy | rfl, hseg⟩
    · exact Or.inl ⟨y, hy, hseg⟩
    · exact Or.inr hseg
  · rintro (⟨y, hy, hseg⟩ | hseg)
    · exact ⟨y, Or.inl hy, hseg⟩
    · exact ⟨x, Or.inr rfl, hseg⟩

theorem Gathered.congr (h : Gathered f A q n) (hAB : ∀ p, B p ↔ A p) : Gathered f B q n :=
  { h with covered := fun p => (hAB p).trans (h.covered p) }

/-- A segment that is accepted and shares no byte with the queue. -/
theorem Gathering.accepted (h : Gathering f tr r) {seg : Segment} {o : Output} {c : Conn}
    (hs : Step r.conn ⟨.segment seg, o⟩ c) (ha : r.conn.accepts seg = true)
    (hno : r.conn.overlapsQueued (.conn (.segment seg)) = false) :
    Gathered f (fun p => Accepted tr p ∨ seg.hdr.seqNum.toNat ≤ p ∧
      p < seg.hdr.seqNum.toNat + seg.payload.length) c.tcb.earlyArrivals c.tcb.rcv.nxt.toNat := by
  have hpos : 0 < seg.payload.length := by
    simp only [Conn.accepts, Bool.and_eq_true, decide_eq_true_eq] at ha
    exact ha.1.2
  have hdis : ∀ e ∈ r.conn.tcb.earlyArrivals, lo e + len e ≤ seg.hdr.seqNum.toNat ∨
      seg.hdr.seqNum.toNat + seg.payload.length ≤ lo e := by
    intro e he
    simp only [Conn.overlapsQueued, ha, Bool.true_and, List.any_eq_false, Bool.and_eq_true,
      decide_eq_true_eq, not_and, not_lt] at hno
    have := hno e he
    omega
  rcases hs.accepted ha with ⟨hc, hfit, hrcv, hearly⟩ | ⟨hc, hfit, hrcv, hearly⟩
  · obtain ⟨hseq, hlt⟩ := classify_inOrder hc
    rw [hrcv, hearly, hseq]
    rw [hseq] at hdis
    refine h.gathered.inOrder h.holding seg.payload_le
      (h.holding.end_lt (BitVec.le_refl _) hlt hfit) fun e he => ?_
    have := h.gathered.gap e he
    have := hdis e he
    omega
  · obtain ⟨hgt, hlt⟩ := classify_early hc
    rw [hrcv, hearly]
    exact h.gathered.takenEarly seg.payload_le hpos hgt
      (h.holding.end_lt (BitVec.le_of_lt hgt) hlt hfit) hdis

theorem Gathering.step (h : Gathering f tr r) (hs : ReaderStep r l r')
    (hopen : l.ev.keepsOpen = true) (hno : r.conn.overlapsQueued l.ev = false) :
    Gathering f (tr ++ [⟨r, l, r'⟩]) r' := by
  refine ⟨h.toAssembling.step hs hopen (by simp), ?_⟩
  have hm := hs.moved
  -- a step that accepts nothing and leaves RCV.NXT and the queue alone
  have hsame : (∀ seg, l.ev = .conn (.segment seg) → r.conn.accepts seg = false) →
      r'.conn.tcb.rcv.nxt = r.conn.tcb.rcv.nxt →
      r'.conn.tcb.earlyArrivals = r.conn.tcb.earlyArrivals →
      Gathered f (Accepted (tr ++ [⟨r, l, r'⟩])) r'.conn.tcb.earlyArrivals
        r'.conn.tcb.rcv.nxt.toNat := by
    intro hnone hnxt hearly
    rw [hnxt, hearly]
    refine h.gathered.congr fun p => accepted_snoc.trans (or_iff_left ?_)
    rintro ⟨seg, hev, ha, -⟩
    simp only at hev ha
    simp [hnone seg hev] at ha
  obtain ⟨ev, out⟩ := l
  simp only at hm hopen hno hsame
  generalize out.read = o at hm
  cases hm with
  | @conn ev o c hread hstep =>
    by_cases hacc : ∃ seg, ev = .segment seg ∧ r.conn.accepts seg = true
    · obtain ⟨seg, rfl, ha⟩ := hacc
      refine (h.accepted hstep ha hno).congr fun p => accepted_snoc.trans ?_
      refine or_congr_right ⟨?_, fun hp => ⟨seg, rfl, ha, hp⟩⟩
      rintro ⟨seg', hev, -, hp⟩
      obtain rfl := Event.segment.inj (ReaderEvent.conn.inj hev)
      exact hp
    · have hnone : ∀ seg, ev = .segment seg → r.conn.accepts seg = false := fun seg hev =>
        Bool.eq_false_of_not_eq_true fun ha => hacc ⟨seg, hev, ha⟩
      obtain ⟨hnxt, hearly⟩ := hstep.receiver.not_accepted h.phase.not_opening.1
        (countsFin_of_keepsOpen hopen) hnone
      exact hsame (fun seg hev => hnone seg (ReaderEvent.conn.inj hev)) hnxt hearly
  | _ => exact hsame (by simp) rfl rfl

/-- As long as no accepted segment shares a byte with a queued one, RCV.NXT is after every step
the end of the longest range that the accepted segments cover. -/
theorem reassembly_complete (h0 : Established r.conn) (hpc : r.pc = .outside)
    (hirs : r.conn.tcb.rcv.nxt = r.conn.tcb.rcv.irs + 1) (h : Run ReaderStep r tr r')
    (hopen : ∀ x ∈ tr, x.ev.ev.keepsOpen = true)
    (hno : ∀ x ∈ tr, x.src.conn.overlapsQueued x.ev.ev = false) :
    Along (fun pre x => LongestRange (r.conn.tcb.rcv.irs + 1).toNat (Accepted (pre ++ [x]))
      x.dst.conn.tcb.rcv.nxt.toNat) tr := by
  have hstart : Gathering (r.conn.tcb.rcv.irs + 1).toNat [] r := by
    refine ⟨h0.assembling hpc, ?_⟩
    rw [hirs, h0.early]
    refine ⟨Nat.le_refl _, fun p => ?_, List.Pairwise.nil, by simp, by simp⟩
    simp [Accepted, Covers]
  intro pre x post htr
  obtain ⟨hpre, hstep⟩ := h.pre htr
  have hmem : ∀ y ∈ pre ++ [x], y ∈ tr := fun y hy => by
    rw [htr]
    simp only [List.mem_append, List.mem_cons, List.not_mem_nil, or_false] at hy ⊢
    tauto
  have hI : Gathering (r.conn.tcb.rcv.irs + 1).toNat pre x.src :=
    hpre.inv (I := Gathering (r.conn.tcb.rcv.irs + 1).toNat)
      (C := fun _ x => x.ev.ev.keepsOpen = true ∧ x.src.conn.overlapsQueued x.ev.ev = false)
      hstart
      (along_of_forall_mem fun y hy => ⟨hopen y (hmem y (List.mem_append_left _ hy)),
        hno y (hmem y (List.mem_append_left _ hy))⟩)
      fun _ _ _ _ ht hs hx => ht.step hs hx.1 hx.2
  have hx : x ∈ tr := hmem x (by simp)
  exact (hI.step hstep (hopen x hx) (hno x hx)).gathered.longestRange

/-- Three early pieces, and the one that closes the gap before them. -/
theorem reassembly_complete_gap_filled :
    let r : Reader := { conn := Conn.fresh 100 100 500 }
    let tr := (r.play [.conn (.segment (Segment.fromPeer 506 100 16 1000 [7] (by simp))),
      .conn (.segment (Segment.fromPeer 504 100 16 1000 [5, 6] (by simp))),
      .conn (.segment (Segment.fromPeer 502 100 16 1000 [3, 4] (by simp))),
      .conn (.segment (Segment.fromPeer 500 100 16 1000 [1, 2] (by simp)))]).1
    (∃ x ∈ tr, x.src.conn.tcb.rcv.nxt = 500 ∧ x.dst.conn.tcb.rcv.nxt = 507) ∧
      Along (fun pre x => LongestRange 500 (Accepted (pre ++ [x]))
        x.dst.conn.tcb.rcv.nxt.toNat) tr :=
  ⟨by decide, reassembly_complete (established_fresh (Or.inl rfl)) rfl (by decide)
    (Reader.play_run _ _) (by decide) (by decide)⟩

/-- Two early segments overlap; after the gap is filled the second is left in the queue. -/
theorem reassembly_incomplete_overlap :
    ¬ ∀ (r r' : Reader) (tr : List (Move Reader ReaderLabel)), Established r.conn →
      r.pc = .outside → r.conn.tcb.rcv.nxt = r.conn.tcb.rcv.irs + 1 → Run ReaderStep r tr r' →
      (∀ x ∈ tr, x.ev.ev.keepsOpen = true) →
      Along (fun pre x => LongestRange (r.conn.tcb.rcv.irs + 1).toNat (Accepted (pre ++ [x]))
        x.dst.conn.tcb.rcv.nxt.toNat) tr := by
  intro h
  have hrun := Reader.play_run { conn := Conn.fresh 100 100 500 }
    [.conn (.segment (Segment.fromPeer 502 100 16 1000 [3, 4, 5] (by simp))),
      .conn (.segment (Segment.fromPeer 503 100 16 1000 [4, 5, 6] (by simp))),
      .conn (.segment (Segment.fromPeer 500 100 16 1000 [1, 2] (by simp)))]
  have hall := h _ _ _ (established_fresh (Or.inl rfl)) rfl (by decide) hrun (by decide)
  have hlast := (hall.get ⟨2, by decide⟩).2.2
  -- RCV.NXT is 505, which the second segment holds
  refine hlast ⟨_, List.mem_append_left _ (List.mem_cons_of_mem _ List.mem_cons_self), _, rfl, ?_⟩
  decide

end Completeness

end TcpIp
