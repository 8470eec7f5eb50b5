import TcpIp.Tcp.FastRetransmit

/-! How far RTO backs off, with the estimate of `updateTimeout` left open. -/
namespace TcpIp

open Runs

/-- A step of the connection in which an RTT sample may set RTO to any value in its range. -/
def EstimatingStep (c : Conn) (l : Label) (c' : Conn) : Prop :=
  ∃ d, Step c l d ∧
    ((c.samples l.ev = false ∧ c' = d) ∨
      (c.samples l.ev = true ∧ ∃ rto, rtoLower ≤ rto ∧ rto ≤ rtoUpper ∧
        c' = { d with tcb := { d.tcb with rto } }))

/-- RTO is positive and at most RTO_UPPER doubled MAX_RETRANSMISSIONS times. -/
def Conn.RtoBounded (c : Conn) : Prop :=
  0 < c.tcb.rto.toInt ∧ c.tcb.rto.toInt ≤ rtoUpper.toInt * 2 ^ maxRetransmissions

instance (c : Conn) : Decidable c.RtoBounded := inferInstanceAs (Decidable (_ ∧ _))

/-- The doublings since RTO was last set. -/
def backOffs (tr : List (Move Conn Label)) : ℕ :=
  tr.foldl (fun k x => if x.src.samples x.ev.ev then 0
    else if x.src.backsOff x.ev.ev then k + 1 else k) 0

/-- No more doublings than the timer alone may do on one segment. -/
def FewBackOffs (pre : List (Move Conn Label)) (x : Move Conn Label) : Prop :=
  backOffs (pre ++ [x]) ≤ maxRetransmissions

/-- RTO is a value not below `lo`, as it was set, doubled as often as counted. -/
def Doubled (lo : ℤ) (tr : List (Move Conn Label)) (c : Conn) : Prop :=
  ∃ base : ℤ, lo ≤ base ∧ base ≤ rtoUpper.toInt ∧ c.tcb.rto.toInt = base * 2 ^ backOffs tr

section BackOff

variable {c c' : Conn} {l : Label} {tr : List (Move Conn Label)} {x : Move Conn Label} {lo : ℤ}

theorem backOffs_snoc : backOffs (tr ++ [x]) = if x.src.samples x.ev.ev then 0
    else if x.src.backsOff x.ev.ev then backOffs tr + 1 else backOffs tr := by
  simp [backOffs]

@[simp] theorem toInt_rtoUpper : rtoUpper.toInt = 1000000000 := by decide

@[simp] theorem toInt_rtoLower : rtoLower.toInt = 1000000 := by decide

/-- Below a quarter of the range the doubling is exact. -/
theorem toInt_double {r : Int64} (hpos : 0 ≤ r.toInt) (hle : r.toInt ≤ 32000000000) :
    (r * 2).toInt = r.toInt * 2 := by
  rw [Int64.toInt_mul]
  have htwo : (2 : Int64).toInt = 2 := by decide
  rw [htwo]
  exact Int.bmod_eq_of_le (by omega) (by omega)

/-- Without a sample, a step doubles RTO or leaves it. -/
theorem Step.rto (h : Step c l c') (hs : c.samples l.ev = false) :
    c'.tcb.rto = if c.backsOff l.ev then c.tcb.rto * 2 else c.tcb.rto := by
  have hm := h.control
  generalize hk : c'.tcb.control = k at hm
  have hrto : k.rto = c'.tcb.rto := hk ▸ rfl
  rw [← hrto]
  clear hk hrto
  generalize l.ev = ev at hm hs
  cases hm with
  | same hseg hb => simp [hb, TCB.control]
  | dropped hp hf => simp [Conn.backsOff, Conn.fastRetransmits, hf, TCB.control]
  | @acked seg rto ha hr =>
    have hf : c.tcb.thirdDuplicate seg.hdr = false := by
      simp only [Conn.takesAck, TCB.acceptsAck, Bool.and_eq_true, Bool.not_eq_true'] at ha
      exact ha.2.1
    simp [hr hs, Conn.backsOff, Conn.fastRetransmits, hf]
  | fast hf => simp [Conn.backsOff, hf]
  | timedOut hb => simp [hb]
  | enableCC => simp [Conn.backsOff, TCB.control]
  | initCC => simp [Conn.backsOff, TCB.control]

/-- RTO stays a doubled value while the doublings are few. -/
theorem EstimatingStep.doubled (h : EstimatingStep c l c') (hd : Doubled lo tr c) (hlo : 0 < lo)
    (hk : backOffs tr ≤ maxRetransmissions)
    (hs : c.samples l.ev = true → lo ≤ rtoLower.toInt) : Doubled lo (tr ++ [⟨c, l, c'⟩]) c' := by
  obtain ⟨d, hstep, ⟨hno, rfl⟩ | ⟨hyes, rto, hlow, hup, rfl⟩⟩ := h
  · obtain ⟨base, hbase, hle, hrto⟩ := hd
    have hpow : (2 : ℤ) ^ backOffs tr ≤ 2 ^ 5 := pow_le_pow_right₀ (by norm_num) hk
    have hpos : (0 : ℤ) < 2 ^ backOffs tr := by positivity
    rw [toInt_rtoUpper] at hle
    refine ⟨base, hbase, by rwa [toInt_rtoUpper], ?_⟩
    rw [hstep.rto hno, backOffs_snoc]
    simp only [hno, Bool.false_eq_true, if_false]
    by_cases hb : c.backsOff l.ev = true
    · rw [if_pos hb, if_pos hb, toInt_double (by nlinarith) (by nlinarith), hrto, pow_succ]
      ring
    · rw [if_neg hb, if_neg hb, hrto]
  · refine ⟨rto.toInt, (hs hyes).trans (Int64.le_iff_toInt_le.mp hlow),
      Int64.le_iff_toInt_le.mp hup, ?_⟩
    rw [backOffs_snoc]
    simp [hyes]

theorem Doubled.bounded (hd : Doubled lo tr c) (hlo : 0 < lo)
    (hk : backOffs tr ≤ maxRetransmissions) : c.RtoBounded := by
  obtain ⟨base, hbase, hle, hrto⟩ := hd
  have hpow : (2 : ℤ) ^ backOffs tr ≤ 2 ^ maxRetransmissions := pow_le_pow_right₀ (by norm_num) hk
  have hpos : (0 : ℤ) < 2 ^ backOffs tr := by positivity
  unfold Conn.RtoBounded
  rw [hrto]
  exact ⟨by nlinarith, mul_le_mul hle hpow hpos.le (by simp)⟩

/-- From RTO_UPPER itself, no more doublings fit. -/
theorem Doubled.few (hd : Doubled rtoUpper.toInt tr c) (hb : c.RtoBounded) :
    backOffs tr ≤ maxRetransmissions := by
  obtain ⟨base, hbase, hle, hrto⟩ := hd
  obtain rfl : base = rtoUpper.toInt := le_antisymm hle hbase
  have hup := hb.2
  rw [hrto] at hup
  have hpow : (2 : ℤ) ^ backOffs tr ≤ 2 ^ maxRetransmissions :=
    le_of_mul_le_mul_left hup (by simp)
  exact (pow_le_pow_iff_right₀ (by norm_num)).mp hpow

theorem doubled_start (hc : c.tcb.rto = rtoUpper) (hlo : lo ≤ rtoUpper.toInt) :
    Doubled lo [] c :=
  ⟨rtoUpper.toInt, hlo, le_rfl, by simp [hc, backOffs]⟩

/-- At every point of a run with few doublings since RTO was set, RTO is in bounds. -/
theorem rtoBounded_of_few (hc : c.tcb.rto = rtoUpper) (h : Run EstimatingStep c tr c')
    (hfew : Along FewBackOffs tr) : c'.RtoBounded := by
  have hinv : Doubled rtoLower.toInt tr c' ∧ backOffs tr ≤ maxRetransmissions := by
    refine h.inv (I := fun tr c => Doubled rtoLower.toInt tr c ∧ backOffs tr ≤ maxRetransmissions)
      ⟨doubled_start hc (by simp), by simp [backOffs]⟩ hfew ?_
    rintro tr t e u ⟨hd, hk⟩ hstep hx
    exact ⟨hstep.doubled hd (by simp) hk fun _ => le_rfl, hx⟩
  exact hinv.1.bounded (by simp) hinv.2

/-- RTO is in bounds throughout a run that never doubles it more than MAX_RETRANSMISSIONS times
since it was last set. Where no sample sets it, there is no other such run. -/
theorem rtoBounded_run (hc : c.tcb.rto = rtoUpper) (h : Run EstimatingStep c tr c') :
    (Along FewBackOffs tr → ∀ x ∈ tr, x.dst.RtoBounded) ∧
      ((∀ x ∈ tr, x.src.samples x.ev.ev = false) →
        ((∀ x ∈ tr, x.dst.RtoBounded) ↔ Along FewBackOffs tr)) := by
  constructor
  · intro hfew x hx
    obtain ⟨pre, post, rfl⟩ := List.append_of_mem hx
    obtain ⟨hpre, hstep⟩ := h.pre rfl
    rw [← List.singleton_append, ← List.append_assoc] at hfew
    exact rtoBounded_of_few hc (.snoc hpre hstep) hfew.left
  · intro hno
    have hiff := h.along_iff
      (I := fun tr c => Doubled rtoUpper.toInt tr c ∧ backOffs tr ≤ maxRetransmissions)
      (C := FewBackOffs) (D := fun _ x => x.dst.RtoBounded)
      (H := fun _ x => x.src.samples x.ev.ev = false)
      ⟨doubled_start hc le_rfl, by simp [backOffs]⟩ (along_of_forall_mem hno) ?_ ?_
    · exact ⟨fun hb => hiff.mp (along_of_forall_mem hb),
        fun hf => forall_mem_of_along (hiff.mpr hf)⟩
    · rintro tr t e u ⟨hd, hk⟩ hstep hsample hx
      exact ⟨hstep.doubled hd (by simp) hk (by simp [hsample]), hx⟩
    · rintro tr t e u ⟨hd, hk⟩ hstep hsample
      have hd' := hstep.doubled hd (by simp) hk (by simp [hsample])
      exact ⟨hd'.few, hd'.bounded (by simp)⟩

/-- Without samples a run needs no estimate. -/
theorem run_estimating (h : Run Step c tr c') (hno : ∀ x ∈ tr, x.src.samples x.ev.ev = false) :
    Run EstimatingStep c tr c' := by
  induction h with
  | nil => exact .nil
  | @snoc tr t u e h hs ih =>
    have hlast : t.samples e.ev = false := hno ⟨t, e, u⟩ (by simp)
    exact .snoc (ih fun x hx => hno x (by simp [hx])) ⟨u, hs, Or.inl ⟨hlast, rfl⟩⟩

/-- Two bytes are sent, and the timer resends them five times. -/
def fiveTimeouts : List Event :=
  [.segment (Segment.fromPeer 499 100 18 1000 [] Segment.nil_le), .write [1, 2], .send, .send,
    .timeout, .timeout, .timeout, .timeout, .timeout]

theorem rtoBounded_run_fiveTimeouts :
    let c := Conn.connect ⟨1, 1000, 2, 2000⟩ 99
    let tr := (c.play fiveTimeouts).1
    (∃ x ∈ tr, x.dst.tcb.rto.toInt = 32000000000) ∧
      (Along FewBackOffs tr → ∀ x ∈ tr, x.dst.RtoBounded) ∧
      ((∀ x ∈ tr, x.src.samples x.ev.ev = false) →
        ((∀ x ∈ tr, x.dst.RtoBounded) ↔ Along FewBackOffs tr)) :=
  ⟨by decide, rtoBounded_run rfl (run_estimating (Conn.play_run _ _) (by decide))⟩

/-- Duplicates alone: every fourth one doubles RTO, and nothing counts the doublings. -/
theorem Conn.Watching.doubles (n : ℕ) (hw : c.Watching) (hcur : c.tcb.snd.una = c.tcb.currentAck)
    (hf : c.tcb.currentAckFreq ≤ 3) :
    ∃ tr c', Run Step c tr c' ∧ (∀ x ∈ tr, x.src.samples x.ev.ev = false) ∧
      c'.tcb.rto = (· * 2)^[(c.tcb.currentAckFreq + n) / 4] c.tcb.rto := by
  induction n generalizing c with
  | zero =>
    refine ⟨[], c, .nil, by simp, ?_⟩
    rw [Nat.div_eq_of_lt (by omega)]
    rfl
  | succ n ih =>
    obtain ⟨out, c₁, hstep, hw₁, huna, hack, hfire, hcount⟩ := hw.duplicate ⟨0, 0, true⟩
    have hsample : c.samples (.segment c.duplicateAck) = false := by
      simp [Conn.samples, takesAck_duplicateAck]
    have hcur₁ : c₁.tcb.snd.una = c₁.tcb.currentAck := by rw [huna, hack, hcur]
    have hiff := fastRetransmits_duplicateAck hw
    by_cases h3 : c.tcb.currentAckFreq = 3
    · obtain ⟨hfreq, hrto⟩ := hfire (hiff.mpr ⟨hcur, h3⟩)
      obtain ⟨tr, c', hrun, hno, heq⟩ := ih hw₁ hcur₁ (by omega)
      refine ⟨_, c', hrun.cons hstep, by simpa using ⟨hsample, hno⟩, ?_⟩
      have hdiv : (c.tcb.currentAckFreq + (n + 1)) / 4 = (0 + n) / 4 + 1 := by omega
      rw [heq, hfreq, hrto, hdiv, Function.iterate_succ_apply]
    · have hfast := Bool.eq_false_of_not_eq_true fun h => h3 (hiff.mp h).2
      obtain ⟨hfreq, hrto⟩ := hcount hfast
      rw [if_pos hcur] at hfreq
      obtain ⟨tr, c', hrun, hno, heq⟩ := ih hw₁ hcur₁ (by omega)
      refine ⟨_, c', hrun.cons hstep, by simpa using ⟨hsample, hno⟩, ?_⟩
      have hsum : c.tcb.currentAckFreq + (n + 1) = c.tcb.currentAckFreq + 1 + n := by omega
      rw [heq, hfreq, hrto, hsum]

/-- A byte is outstanding with congestion control on, after an acknowledgement without a
timestamp. -/
def thirdByte : List Event :=
  [.segment (Segment.fromPeer 499 100 18 1000 [] Segment.nil_le), .enableCC, .initCC,
    .write [1, 2], .send, .send, .segment (Segment.fromPeer 500 101 16 1000 [] Segment.nil_le),
    .write [3], .send, .send]

/-- An acknowledgement of the first of two bytes empties the queue and clears the counter, but has
no timestamp. After five timeouts the next segment starts at 32 seconds, and its timer runs out as
well. Fast retransmissions are not limited at all: the thirty-fourth makes RTO negative. -/
theorem rto_exceeds_bound :
    (¬ ∀ (c c' : Conn) (tr : List (Move Conn Label)), Opening c → c.tcb.rto = rtoUpper →
      Run EstimatingStep c tr c' → c'.tcb.rto.toInt ≤ rtoUpper.toInt * 2 ^ maxRetransmissions) ∧
    ¬ ∀ (c c' : Conn) (tr : List (Move Conn Label)), Opening c → c.tcb.rto = rtoUpper →
      Run EstimatingStep c tr c' → 0 < c'.tcb.rto.toInt := by
  have hopen := opening_connect ⟨1, 1000, 2, 2000⟩ 99
  constructor
  · intro h
    have hrun := Conn.play_run (Conn.connect ⟨1, 1000, 2, 2000⟩ 99)
      (fiveTimeouts ++ [.segment (Segment.fromPeer 500 101 16 1000 [] Segment.nil_le), .send,
        .write [3], .send, .send, .timeout])
    exact absurd (h _ _ _ hopen rfl (run_estimating hrun (by decide))) (by decide)
  · intro h
    let c := Conn.connect ⟨1, 1000, 2, 2000⟩ 99
    have hrun := Conn.play_run c thirdByte
    have hno : ∀ x ∈ (c.play thirdByte).1, x.src.samples x.ev.ev = false := by decide
    have hfreq : (c.play thirdByte).2.tcb.currentAckFreq = 1 := by decide
    have hrto : (c.play thirdByte).2.tcb.rto = rtoUpper := by decide
    have hw : (c.play thirdByte).2.Watching := ⟨by decide, by decide, by decide, by decide⟩
    obtain ⟨tr, c', hdups, hquiet, heq⟩ := hw.doubles 135 (by decide) (by decide)
    have hpos := h _ _ _ hopen rfl (run_estimating (hrun.append hdups)
      fun x hx => (List.mem_append.mp hx).elim (hno x) (hquiet x))
    rw [heq, hfreq, hrto] at hpos
    exact absurd hpos (by decide)

end BackOff

end TcpIp
