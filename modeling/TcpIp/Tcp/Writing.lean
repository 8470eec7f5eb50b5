import TcpIp.Tcp.SendRing

/-! What a call of `Write` reports, against what it has put in the send buffer. -/
namespace TcpIp

open Runs

/-- The count `Write` returns; with an error it is 0. -/
def WriteOutcome.count : WriteOutcome → U32
  | .returned amountWritten => amountWritten
  | .failed => 0

/-- The bytes the current call has queued, with those by which a move of it advances LBW. -/
def queuedBytes (queued : ℕ) (x : Move Writer WriterLabel) : ℕ :=
  match x.ev.ev with
  | .enter _ => 0
  | .step => queued + (x.dst.conn.tcb.snd.lbw - x.src.conn.tcb.snd.lbw).toNat
  | _ => queued

/-- The number of bytes by which the last call has advanced LBW. -/
def callQueued (tr : List (Move Writer WriterLabel)) : ℕ := tr.foldl queuedBytes 0

/-- A return reports what the call queued. -/
def Reported (pre : List (Move Writer WriterLabel)) (x : Move Writer WriterLabel) : Prop :=
  ∀ o, x.ev.out = some o → o.count.toNat = callQueued (pre ++ [x])

namespace Writer

/-- The next step of the call is one of its three error exits. -/
def fails (w : Writer) : Bool :=
  let s := w.conn.tcb
  match w.pc with
  | .outside => false
  | .looping call =>
    call.amountWritten < call.amountToWrite && s.state ≠ .established && s.state ≠ .closeWait
  | .blocked _ => w.writeCancelled || s.timeoutCancelled

/-- An error exit of a call that has queued some of its data. -/
def losesCount (w : Writer) : WriterEvent → Bool
  | .step => w.fails && w.pc.call.any fun call => 0 < call.amountWritten
  | _ => false

end Writer

/-- The call has counted what it queued, and has not gone past the end of its data. -/
def Counting (tr : List (Move Writer WriterLabel)) (w : Writer) : Prop :=
  ∀ call, w.pc.call = some call →
    call.amountWritten.toNat = callQueued tr ∧ call.amountWritten ≤ call.amountToWrite

section Counting

variable {w w' : Writer} {l : WriterLabel} {tr : List (Move Writer WriterLabel)} {call : WriteCall}

theorem callQueued_snoc (x : Move Writer WriterLabel) :
    callQueued (tr ++ [x]) = queuedBytes (callQueued tr) x := by
  simp [callQueued]

/-- A step of the call that leaves LBW alone queues nothing. -/
theorem queuedBytes_same {x : Move Writer WriterLabel} {queued : ℕ} (hev : x.ev.ev = .step)
    (h : x.dst.conn = x.src.conn) : queuedBytes queued x = queued := by
  simp [queuedBytes, hev, h]

/-- What is left to write, as the code computes it; also for data of `2 ^ 32` bytes and more. -/
theorem WriteCall.rest_length (h : call.amountWritten ≤ call.amountToWrite) :
    BitVec.ofNat 32 call.rest.length = call.amountToWrite - call.amountWritten := by
  have hlt := call.amountWritten.isLt
  rw [BitVec.le_def, WriteCall.amountToWrite, BitVec.toNat_ofNat] at h
  apply BitVec.eq_of_toNat_eq
  rw [BitVec.toNat_sub, WriteCall.amountToWrite, BitVec.toNat_ofNat, BitVec.toNat_ofNat,
    WriteCall.rest, List.length_drop]
  omega

/-- A round takes no more than is left to write. -/
theorem WriteCall.writable_rest_le (s : Send) (h : call.amountWritten ≤ call.amountToWrite) :
    call.amountWritten.toNat + (s.writable call.rest).toNat ≤ call.amountToWrite.toNat := by
  have hle : (s.writable call.rest).toNat ≤ (call.amountToWrite - call.amountWritten).toNat := by
    rw [Send.writable, WriteCall.rest_length h, toNat_min32]
    exact Nat.min_le_right _ _
  bv_omega

/-- A step of the call returns an error exactly at one of the error exits. -/
theorem failed_iff {env : Env} {o : Option WriteOutcome} (h : w.step env .step = some (w', o)) :
    o = some .failed ↔ w.fails = true := by
  have hcopy : ∀ {call : WriteCall}, (w.copy call).map (fun w' => (w', none)) = some (w', o) →
      o = none := by
    intro call hc
    obtain ⟨q, -, heq⟩ := Option.map_eq_some_iff.mp hc
    exact (Prod.mk.inj heq).2.symm
  cases hpc : w.pc with
  | outside => simp [Writer.step, hpc] at h
  | looping call =>
    simp only [Writer.step, hpc, Writer.round] at h
    simp only [Writer.fails, hpc]
    split at h
    · rename_i hlt
      split at h
      · rename_i hstate
        obtain ⟨-, rfl⟩ := Prod.mk.inj (Option.some.inj h)
        simp [hlt, hstate]
      · rename_i hstate
        have hno : o = none := by
          split at h
          · exact (Prod.mk.inj (Option.some.inj h)).2.symm
          · exact hcopy h
        simp only [hno, hlt, decide_true, Bool.true_and]
        simpa [not_and] using hstate
    · rename_i hlt
      obtain ⟨-, rfl⟩ := Prod.mk.inj (Option.some.inj h)
      simp [hlt]
  | blocked call =>
    simp only [Writer.step, hpc, Writer.woken] at h
    simp only [Writer.fails, hpc]
    split at h
    · rename_i hcancelled
      obtain ⟨-, rfl⟩ := Prod.mk.inj (Option.some.inj h)
      simp [hcancelled]
    split at h
    · rename_i htimeout
      obtain ⟨-, rfl⟩ := Prod.mk.inj (Option.some.inj h)
      simp [htimeout]
    · rename_i hcancelled htimeout
      have hno : o = none := by
        split at h
        · exact (Prod.mk.inj (Option.some.inj h)).2.symm
        · exact hcopy h
      simp [hno, hcancelled, htimeout]

theorem Counting.step (hI : Counting tr w) (hs : WriterStep w l w') :
    Counting (tr ++ [⟨w, l, w'⟩]) w' := by
  have hm := hs.moved
  obtain ⟨ev, out⟩ := l
  simp only at hm
  intro call hcall
  rw [callQueued_snoc]
  cases hm with
  | conn | cancel => exact hI call hcall
  | refused hpc => simp [hpc, WritePc.call] at hcall
  | returned | failed => simp [WritePc.call] at hcall
  | entered hpc =>
    obtain rfl := Option.some.inj hcall
    exact ⟨rfl, by bv_omega⟩
  | blocks hpc =>
    obtain rfl := Option.some.inj hcall
    rw [queuedBytes_same rfl rfl]
    exact hI _ hpc
  | @copied call' t n hpc hpart =>
    obtain rfl := Option.some.inj hcall
    obtain ⟨hcount, hle⟩ := hI call' hpc
    obtain ⟨rfl, buffer, rfl, -⟩ := writePart_wrote hpart
    have hroom := WriteCall.writable_rest_le w.conn.tcb.snd hle
    have hsum : (call'.amountWritten + w.conn.tcb.snd.writable call'.rest).toNat =
        call'.amountWritten.toNat + (w.conn.tcb.snd.writable call'.rest).toNat := by
      rw [BitVec.toNat_add, Nat.mod_eq_of_lt (hroom.trans_lt (BitVec.isLt _))]
    have hmoved : w.conn.tcb.snd.lbw + w.conn.tcb.snd.writable call'.rest - w.conn.tcb.snd.lbw =
        w.conn.tcb.snd.writable call'.rest := by
      rw [BitVec.add_comm, BitVec.add_sub_cancel]
    refine ⟨?_, ?_⟩
    · simp only [queuedBytes, hmoved, hsum, hcount]
    · rw [WriteCall.amountToWrite] at hroom ⊢
      rw [BitVec.le_def, hsum]
      exact hroom

/-- A return is right unless it is an error after some bytes. -/
theorem Counting.reported_iff (hI : Counting tr w) (hs : WriterStep w l w') :
    Reported tr ⟨w, l, w'⟩ ↔ w.losesCount l.ev = false := by
  have hm := hs.moved
  obtain ⟨env, hstep⟩ := hs
  unfold Reported
  rw [callQueued_snoc]
  obtain ⟨ev, out⟩ := l
  simp only at hm hstep ⊢
  cases hm with
  | conn | cancel | entered => simp [Writer.losesCount]
  | refused => simp [Writer.losesCount, queuedBytes, WriteOutcome.count]
  | @returned call hpc hdone =>
    obtain ⟨hcount, hle⟩ := hI call hpc
    have hall : call.amountToWrite = call.amountWritten := by bv_omega
    have hgoes : w.fails = false := Bool.eq_false_of_not_eq_true fun hf => by
      simpa using (failed_iff hstep).mpr hf
    rw [queuedBytes_same rfl rfl]
    simp [Writer.losesCount, WriteOutcome.count, hall, hcount, hgoes]
  | failed =>
    have hfails := (failed_iff hstep).mp rfl
    obtain ⟨call, hpc⟩ : ∃ call, w.pc.call = some call := by
      cases hpc : w.pc <;> simp_all [Writer.fails, WritePc.call]
    obtain ⟨hcount, -⟩ := hI call hpc
    rw [queuedBytes_same rfl rfl, ← hcount]
    simp only [Writer.losesCount, hfails, hpc, WriteOutcome.count, Option.some.injEq, forall_eq',
      Bool.true_and, Option.any_some, decide_eq_false_iff_not]
    bv_omega
  | blocks | copied =>
    have hgoes : w.fails = false := Bool.eq_false_of_not_eq_true fun hf => by
      simpa using (failed_iff hstep).mpr hf
    simp [Writer.losesCount, hgoes]

end Counting

section Report

variable {w w' : Writer} {tr : List (Move Writer WriterLabel)}

/-- Whatever comes in or is cancelled meanwhile, `Write` reports the bytes it queued exactly if no
call is left through an error exit after some of them. -/
theorem write_reports_iff (h0 : w.pc = .outside) (h : Run WriterStep w tr w') :
    Along Reported tr ↔ ∀ x ∈ tr, x.src.losesCount x.ev.ev = false := by
  have hiff : Along Reported tr ↔ Along (fun _ x => x.src.losesCount x.ev.ev = false) tr :=
    h.along_iff (I := Counting) (H := fun _ _ => True) (by simp [Counting, h0, WritePc.call])
      (fun _ _ _ _ => trivial) (fun _ _ _ _ hI hs _ _ => hI.step hs)
      (fun _ _ _ _ hI hs _ => hI.reported_iff hs)
  exact ⟨fun hall => forall_mem_of_along (hiff.mp hall), fun hall =>
    hiff.mpr (along_of_forall_mem hall)⟩

/-- A connection with room for one more byte in its send buffer. -/
def Conn.nearlyFull : Conn :=
  let c := Conn.fresh 100 100 500
  { c with tcb := { c.tcb with snd := { c.tcb.snd with lbw := 65634 } } }

/-- Three bytes go in as an acknowledgement makes room for the last two. -/
theorem write_reports_iff_two_rounds :
    let w : Writer := { conn := Conn.nearlyFull }
    let tr := (w.play [.enter [1, 2, 3], .step, .step,
      .conn (.segment (Segment.fromPeer 500 110 16 1000 [] (by simp))), .step, .step]).1
    (∃ x ∈ tr, x.ev.out = some (.returned 3)) ∧
      (Along Reported tr ↔ ∀ x ∈ tr, x.src.losesCount x.ev.ev = false) :=
  ⟨by decide, write_reports_iff rfl (Writer.play_run _ _)⟩

/-- One byte is queued, the call waits for room for the second, and the socket is closed for
writing: the call returns 0. -/
theorem write_loses_count_when_cancelled :
    ¬ ∀ (w w' : Writer) (tr : List (Move Writer WriterLabel)), w.pc = .outside →
      Run WriterStep w tr w' → Along Reported tr := by
  intro h
  have hrun := Writer.play_run { conn := Conn.nearlyFull } [.enter [1, 2], .step, .step, .cancel,
    .step]
  have hlast := (h _ _ _ rfl hrun).get ⟨4, by decide⟩ .failed (by decide)
  exact absurd hlast (by decide)

end Report

end TcpIp
