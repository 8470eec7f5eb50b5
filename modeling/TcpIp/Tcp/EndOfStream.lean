import TcpIp.Tcp.Reassembly
import TcpIp.Tcp.StateDiagram
import TcpIp.Tcp.TimeWait

/-! When `Read` reports the end of the stream. -/
namespace TcpIp

open Runs Spans

/-- Data can still come in, or the end of the stream has been seen. -/
def Conn.live (c : Conn) : Prop :=
  c.tcb.state = .established ∨ c.tcb.state = .closeWait ∨
    c.inTable = true ∧ (c.tcb.state = .finWait1 ∨ c.tcb.state = .finWait2)

/-- Outside ESTABLISHED and CLOSE_WAIT the FIN is sent, and no later `Close` sends another. -/
def Conn.FinPast (c : Conn) : Prop :=
  c.inTable = true → c.tcb.state ≠ .established → c.tcb.state ≠ .closeWait →
    c.tcb.cancelled = true ∧ c.tcb.snd.nxt = c.tcb.snd.lbw + 1

section Live

variable {c c' : Conn} {l : Label} {ev : Event} {s : Sender} {seg : Segment} {out : List Msg}

/-- A socket that has left the table does not come back. -/
theorem Step.inTable (h : Step c l c') (hin : c'.inTable = true) : c.inTable = true := by
  have hm := h.moved
  generalize l.ev = ev at hm
  generalize l.out = o at hm
  cases hm with
  | segment hin' => exact hin'
  | closeWaits hc | closes hc => cases hc <;> exact hin
  | closeReturn | gaveUp | handshakeGaveUp => cases hin
  | _ => exact hin

theorem Step.inTable_of_segment (h : Step c l c') (hev : l.ev = .segment seg) :
    c.inTable = true := by
  have hm := h.moved
  generalize l.ev = ev at hm hev
  generalize l.out = o at hm
  cases hm with
  | segment hin' => exact hin'
  | closeWaits hc | closes hc => cases hc <;> cases hev
  | handshakeGaveUp hh => rcases hh with ⟨rfl, -⟩ | ⟨rfl, -⟩ <;> cases hev
  | handshakeResent hh => rcases hh with ⟨rfl, -⟩ | ⟨rfl, -⟩ <;> cases hev
  | _ => cases hev

/-- A timer that closes the connection takes it out of the table. -/
theorem Step.state_of_timer (h : Step c l c') (hev : l.ev.isTimer = true) (hin : c'.inTable = true) :
    c'.tcb.state = c.tcb.state := by
  have hm := h.moved
  generalize l.ev = ev at hm hev
  generalize l.out = o at hm
  cases hm with
  | gaveUp | handshakeGaveUp => cases hin
  | closeWaits hc | closes hc => cases hc <;> cases hev
  | handshakeResent => rfl
  | timerStopped | timerIdle | resent => rfl
  | _ => cases hev

/-- A FIN that is counted ends the receiving. -/
theorem Step.state_of_countsFin (h : Step c l c') (hf : c.countsFin l.ev = true) :
    c'.tcb.state = .closing ∨ c'.tcb.state = .timeWait := by
  cases hev : l.ev with
  | segment seg =>
    rw [hev] at hf
    have hh := h.handled hev
    generalize l.out.msgs = o at hh
    cases hh with
    | ignored _ hno => simp [hno] at hf
    | received hr hack => simp [countsFin_of_passes (hr.passes hack)] at hf
    | finWait1Fin =>
      simp only [Conn.finInFinWait1]
      split <;> simp
    | finWait2Fin hs _ _ hs' => exact Or.inr (by rw [hs'])
    | finRepeated hs => rcases hs with hs | hs <;> simp [Conn.countsFin, hs] at hf
    | synSent iss hs | synRepeated hs | accepted hs | fin hs | closingAcked hs | lastAcked k hs =>
      simp [Conn.countsFin, hs] at hf
  | _ => simp [hev, Conn.countsFin] at hf

/-- Nothing is written outside ESTABLISHED and CLOSE_WAIT. -/
theorem SenderMove.lbw_eq (h : SenderMove c ev s)
    (hopen : c.tcb.state ≠ .synSent ∧ c.tcb.state ≠ .synReceived)
    (hne : c.tcb.state ≠ .established ∧ c.tcb.state ≠ .closeWait) :
    s.snd.lbw = c.tcb.snd.lbw := by
  cases h with
  | opened hs => exact absurd hs (not_or.mpr hopen)
  | wrote hs => exact absurd hs (not_or.mpr hne)
  | _ => rfl

theorem Conn.FinPast.step (hp : c.FinPast) (h : Step c l c')
    (hopen : c.tcb.state ≠ .synSent ∧ c.tcb.state ≠ .synReceived)
    (hwait : c.live → c.waitForClosed = 0) : c'.FinPast := by
  intro hin hest hcw
  have hin' := h.inTable hin
  by_cases hdata : c.tcb.state = .established ∨ c.tcb.state = .closeWait
  · have hlive : c.live := hdata.imp id Or.inl
    have hm := h.state
    generalize hst : c'.tcb.state = st at hm
    generalize hev : l.ev = ev at hm
    cases hm with
    | same => rcases hdata with hs | hs <;> simp [hst, hs] at hest hcw
    | finSent hcl heq =>
      obtain ⟨hcan, hsnd⟩ := h.snd_of_close (hev ▸ hcl) heq
      exact ⟨hcan, by rw [hsnd, heq]⟩
    | gaveUp htimer =>
      have hkept := h.state_of_timer (by rcases htimer with rfl | rfl | rfl <;> simp [hev, Event.isTimer]) hin
      rw [← hkept] at hdata
      exact absurd hdata (not_or.mpr ⟨hest, hcw⟩)
    | expired hpos => simp [hwait hlive] at hpos
    | established hs => exact absurd hs (not_or.mpr hopen)
    | synReceived hs => exact absurd hs hopen.1
    | pendingFin | fin => simp [hst] at hcw
    | finAcked hs | finWait1Fin hs | finWait2Fin hs | closingAcked hs | lastAcked hs =>
      rcases hdata with hs' | hs' <;> simp [hs'] at hs
  · obtain ⟨hne, hne'⟩ := not_or.mp hdata
    obtain ⟨hcan, hnxt⟩ := hp hin' hne hne'
    obtain ⟨hcan', hnxt'⟩ := h.sender.cancelled hcan hopen
    refine ⟨hcan', ?_⟩
    have hlbw : c'.tcb.snd.lbw = c.tcb.snd.lbw := h.sender.lbw_eq hopen ⟨hne, hne'⟩
    rcases hnxt' with heq | ⟨-, heq⟩
    · rw [hlbw, ← hnxt]
      exact heq
    · rw [heq] at hnxt
      bv_omega

/-- A live connection was live before, and has counted no FIN. -/
theorem Step.live (h : Step c l c') (hp : c.FinPast)
    (hopen : c.tcb.state ≠ .synSent ∧ c.tcb.state ≠ .synReceived) (hlive : c'.live) :
    c.live ∧ c.countsFin l.ev = false := by
  refine ⟨?_, ?_⟩
  · have hm := h.state
    have hseg : ∀ seg, l.ev = .segment seg → c.inTable = true := fun _ => h.inTable_of_segment
    generalize hev : l.ev = ev at hm hseg
    unfold Conn.live at hlive ⊢
    generalize c'.tcb.state = st at hm hlive
    cases hm with
    | same => exact hlive.imp id (Or.imp id (And.imp h.inTable id))
    | established hs => exact absurd hs (not_or.mpr hopen)
    | synReceived hs => exact absurd hs hopen.1
    | pendingFin hr =>
      have hin := hseg _ rfl
      cases hr with
      | established hs => exact Or.inl hs
      | finWait1 hs | finAcked hs => exact Or.inr (Or.inr ⟨hin, Or.inl hs⟩)
      | finWait2 hs => exact Or.inr (Or.inr ⟨hin, Or.inr hs⟩)
    | fin hs => exact Or.inl hs
    | finAcked hs => exact Or.inr (Or.inr ⟨hseg _ rfl, Or.inl hs⟩)
    | finSent hcl heq =>
      by_contra hdead
      simp only [not_or] at hdead
      rw [if_neg hdead.2.1] at hlive
      have hin : c'.inTable = true := by simpa using hlive
      have hnxt := (hp (h.inTable hin) hdead.1 hdead.2.1).2
      rw [heq] at hnxt
      bv_omega
    | finWait1Fin => split at hlive <;> simp at hlive
    | finWait2Fin | closingAcked | lastAcked | gaveUp | expired => simp at hlive
  · by_contra hf
    rcases h.state_of_countsFin (by simpa using hf) with hs | hs <;> simp [Conn.live, hs] at hlive

theorem Step.waitForClosed_live (h : Step c l c') (hlive : c'.live) :
    c'.waitForClosed ≤ c.waitForClosed := by
  rcases h.waitForClosed with hle | hs
  · exact hle
  · simp [Conn.live, hs] at hlive

end Live

/-- The segment of a peer whose stream is `S`, numbered from `f` on modulo `2 ^ 32`: its payload is
a piece of `S`, and its FIN comes right after the last byte. -/
def Segment.ofStream (f : U32) (S : List U8) (seg : Segment) : Bool :=
  (seg.payload.isEmpty || seg.payload.isPrefixOf (S.drop (seg.hdr.seqNum - f).toNat)) &&
    (!seg.hdr.hasFin ||
      seg.hdr.seqNum + BitVec.ofNat 32 seg.payload.length = f + BitVec.ofNat 32 S.length)

def ReaderEvent.ofStream (f : U32) (S : List U8) : ReaderEvent → Bool
  | .conn (.segment seg) => seg.ofStream f S
  | _ => true

def ReaderEvent.isFin : ReaderEvent → Bool
  | .conn (.segment seg) => seg.hdr.hasFin
  | _ => false

/-- A FIN of the peer has come in. -/
def FinCame (tr : List (Move Reader ReaderLabel)) : Prop := ∃ x ∈ tr, x.ev.ev.isFin = true

/-- EOF is reported only after the FIN, with the whole stream returned. -/
def EofAtEnd (S : List U8) (pre : List (Move Reader ReaderLabel)) (x : Move Reader ReaderLabel) :
    Prop :=
  x.ev.out.read = some .eof → FinCame pre ∧ returnedBytes pre = S

/-- Where the end of the stream is taken for reached too early: a FIN in ESTABLISHED whose payload
is dropped, a remembered FIN that is the zero value of `PendingReceivedFin`, an EOF over bytes the
call has in hand, or an EOF for a timeout. -/
def Reader.mistakesEnd (r : Reader) : ReaderEvent → Bool
  | .conn (.segment seg) =>
    r.conn.tcb.state = .established && seg.hdr.hasFin && 0 < seg.payload.length &&
        r.conn.tcb.rcv.nxt ≤ seg.hdr.seqNum ||
      r.conn.reachesFin seg && r.conn.tcb.pendingReceivedFin = 0
  | ev => r.losesBytes ev || r.eofByTimeout ev

/-- The receiver holds pieces of the stream, and what was returned and is in hand is the stream up
to LBR. CLOSE_WAIT comes with the last byte. -/
structure Delivering (f : U32) (S : List U8) (tr : List (Move Reader ReaderLabel)) (r : Reader) :
    Prop where
  holding : r.conn.receiver.Holding (Ring.Numbered f.toNat S) (2 ^ 32 - 1)
  copying : ∀ call n, r.pc = .copying call n →
    r.conn.tcb.rcv.lbr.toNat + n.toNat ≤ r.conn.tcb.rcv.nxt.toNat
  first : f.toNat ≤ r.conn.tcb.rcv.lbr.toNat
  given : returnedBytes tr ++ r.pc.data = S.take (r.conn.tcb.rcv.lbr.toNat - f.toNat)
  waitForClosed : r.conn.waitForClosed = 0
  reached : r.conn.tcb.state = .closeWait → r.conn.tcb.rcv.nxt.toNat = f.toNat + S.length

/-- What holds on the way: a remembered FIN stands at the end of the stream. -/
structure Ending (f : U32) (S : List U8) (tr : List (Move Reader ReaderLabel)) (r : Reader) :
    Prop where
  opened : r.conn.tcb.state ≠ .synSent ∧ r.conn.tcb.state ≠ .synReceived
  accounting : Accounting tr r
  finPast : r.conn.FinPast
  pending : r.conn.tcb.pendingReceivedFin ≠ 0 →
    r.conn.tcb.pendingReceivedFin = f + BitVec.ofNat 32 S.length ∧ FinCame tr
  finCame : r.conn.tcb.state = .closeWait → FinCame tr
  delivering : r.conn.live → Delivering f S tr r

section Ending

variable {f : U32} {S : List U8} {r r' : Reader} {l : ReaderLabel} {seg : Segment}
  {tr : List (Move Reader ReaderLabel)} {c : Conn} {ev : Event} {o : Output}

theorem FinCame.snoc (h : FinCame tr) (x : Move Reader ReaderLabel) : FinCame (tr ++ [x]) := by
  obtain ⟨y, hy, hf⟩ := h
  exact ⟨y, List.mem_append_left _ hy, hf⟩

theorem finCame_last {x : Move Reader ReaderLabel} (h : x.ev.ev.isFin = true) :
    FinCame (tr ++ [x]) :=
  ⟨x, by simp, h⟩

/-- From RCV.NXT on, the numbering is the one without wrap-around. -/
theorem Segment.numbered_of_ofStream (h : seg.ofStream f S = true)
    (hf : f.toNat ≤ seg.hdr.seqNum.toNat) (j : ℕ) (b : U8) (hb : seg.payload[j]? = some b) :
    Ring.Numbered f.toNat S (seg.hdr.seqNum.toNat + j) b := by
  refine Segment.numbered_of_sliceOf ?_ j b hb
  have hoff : (seg.hdr.seqNum - f).toNat = seg.hdr.seqNum.toNat - f.toNat := by bv_omega
  simp only [Segment.ofStream, Bool.and_eq_true, hoff] at h
  simpa [Segment.sliceOf, hf] using h.1

/-- A number of the stream's end that is not below the first is the end itself. -/
theorem toNat_of_end {n : U32} (hlen : S.length < 2 ^ 32) (hf : f.toNat ≤ n.toNat)
    (hn : n = f + BitVec.ofNat 32 S.length) : n.toNat = f.toNat + S.length := by
  have hL : (BitVec.ofNat 32 S.length).toNat = S.length := by
    rw [BitVec.toNat_ofNat, Nat.mod_eq_of_lt hlen]
  bv_omega

/-- A FIN without payload stands at the end of the stream. -/
theorem Segment.seqNum_of_fin (h : seg.ofStream f S = true) (hf : seg.hdr.hasFin = true)
    (hnil : seg.payload.length = 0) : seg.hdr.seqNum = f + BitVec.ofNat 32 S.length := by
  simp only [Segment.ofStream, hf, hnil, Bool.and_eq_true] at h
  simpa using h.2

/-- A FIN that ESTABLISHED takes up carries no payload. -/
theorem payload_of_mistakesEnd (h : r.mistakesEnd (.conn (.segment seg)) = false)
    (hs : r.conn.tcb.state = .established) (hf : seg.hdr.hasFin = true)
    (hle : r.conn.tcb.rcv.nxt ≤ seg.hdr.seqNum) : seg.payload.length = 0 := by
  simp only [Reader.mistakesEnd, hs, hf, hle, Bool.or_eq_false_iff] at h
  simpa using h.1

theorem pending_of_mistakesEnd (h : r.mistakesEnd (.conn (.segment seg)) = false)
    (hr : r.conn.reachesFin seg = true) : r.conn.tcb.pendingReceivedFin ≠ 0 := by
  simp only [Reader.mistakesEnd, hr, Bool.or_eq_false_iff] at h
  simpa using h.2

/-- RCV.NXT at the end of the stream where CLOSE_WAIT is entered or kept. -/
theorem Ending.reached (h : Ending f S tr r) (hs : Step r.conn ⟨ev, o⟩ c)
    (hlen : S.length < 2 ^ 32) (hS : (ReaderEvent.conn ev).ofStream f S = true)
    (hok : r.mistakesEnd (.conn ev) = false) (hd : Delivering f S tr r)
    (hcount : r.conn.countsFin ev = false) (hf : f.toNat ≤ c.tcb.rcv.nxt.toNat)
    (hcw : c.tcb.state = .closeWait) : c.tcb.rcv.nxt.toNat = f.toNat + S.length := by
  have hnxt : (∀ seg, ev = .segment seg → r.conn.passesToReceive seg.hdr = false) →
      c.tcb.rcv.nxt = r.conn.tcb.rcv.nxt := hs.receiver.nxt_eq h.opened.1 hcount
  have hreach : ∀ seg, ev = .segment seg → r.conn.reachesFin seg = true →
      c.tcb.rcv.nxt = r.conn.tcb.pendingReceivedFin := fun _ => hs.nxt_of_reachesFin
  have hm := hs.state
  simp only at hm
  rw [hcw] at hm
  generalize hst : ConnectionState.closeWait = st at hm
  cases hm with
  | same =>
    rw [hnxt fun seg _ => by simp [Conn.passesToReceive, ← hst]]
    exact hd.reached hst.symm
  | @pendingFin seg _ _ hr =>
    have hp := hreach seg rfl hr
    exact toNat_of_end hlen hf (hp.trans (h.pending (pending_of_mistakesEnd hok hr)).1)
  | @fin seg hest hfin hseq =>
    have hnil := payload_of_mistakesEnd hok hest hfin (by simp [hseq])
    have hsame := hnxt fun seg' hev => by
      obtain rfl := Event.segment.inj hev
      simp [Conn.passesToReceive, hest, hfin]
    exact toNat_of_end hlen hf (hsame.trans (hseq.symm.trans (seg.seqNum_of_fin hS hfin hnil)))
  | finWait1Fin | finSent => split at hst <;> cases hst
  | _ => cases hst

theorem Ending.deliveringConn (h : Ending f S tr r) (hs : Step r.conn ⟨ev, o⟩ c)
    (hlen : S.length < 2 ^ 32) (hread : ev.isRead = false)
    (hS : (ReaderEvent.conn ev).ofStream f S = true) (hok : r.mistakesEnd (.conn ev) = false)
    (hlive : c.live) {out : Output} (hout : out.read = none) :
    Delivering f S (tr ++ [⟨r, ⟨.conn ev, out⟩, { r with conn := c }⟩]) { r with conn := c } := by
  obtain ⟨hlive', hcount⟩ := hs.live h.finPast h.opened hlive
  have hd := h.delivering hlive'
  have hfnxt : f.toNat ≤ r.conn.tcb.rcv.nxt.toNat := hd.first.trans hd.holding.lbr_le
  obtain ⟨hhold, hnxt, -⟩ := hd.holding.move hs.receiver (by omega) h.opened.1 hcount
    fun seg hev _ hlo hup hfit => ⟨hd.holding.end_lt hlo hup hfit, by
      subst hev
      exact seg.numbered_of_ofStream hS (by bv_omega)⟩
  have hlbr : c.tcb.rcv.lbr = r.conn.tcb.rcv.lbr := hs.receiver.lbr_eq hread h.opened.1
  have hwait := hs.waitForClosed_live hlive
  refine ⟨hhold, fun call n hcopy => ?_, ?_, ?_, ?_, fun hcw => ?_⟩
  · simp only [hlbr]
    exact (hd.copying call n hcopy).trans hnxt
  · simp only [hlbr]
    exact hd.first
  · simpa [returnedBytes_snoc, hout, hlbr] using hd.given
  · simpa [hd.waitForClosed] using hwait
  · exact h.reached hs hlen hS hok hd hcount (hfnxt.trans hnxt) hcw

/-- A step of anything but `Read`. -/
theorem Ending.conn (h : Ending f S tr r) (hlen : S.length < 2 ^ 32)
    (hstep : ReaderStep r ⟨.conn ev, o⟩ r') (hS : (ReaderEvent.conn ev).ofStream f S = true)
    (hok : r.mistakesEnd (.conn ev) = false) :
    Ending f S (tr ++ [⟨r, ⟨.conn ev, o⟩, r'⟩]) r' := by
  have hacc := h.accounting.step hstep
  have hm := hstep.moved
  simp only at hm
  generalize hout : o.read = read at hm
  cases hm with
  | @conn _ o' c hread hs =>
    refine ⟨hs.not_opening h.opened, hacc, ?_, fun hne => ?_, fun hcw => ?_, fun hlive => ?_⟩
    · exact h.finPast.step hs h.opened fun hlive => (h.delivering hlive).waitForClosed
    · rcases hs.pendingReceivedFin with heq | ⟨seg, hev, hfin, hest, hlt, hp⟩
      · simp only [heq] at hne ⊢
        exact (h.pending hne).imp id (FinCame.snoc · _)
      · obtain rfl : ev = .segment seg := hev
        have hnil := payload_of_mistakesEnd hok hest hfin (BitVec.le_of_lt hlt)
        exact ⟨hp.trans (seg.seqNum_of_fin hS hfin hnil), finCame_last hfin⟩
    · have hst := hs.state
      rw [show c.tcb.state = .closeWait from hcw] at hst
      generalize hcw' : ConnectionState.closeWait = st at hst
      cases hst with
      | same => exact (h.finCame hcw'.symm).snoc _
      | pendingFin _ hr => exact (h.pending (pending_of_mistakesEnd hok hr)).2.snoc _
      | fin _ hfin => exact finCame_last hfin
      | finWait1Fin | finSent => split at hcw' <;> cases hcw'
      | _ => cases hcw'
    · exact h.deliveringConn hs hlen hread hS hok hlive hout

/-- An EOF that loses no bytes comes with nothing in hand. -/
theorem Accounting.data_of_eof (hacc : Accounting tr r) (hstep : ReaderStep r l r')
    (hkept : r.losesBytes l.ev = false) (hout : l.out.read = some .eof) : r.pc.data = [] := by
  have hnone := (hacc.accounted_iff hstep).mpr hkept .eof hout
  have hm := hstep.moved
  rw [hout] at hm
  obtain ⟨ev, out⟩ := l
  cases hm with
  | refused hpc => rw [hpc]; rfl
  | @eof call hpc =>
    have hcall : r.pc.call = some call := by
      rcases hpc with ⟨hpc, -⟩ | hpc <;> rw [hpc] <;> rfl
    rw [callBytes_snoc, tookBytes_same rfl rfl] at hnone
    rw [ReadPc.data_of_call hcall, (hacc.taken call hcall).1]
    exact hnone.2.symm

/-- A call with nothing in hand may end with EOF; any other step hands on what it copies. -/
theorem Delivering.call (hd : Delivering f S tr r) (hstep : ReaderStep r l r')
    (hev : ∀ e, l.ev ≠ .conn e) (hopen : r.conn.tcb.state ≠ .synSent) (hacc : Accounting tr r)
    (hkept : r.losesBytes l.ev = false) : Delivering f S (tr ++ [⟨r, l, r'⟩]) r' := by
  obtain ⟨hhold, hcopy⟩ := hstep.moved.held hev hd.holding hd.copying
  obtain ⟨n, hconn⟩ := hstep.moved.readBy hev
  have hwait : r'.conn.waitForClosed = 0 := by rw [hconn]; exact hd.waitForClosed
  have hreached : r'.conn.tcb.state = .closeWait →
      r'.conn.tcb.rcv.nxt.toNat = f.toNat + S.length := by rw [hconn]; exact hd.reached
  by_cases hout : l.out.read = some .eof
  · have hnil := hacc.data_of_eof hstep hkept hout
    obtain ⟨-, -, rfl⟩ := hstep.eof hout
    refine ⟨hhold, hcopy, hd.first, ?_, hwait, hreached⟩
    have hgiven := hd.given
    rw [hnil] at hgiven
    rw [returnedBytes_snoc, hout, ← hgiven]
    simp [ReadOutcome.bytes, ReadPc.data, ReadPc.call]
  · obtain ⟨hfirst, hgiven⟩ :=
      hstep.given hout hopen hacc hd.holding hd.copying hd.first hd.given
    exact ⟨hhold, hcopy, hfirst, hgiven, hwait, hreached⟩

theorem read_of_mistakesEnd {ev : ReaderEvent} (h : r.mistakesEnd ev = false) :
    r.losesBytes ev = false ∧ r.eofByTimeout ev = false := by
  cases ev with
  | conn e => exact ⟨rfl, rfl⟩
  | _ => simpa [Reader.mistakesEnd] using h

theorem Ending.step (h : Ending f S tr r) (hlen : S.length < 2 ^ 32) (hstep : ReaderStep r l r')
    (hS : l.ev.ofStream f S = true) (hok : r.mistakesEnd l.ev = false) :
    Ending f S (tr ++ [⟨r, l, r'⟩]) r' := by
  by_cases hev : ∀ e, l.ev ≠ .conn e
  · obtain ⟨n, hconn⟩ := hstep.moved.readBy hev
    refine ⟨?_, h.accounting.step hstep, ?_, ?_, ?_, fun hlive => ?_⟩
    · rw [hconn]
      exact h.opened
    · rw [hconn]
      exact h.finPast
    · rw [hconn]
      exact fun hne => (h.pending hne).imp id (FinCame.snoc · _)
    · rw [hconn]
      exact fun hcw => (h.finCame hcw).snoc _
    · rw [hconn] at hlive
      exact (h.delivering hlive).call hstep hev h.opened.1 h.accounting
        (read_of_mistakesEnd hok).1
  · push Not at hev
    obtain ⟨e, he⟩ := hev
    obtain ⟨ev, o⟩ := l
    obtain rfl : ev = .conn e := he
    exact h.conn hlen hstep hS hok

/-- What an EOF means where the end is not mistaken. -/
theorem Ending.eofAtEnd (h : Ending f S tr r) (hstep : ReaderStep r l r')
    (hok : r.mistakesEnd l.ev = false) : EofAtEnd S tr ⟨r, l, r'⟩ := by
  intro hout
  simp only at hout
  obtain ⟨hempty, hend, -⟩ := hstep.eof hout
  obtain ⟨hkept, htime⟩ := read_of_mistakesEnd hok
  have hcw : r.conn.tcb.state = .closeWait := by
    rcases hend with hcw | hcan
    · exact hcw
    · simp [hcan] at htime
  have hd := h.delivering (Or.inr (Or.inl hcw))
  have hgiven := hd.given
  rw [h.accounting.data_of_eof hstep hkept hout, List.append_nil, hempty, hd.reached hcw,
    Nat.add_sub_cancel_left, List.take_length] at hgiven
  exact ⟨h.finCame hcw, hgiven⟩

theorem Established.ending (h : Established r.conn) (hpc : r.pc = .outside)
    (hf : r.conn.tcb.rcv.nxt = f) : Ending f S [] r where
  opened := by simp [h.state]
  accounting := ⟨by simp [hpc, ReadPc.call], by simp [hpc]⟩
  finPast := fun _ hne => absurd h.state hne
  pending := fun hne => absurd h.pendingReceivedFin hne
  finCame := by simp [h.state]
  delivering := fun _ =>
    { holding := h.toUntouched.holding (by omega)
      copying := by simp [hpc]
      first := by rw [h.lbr, hf]
      given := by
        rw [h.lbr, hf]
        simp [returnedBytes, ReadPc.data, hpc, ReadPc.call]
      waitForClosed := h.waitForClosed
      reached := by simp [h.state] }

/-- Whatever comes in and whatever else happens, `Read` reports EOF only after the peer's FIN and
with every byte before it returned, unless the end has been mistaken. -/
theorem eof_at_end (h0 : Established r.conn) (hpc : r.pc = .outside)
    (hirs : r.conn.tcb.rcv.nxt = r.conn.tcb.rcv.irs + 1) (hlen : S.length < 2 ^ 32)
    (h : Run ReaderStep r tr r')
    (hS : ∀ x ∈ tr, x.ev.ev.ofStream (r.conn.tcb.rcv.irs + 1) S = true)
    (hok : ∀ x ∈ tr, x.src.mistakesEnd x.ev.ev = false) : Along (EofAtEnd S) tr := by
  intro pre x post htr
  obtain ⟨hpre, hstep⟩ := h.pre htr
  have hmem : ∀ y ∈ pre, y ∈ tr := fun y hy => by simp [htr, hy]
  have hinv : Ending (r.conn.tcb.rcv.irs + 1) S pre x.src :=
    hpre.inv (I := Ending (r.conn.tcb.rcv.irs + 1) S) (h0.ending hpc hirs)
      (along_of_forall_mem fun y hy => And.intro (hS y (hmem y hy)) (hok y (hmem y hy)))
      fun _ _ _ _ hI hs hx => hI.step hlen hs hx.1 hx.2
  exact hinv.eofAtEnd hstep (hok x (by simp [htr]))

/-- The FIN comes before the last data, and is remembered until that is in. -/
theorem eof_at_end_early_fin :
    let r : Reader := { conn := Conn.fresh 100 100 500 }
    let S : List U8 := [7, 8, 9]
    let tr := (r.play [.conn (.segment (Segment.fromPeer 503 100 17 1000 [] (by simp))),
      .conn (.segment (Segment.fromPeer 501 100 16 1000 [8, 9] (by simp))), .enter 3 false,
      .conn (.segment (Segment.fromPeer 500 100 16 1000 [7] (by simp))), .step, .step, .step,
      .enter 1 false]).1
    (tr.map (·.ev.out.read)).getLast? = some (some .eof) ∧ Along (EofAtEnd S) tr :=
  ⟨by decide, eof_at_end (established_fresh (Or.inl rfl)) rfl (by decide) (by decide)
    (Reader.play_run _ _) (by decide) (by decide)⟩

/-- A FIN that carries two bytes: they are dropped, and the next `Read` reports EOF. -/
theorem eof_before_payload_of_fin :
    ¬ ∀ (r r' : Reader) (tr : List (Move Reader ReaderLabel)) (S : List U8), Established r.conn →
      r.pc = .outside → r.conn.tcb.rcv.nxt = r.conn.tcb.rcv.irs + 1 → S.length < 2 ^ 32 →
      Run ReaderStep r tr r' →
      (∀ x ∈ tr, x.ev.ev.ofStream (r.conn.tcb.rcv.irs + 1) S = true) →
      Along (EofAtEnd S) tr := by
  intro h
  have hrun := Reader.play_run { conn := Conn.fresh 100 100 500 }
    [.conn (.segment (Segment.fromPeer 500 100 17 1000 [7, 8] (by simp))), .enter 2 true]
  have hall := h _ _ _ [7, 8] (established_fresh (Or.inl rfl)) rfl (by decide) (by decide) hrun
    (by decide)
  have hlast := hall.get ⟨1, by decide⟩ (by decide)
  exact absurd hlast.2 (by decide)

-- with RCV.NXT at 0, data out of order alone is taken for the FIN
example :
    let r : Reader := { conn := Conn.fresh 100 100 0 }
    let tr := (r.play [.conn (.segment (Segment.fromPeer 1 100 16 1000 [8] (by simp))),
      .enter 2 true]).1
    tr.map (·.ev.out.read) = [none, some .eof] ∧ ∀ x ∈ tr, x.ev.ev.isFin = false := by decide

end Ending

end TcpIp
