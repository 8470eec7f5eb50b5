import TcpIp.Net.Handshake

/-! A lost last ACK of the handshake. -/
namespace TcpIp

open Runs

/-- The client is ESTABLISHED while the TCB it shook hands with still waits for the ACK. -/
structure Handshake.AckLost (n : Handshake) (s : Conn) : Prop where
  client : n.client.conn.tcb.state = .established
  server : n.server = some s
  state : s.tcb.state = .synReceived
  same : n.client.conn.tcb.rcv.irs = s.tcb.snd.iss

/-- The SYN-ACK that `s` sends again makes the client send an ACK that opens `s`. -/
def Handshake.SynAckRecovers (n : Handshake) (s : Conn) : Prop :=
  ∃ seg env c' out m seg' env' s' o,
    (s.synAckMsg .resend).segment = some seg ∧
      n.client.step env (.own (.segment seg)) = some (c', out) ∧ m ∈ out ∧
      m.segment = some seg' ∧ s.step env' (.segment seg') = some (s', o) ∧
      s'.tcb.state = .established

/-- A data segment of the client, which acknowledges the SYN of `s`, opens `s`. -/
def DataRecovers (s : Conn) : Prop :=
  ∃ (seg : Segment) (env : Env) (s' : Conn) (o : Output),
    seg.payload ≠ [] ∧ seg.hdr.hasAck = true ∧ seg.hdr.ackNum = s.tcb.snd.iss + 1 ∧
      s.step env (.segment seg) = some (s', o) ∧ s'.tcb.state = .established

/-- One of the two ways out of a lost ACK is open. -/
def Handshake.Recoverable (n : Handshake) (s : Conn) : Prop := n.SynAckRecovers s ∨ DataRecovers s

section Recovery

variable {n : Handshake} {s : Conn} {iss : U32} {taken : Option U32}

/-- An ESTABLISHED client answers no SYN-ACK. -/
theorem Handshake.Ordered.silent {d : Client} {env : Env} {seg : Segment} {out : List Msg}
    (ho : n.Ordered iss taken) (hc : n.client.conn.tcb.state = .established)
    (hp : seg.payload = []) (hf : seg.hdr.hasFin = false)
    (h : n.client.step env (.own (.segment seg)) = some (d, out)) : out = [] := by
  obtain ⟨c', o, hstep, hd⟩ := client_own h
  have hm := (ho.idle.step hstep (by simp [Event.quiet, hp, hf])).2
  rcases hd with ⟨-, -, rfl⟩ | ⟨hs, -⟩
  · simp only at hm
    generalize o.msgs = msgs at hm
    cases hm with
    | still | gaveUp => rfl
    | resent hm => simp at hm
    | repeated hs | connected hs | accepted hs => simp [hc] at hs
  · simp [hc] at hs

theorem Handshake.Ordered.not_synAckRecovers (ho : n.Ordered iss taken)
    (hc : n.client.conn.tcb.state = .established) : ¬ n.SynAckRecovers s := by
  rintro ⟨seg, env, c', out, m, -, -, -, -, hseg, hstep, hm, -⟩
  have hsynAck : seg.hdr = (s.synAckMsg .resend).hdr ∧ seg.payload = [] := by
    cases hseg
    exact ⟨rfl, rfl⟩
  have hfin : seg.hdr.hasFin = false := by
    rw [hsynAck.1]
    exact (fromServer_synAckMsg s .resend (List.mem_singleton_self s.tcb.snd.iss)).fin
  rw [ho.silent hc hsynAck.2 hfin hstep] at hm
  simp at hm

/-- Data is not looked at in SYN_RECEIVED. -/
theorem not_dataRecovers (hs : s.tcb.state = .synReceived) : ¬ DataRecovers s := by
  rintro ⟨seg, env, s', o, hp, -, -, hstep, he⟩
  have hpos : seg.payload.length > 0 := List.length_pos_iff.mpr hp
  simp only [Conn.step, Conn.receivePacket, hs, Conn.handleStateSynReceived, if_pos hpos] at hstep
  split at hstep
  · cases hstep
    simp [hs] at he
  · cases hstep

theorem Handshake.Ordered.not_recoverable (ho : n.Ordered iss taken) (hl : n.AckLost s) :
    ¬ n.Recoverable s :=
  not_or.mpr ⟨ho.not_synAckRecovers hl.client, not_dataRecovers hl.state⟩

end Recovery

/-- The server is opened neither by the answer to its SYN-ACK nor by data. -/
theorem lost_ack_not_recoverable {key : SocketData} {iss : U32}
    {tr : List (Move Handshake HandshakeEvent)} {n : Handshake} {s : Conn}
    (h : Run HandshakeStep (Handshake.start key iss) tr n) (hl : n.AckLost s) :
    ¬ n.Recoverable s := by
  obtain ⟨taken, ho⟩ := ordered_of_run h
  exact ho.not_recoverable hl

/-- The SYN and the SYN-ACK arrive; the ACK goes out and is lost. -/
def Handshake.lostAck : Handshake :=
  (Handshake.sample.play
    [(499, .toServer 0), (700, .toClient 0), (0, .client .signalled)]).2

theorem ackLost_lostAck :
    Handshake.lostAck.AckLost (Handshake.lostAck.server.get (by decide)) where
  client := by decide
  server := (Option.some_get _).symm
  state := by decide
  same := by decide

theorem lost_ack_not_recoverable_sample :
    ¬ Handshake.lostAck.Recoverable (Handshake.lostAck.server.get (by decide)) :=
  lost_ack_not_recoverable (Handshake.play_run _ _) ackLost_lostAck

theorem not_every_lost_ack_recoverable :
    ¬ ∀ (key : SocketData) (iss : U32) (tr : List (Move Handshake HandshakeEvent))
      (n : Handshake) (s : Conn), Run HandshakeStep (Handshake.start key iss) tr n →
        n.AckLost s → n.Recoverable s := by
  intro h
  have hrun := Handshake.play_run Handshake.sample
    [(499, .toServer 0), (700, .toClient 0), (0, .client .signalled)]
  obtain ⟨taken, ho⟩ := ordered_of_run hrun
  exact ho.not_recoverable ackLost_lostAck (h _ _ _ _ _ hrun ackLost_lostAck)

end TcpIp
