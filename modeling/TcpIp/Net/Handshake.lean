import TcpIp.Lib.Run
import TcpIp.Tcp.Handshake

/-! The three-way handshake of `Connect` with a listener, over a network that may lose,
duplicate, delay and reorder. -/
namespace TcpIp

open Runs

/-- The connecting side. `HandleStateSynSent` makes the connection ESTABLISHED, waits for `Connect`
to take its signal, and sends the ACK only then; `signal` keeps the ACK in the meantime. -/
structure Client where
  conn : Conn
  signal : Option (List Msg) := none

inductive ClientEvent
  | own (ev : Event)
  /-- `Connect` takes the signal and returns -/
  | signalled
  /-- `Connect` returns with an error of the IP layer; the TCB stays in the table -/
  | failed
  deriving DecidableEq

def Client.step (c : Client) (env : Env) : ClientEvent → Option (Client × List Msg)
  | .own ev =>
    (c.conn.step env ev).map fun r =>
      if c.conn.tcb.state = .synSent ∧ r.1.tcb.state = .established then
        -- the timer of `Connect` still runs, with the SND.ISS that is new now
        ({ conn := { r.1 with
            connecting := c.conn.connecting
            send := c.conn.send
            timer := c.conn.timer
            tcb := { r.1.tcb with retransmitCounter := c.conn.tcb.retransmitCounter } }
           signal := some r.2.msgs }, [])
      else ({ c with conn := r.1 }, r.2.msgs)
  | .signalled =>
    c.signal.bind fun out =>
      if c.conn.connecting then
        some ({ conn := { c.conn with
          connecting := false
          send := .top
          timer := true
          tcb := { c.conn.tcb with retransmitCounter := 0 } } }, out)
      else none
  | .failed =>
    if c.conn.connecting then some ({ c with conn := { c.conn with connecting := false } }, [])
    else none

/-- Both sides, with all that each has sent and the initial numbers of the server's TCBs. -/
structure Handshake where
  client : Client
  /-- the TCB in the server's table for the client's key -/
  server : Option Conn := none
  issued : List U32 := []
  fromClient : List Msg
  fromServer : List Msg := []

inductive HandshakeEvent
  | client (ev : ClientEvent)
  | server (ev : Event)
  /-- delivery of the message of that index -/
  | toClient (i : ℕ)
  | toServer (i : ℕ)
  deriving DecidableEq

def Msg.segment (m : Msg) : Option Segment :=
  if h : m.payload.length ≤ 65535 then some ⟨m.hdr, m.payload, h⟩ else none

/-- A step that no segment causes, and that brings neither data nor a FIN. -/
def Event.internal : Event → Bool
  | .segment _ => false
  | ev => ev.quiet

def ClientEvent.internal : ClientEvent → Bool
  | .own ev => ev.internal
  | _ => true

namespace Handshake

def start (key : SocketData) (iss : U32) : Handshake where
  client := { conn := Conn.connect key iss }
  fromClient := [(Conn.connect key iss).synMsg .control]

def clientMoved (n : Handshake) (r : Client × List Msg) : Handshake :=
  { n with client := r.1, fromClient := n.fromClient ++ r.2 }

/-- A TCB that has left the table receives nothing and, idle, sends nothing: it is forgotten. -/
def serverMoved (n : Handshake) (r : Conn × Output) : Handshake :=
  { n with
    server := if r.1.inTable then some r.1 else none
    fromServer := n.fromServer ++ r.2.msgs }

/-- A segment that finds no TCB of its own goes to the listener. Each TCB gets a new ISS. -/
def listen (n : Handshake) (env : Env) (hdr : TCPFields) : Option Handshake :=
  if hdr.hasAck then some n
  else if hdr.hasSyn then
    if env.newISS ∈ n.issued then none
    else
      let key := n.client.conn.key
      let s := Conn.handleStateListen key.destAddr
        ⟨key.destAddr, key.destPort, key.localAddr, key.localPort⟩ env.newISS hdr
      some { n with
        server := some s
        issued := env.newISS :: n.issued
        fromServer := n.fromServer ++ [s.synAckMsg .control] }
  else some n

def step (n : Handshake) (env : Env) : HandshakeEvent → Option Handshake
  | .client ev => if ev.internal then (n.client.step env ev).map n.clientMoved else none
  | .server ev =>
    if ev.internal then n.server.bind fun s => (s.step env ev).map n.serverMoved else none
  | .toClient i =>
    (n.fromServer[i]?.bind Msg.segment).bind fun seg =>
      (n.client.step env (.own (.segment seg))).map n.clientMoved
  | .toServer i =>
    (n.fromClient[i]?.bind Msg.segment).bind fun seg =>
      match n.server with
      | some s => (s.step env (.segment seg)).map n.serverMoved
      | none => n.listen env seg.hdr

end Handshake

def HandshakeStep (n : Handshake) (e : HandshakeEvent) (n' : Handshake) : Prop :=
  ∃ env, n.step env e = some n'

section Client

variable {c : Client} {env : Env} {seg : Segment} {c' : Conn} {o : Output}

theorem Handled.opened {c : Conn} {out : List Msg} (h : Handled c seg c' out)
    (hs : c.tcb.state = .synSent) (he : c'.tcb.state = .established) :
    c'.connecting = false ∧ c'.send = .top ∧ c'.timer = true ∧ c'.tcb.retransmitCounter = 0 := by
  cases h with
  | synSent iss _ _ _ hc' =>
    subst hc'
    simp only [ite_eq_left_iff, reduceCtorEq, imp_false, not_not] at he
    simp only [if_pos he, and_self]
  | received hr => cases hr <;> simp_all
  | finRepeated hs' => rcases hs' with hs' | hs' <;> simp_all
  | _ => simp_all

/-- With `Connect` ready for the signal, the two halves make the one step of the connection. -/
theorem client_signalled_at_once (h : c.conn.step env (.segment seg) = some (c', o))
    (hs : c.conn.tcb.state = .synSent) (he : c'.tcb.state = .established)
    (hc : c.conn.connecting = true) :
    ((c.step env (.own (.segment seg))).bind fun r => r.1.step env .signalled) =
      some ({ conn := c' }, o.msgs) := by
  have hh : Handled c.conn seg c' o.msgs := Step.handled (l := ⟨.segment seg, o⟩) ⟨env, h⟩ rfl
  obtain ⟨h1, h2, h3, h4⟩ := hh.opened hs he
  have hback : ({ c' with
      connecting := false
      send := .top
      timer := true
      tcb := { c'.tcb with retransmitCounter := 0 } } : Conn) = c' := by
    rcases c' with ⟨_, _, ⟨_, _⟩⟩
    simp_all
  simp only [Client.step, h, Option.map_some, if_pos (And.intro hs he), Option.bind_some, hc,
    if_true]
  exact congrArg (fun x : Conn => some (({ conn := x } : Client), o.msgs)) hback

/-- The connection moves; where it becomes ESTABLISHED, the handler waits with its message. -/
theorem client_own {ev : Event} {d : Client} {out : List Msg}
    (h : c.step env (.own ev) = some (d, out)) :
    ∃ c' o, Step c.conn ⟨ev, o⟩ c' ∧
      (¬ (c.conn.tcb.state = .synSent ∧ c'.tcb.state = .established) ∧
          d = { c with conn := c' } ∧ out = o.msgs ∨
        c.conn.tcb.state = .synSent ∧ c'.tcb.state = .established ∧ out = [] ∧
          d = { conn := { c' with
            connecting := c.conn.connecting
            send := c.conn.send
            timer := c.conn.timer
            tcb := { c'.tcb with retransmitCounter := c.conn.tcb.retransmitCounter } }
                signal := some o.msgs }) := by
  obtain ⟨⟨c', o⟩, hstep, heq⟩ := Option.map_eq_some_iff.mp h
  refine ⟨c', o, ⟨env, hstep⟩, ?_⟩
  split at heq
  · rename_i hb
    obtain ⟨rfl, rfl⟩ := Prod.mk.inj heq
    exact Or.inr ⟨hb.1, hb.2, rfl, rfl⟩
  · rename_i hb
    obtain ⟨rfl, rfl⟩ := Prod.mk.inj heq
    exact Or.inl ⟨hb, rfl, rfl⟩

end Client

/-- What the client sends, `taken` being the number it has taken from a SYN-ACK. Until then its
SYNs have the number `iss`; one that `Connect` resends later may have another. -/
inductive FromClient (iss : U32) (taken : Option U32) (m : Msg) : Prop
  | syn (hp : m.payload = []) (hf : m.hdr.hasFin = false) (ha : m.hdr.ackNum = 0)
      (hseq : m.hdr.seqNum = iss ∨ taken.isSome = true)
  | ack (hp : m.payload = []) (hf : m.hdr.hasFin = false) (hack : m.hdr.hasAck = true)
      (ha : taken = some (m.hdr.ackNum - 1))

/-- What the server sends: SYN-ACKs, with the initial number of one of its TCBs. -/
structure FromServer (issued : List U32) (m : Msg) : Prop where
  payload : m.payload = []
  fin : m.hdr.hasFin = false
  ack : m.hdr.hasAck = true
  seq : m.hdr.seqNum ∈ issued

/-- The client before and after it takes a number. -/
inductive ClientAt (iss : U32) (issued : List U32) (c : Client) : Option U32 → Prop
  | connecting (hs : c.conn.tcb.state = .synSent ∨ c.conn.tcb.state = .closed)
      (hiss : c.conn.tcb.snd.iss = iss) (hsig : c.signal = none) : ClientAt iss issued c none
  | connected {y : U32} (hs : c.conn.tcb.state = .established ∨ c.conn.tcb.state = .closed)
      (hirs : c.conn.tcb.rcv.irs = y) (hy : y ∈ issued)
      (hsig : ∀ out, c.signal = some out → ∀ m ∈ out, FromClient iss (some y) m) :
      ClientAt iss issued c (some y)

/-- A TCB made from a SYN of the number `iss`, or made too late for the number the client has. -/
structure ServerAt (iss : U32) (issued : List U32) (taken : Option U32) (s : Conn) : Prop where
  idle : Idle s
  connecting : s.connecting = false
  state : s.tcb.state ≠ .synSent
  issued : s.tcb.snd.iss ∈ issued
  numbers : s.tcb.state = .synReceived →
    s.tcb.snd.una = s.tcb.snd.iss ∧ s.tcb.snd.nxt = s.tcb.snd.iss + 1
  origin : s.tcb.rcv.irs = iss ∨ ∃ y, taken = some y ∧ y ≠ s.tcb.snd.iss
  established : s.tcb.state = .established → taken = some s.tcb.snd.iss

structure Handshake.Ordered (iss : U32) (taken : Option U32) (n : Handshake) : Prop where
  idle : Idle n.client.conn
  waitForAck : n.client.conn.waitForAck = false
  client : ClientAt iss n.issued n.client taken
  server : ∀ s, n.server = some s → ServerAt iss n.issued taken s
  fromClient : ∀ m ∈ n.fromClient, FromClient iss taken m
  fromServer : ∀ m ∈ n.fromServer, FromServer n.issued m

section Ordered

variable {iss : U32} {issued : List U32} {taken taken' : Option U32} {n n' : Handshake}

theorem FromClient.of_none {m : Msg} (h : FromClient iss none m) (y : U32) :
    FromClient iss (some y) m := by
  cases h with
  | syn hp hf ha => exact .syn hp hf ha (Or.inr rfl)
  | ack _ _ _ ha => cases ha

theorem fromClient_synMsg (c : Conn) (origin : Origin)
    (h : c.tcb.snd.iss = iss ∨ taken.isSome = true) :
    FromClient iss taken (c.synMsg origin) :=
  .syn rfl (by simp [Conn.synMsg, TCPFields.hasFin, tcpFlagSyn, tcpFlagFin]) rfl h

theorem fromServer_synAckMsg (c : Conn) (origin : Origin) (h : c.tcb.snd.iss ∈ issued) :
    FromServer issued (c.synAckMsg origin) where
  payload := rfl
  fin := by simp [Conn.synAckMsg, TCPFields.hasFin, tcpFlagSyn, tcpFlagFin, tcpFlagAck]
  ack := by simp [Conn.synAckMsg, TCPFields.hasAck, tcpFlagSyn, tcpFlagAck]
  seq := h

/-- What a move of the client keeps: it takes at most one number. -/
structure ClientKept (iss : U32) (issued : List U32) (taken taken' : Option U32) (c : Client)
    (out : List Msg) : Prop where
  taken : taken = none ∨ taken' = taken
  idle : Idle c.conn
  waitForAck : c.conn.waitForAck = false
  client : ClientAt iss issued c taken'
  out : ∀ m ∈ out, FromClient iss taken' m

/-- A step of the client's connection, before any number is taken. -/
theorem clientKept_connecting {c d : Client} {env : Env} {ev : Event} {out : List Msg}
    (hi : Idle c.conn) (hw : c.conn.waitForAck = false)
    (hs : c.conn.tcb.state = .synSent ∨ c.conn.tcb.state = .closed)
    (hiss : c.conn.tcb.snd.iss = iss) (hsig : c.signal = none) (hq : ev.quiet = true)
    (hseg : ∀ seg, ev = .segment seg → seg.hdr.hasAck = true ∧ seg.hdr.seqNum ∈ issued)
    (h : c.step env (.own ev) = some (d, out)) :
    ∃ taken', ClientKept iss issued none taken' d out := by
  obtain ⟨c', o, hstep, hd⟩ := client_own h
  obtain ⟨hi', hm⟩ := hi.step hstep hq
  simp only at hm
  generalize hmsgs : o.msgs = msgs at hm hd
  rcases hd with ⟨hne, rfl, rfl⟩ | ⟨hs', he, rfl, rfl⟩
  · cases hm with
    | still hk hstate =>
      exact ⟨none, Or.inl rfl, hi', hk.not_waiting hw,
        .connecting (hstate ▸ hs) (hk.iss.trans hiss) hsig, by simp⟩
    | gaveUp hk hstate =>
      exact ⟨none, Or.inl rfl, hi', hk.not_waiting hw,
        .connecting (Or.inr hstate) (hk.iss.trans hiss) hsig, by simp⟩
    | resent hm hk hstate =>
      refine ⟨none, Or.inl rfl, hi', hk.not_waiting hw,
        .connecting (hstate ▸ hs) (hk.iss.trans hiss) hsig, ?_⟩
      rcases hm with ⟨-, -, rfl⟩ | ⟨-, hw', -⟩
      · simpa using fromClient_synMsg c.conn .resend (Or.inl hiss)
      · simp [hw] at hw'
    | connected hs' hack hstate =>
      rw [if_pos (hack (hseg _ rfl).1)] at hstate
      exact absurd ⟨hs', hstate⟩ hne
    | repeated hs' | accepted hs' => simp [hs'] at hs
  · cases hm with
    | connected _ hack hstate hp hw' hirs hnxt hout =>
      refine ⟨some _, Or.inl rfl, ?_, hw'.trans hw, .connected (Or.inl he) hirs (hseg _ rfl).2 ?_,
        by simp⟩
      · exact { hi' with transmit := hi.transmit, zeroWait := hi.zeroWait }
      · rintro out hout' m hm
        cases hout'
        obtain ⟨h1, h2, h3, h4⟩ := hout m (hmsgs ▸ hm)
        exact .ack h3 h2 h1 (by rw [h4, hnxt, BitVec.add_sub_cancel])
    | still hk hstate => simp [hstate, hs'] at he
    | resent _ hk hstate => simp [hstate, hs'] at he
    | gaveUp hk hstate => simp [hstate] at he
    | repeated hs'' | accepted hs'' => simp [hs''] at hs'

/-- A step of the client's connection after that: at most a SYN goes out. -/
theorem clientKept_connected {c d : Client} {env : Env} {ev : Event} {out : List Msg} {y : U32}
    (hi : Idle c.conn) (hw : c.conn.waitForAck = false)
    (hs : c.conn.tcb.state = .established ∨ c.conn.tcb.state = .closed)
    (hirs : c.conn.tcb.rcv.irs = y) (hy : y ∈ issued)
    (hsig : ∀ out, c.signal = some out → ∀ m ∈ out, FromClient iss (some y) m)
    (hq : ev.quiet = true) (h : c.step env (.own ev) = some (d, out)) :
    ClientKept iss issued (some y) (some y) d out := by
  obtain ⟨c', o, hstep, hd⟩ := client_own h
  obtain ⟨hi', hm⟩ := hi.step hstep hq
  simp only at hm
  generalize o.msgs = msgs at hm hd
  rcases hd with ⟨-, rfl, rfl⟩ | ⟨hs', -⟩
  · cases hm with
    | still hk hstate =>
      exact ⟨Or.inr rfl, hi', hk.not_waiting hw, .connected (hstate ▸ hs) (hk.irs.trans hirs) hy hsig,
        by simp⟩
    | gaveUp hk hstate =>
      exact ⟨Or.inr rfl, hi', hk.not_waiting hw, .connected (Or.inr hstate) (hk.irs.trans hirs) hy hsig,
        by simp⟩
    | resent hm hk hstate =>
      refine ⟨Or.inr rfl, hi', hk.not_waiting hw,
        .connected (hstate ▸ hs) (hk.irs.trans hirs) hy hsig, ?_⟩
      rcases hm with ⟨-, -, rfl⟩ | ⟨-, hw', -⟩
      · simpa using fromClient_synMsg c.conn .resend (Or.inr rfl)
      · simp [hw] at hw'
    | repeated hs' | connected hs' | accepted hs' => simp [hs'] at hs
  · simp [hs'] at hs

theorem Handshake.Ordered.client_step {d : Client} {env : Env} {ev : ClientEvent} {out : List Msg}
    (ho : n.Ordered iss taken) (hq : ∀ e, ev = .own e → e.quiet = true)
    (hseg : ∀ seg, ev = .own (.segment seg) →
      seg.hdr.hasAck = true ∧ seg.hdr.seqNum ∈ n.issued)
    (h : n.client.step env ev = some (d, out)) :
    ∃ taken', ClientKept iss n.issued taken taken' d out := by
  have hc := ho.client
  cases ev with
  | own e =>
    cases hc with
    | connecting hs hiss hsig =>
      exact clientKept_connecting ho.idle ho.waitForAck hs hiss hsig (hq e rfl)
        (fun seg he => hseg seg (he ▸ rfl)) h
    | connected hs hirs hy hsig =>
      exact ⟨_, clientKept_connected ho.idle ho.waitForAck hs hirs hy hsig (hq e rfl) h⟩
  | signalled =>
    obtain ⟨msgs, hsignal, h⟩ := Option.bind_eq_some_iff.mp h
    split at h
    · obtain ⟨rfl, rfl⟩ := Prod.mk.inj (Option.some.inj h)
      cases hc with
      | connecting _ _ hsig => simp [hsig] at hsignal
      | connected hs hirs hy hsig =>
        exact ⟨_, Or.inr rfl, { ho.idle with transmit := by simp, zeroWait := by simp },
          ho.waitForAck, .connected hs hirs hy (by simp), hsig msgs hsignal⟩
    · cases h
  | failed =>
    simp only [Client.step] at h
    split at h
    · obtain ⟨rfl, rfl⟩ := Prod.mk.inj (Option.some.inj h)
      refine ⟨taken, Or.inr rfl, { ho.idle with }, ho.waitForAck, ?_, by simp⟩
      cases hc with
      | connecting hs hiss hsig => exact .connecting hs hiss hsig
      | connected hs hirs hy hsig => exact .connected hs hirs hy hsig
    · cases h

/-- When the client takes a number, no TCB of the server is ESTABLISHED yet. -/
theorem ServerAt.of_taken {s : Conn} (h : ServerAt iss issued taken s)
    (ht : taken = none ∨ taken' = taken) : ServerAt iss issued taken' s := by
  rcases ht with rfl | rfl
  · refine { h with origin := Or.inl ?_, established := fun hs => ?_ }
    · rcases h.origin with ho | ⟨y, hy, -⟩
      · exact ho
      · cases hy
    · cases h.established hs
  · exact h

theorem FromClient.of_taken {m : Msg} (h : FromClient iss taken m)
    (ht : taken = none ∨ taken' = taken) : FromClient iss taken' m := by
  rcases ht with rfl | rfl
  · cases taken' with
    | none => exact h
    | some y => exact h.of_none y
  · exact h

theorem Handshake.Ordered.clientMoved {d : Client} {out : List Msg} (ho : n.Ordered iss taken)
    (hk : ClientKept iss n.issued taken taken' d out) :
    (n.clientMoved (d, out)).Ordered iss taken' where
  idle := hk.idle
  waitForAck := hk.waitForAck
  client := hk.client
  server := fun s hs => (ho.server s hs).of_taken hk.taken
  fromClient := by
    intro m hm
    rcases List.mem_append.mp hm with hm | hm
    · exact (ho.fromClient m hm).of_taken hk.taken
    · exact hk.out m hm
  fromServer := ho.fromServer

/-- A step of a TCB of the server: it sends SYN-ACKs with its own number, and becomes ESTABLISHED
only through the ACK of a client that has taken this number. -/
theorem ServerAt.step {s s' : Conn} {ev : Event} {o : Output}
    (hs : ServerAt iss issued taken s) (h : Step s ⟨ev, o⟩ s') (hq : ev.quiet = true)
    (hseg : ∀ seg, ev = .segment seg → seg.hdr.ackNum = 0 ∨ taken = some (seg.hdr.ackNum - 1)) :
    ServerAt iss issued taken s' ∧ ∀ m ∈ o.msgs, FromServer issued m := by
  obtain ⟨hi, hm⟩ := hs.idle.step h hq
  have hconn : SameOpening s s' → s'.connecting = false := fun hk => by
    by_contra hw
    have hc := hk.connecting (Bool.eq_true_of_not_eq_false hw)
    simp [hs.connecting] at hc
  simp only at hm
  generalize o.msgs = msgs at hm
  cases hm with
  | still hk hstate hsnd =>
    refine ⟨⟨hi, hconn hk, hstate ▸ hs.state, hk.iss ▸ hs.issued, fun h => ?_, ?_, ?_⟩, by simp⟩
    · have hrec := hstate ▸ h
      rw [hsnd (by simp [hrec])]
      exact hs.numbers hrec
    · rw [hk.irs, hk.iss]
      exact hs.origin
    · rw [hk.iss, hstate]
      exact hs.established
  | gaveUp hk hstate =>
    refine ⟨⟨hi, hconn hk, by simp [hstate], hk.iss ▸ hs.issued, by simp [hstate], ?_,
      by simp [hstate]⟩, by simp⟩
    rw [hk.irs, hk.iss]
    exact hs.origin
  | resent hm hk hstate hsnd =>
    refine ⟨⟨hi, hconn hk, hstate ▸ hs.state, hk.iss ▸ hs.issued, ?_, ?_, ?_⟩, ?_⟩
    · rw [hstate, hsnd]
      exact hs.numbers
    · rw [hk.irs, hk.iss]
      exact hs.origin
    · rw [hk.iss, hstate]
      exact hs.established
    · rcases hm with ⟨-, hc, -⟩ | ⟨-, -, rfl⟩
      · simp [hs.connecting] at hc
      · simpa using fromServer_synAckMsg s .resend hs.issued
  | repeated => exact ⟨hs, by simpa using fromServer_synAckMsg s .control hs.issued⟩
  | connected hs' => exact absurd hs' hs.state
  | accepted hrec hack hk hstate hout =>
    obtain ⟨huna, hnxt⟩ := hs.numbers hrec
    rw [huna, hnxt] at hack
    refine ⟨⟨hi, hconn hk, by simp [hstate], hk.iss ▸ hs.issued, by simp [hstate], ?_, fun _ => ?_⟩,
      fun m hm => hout m hm ▸ fromServer_synAckMsg s .control hs.issued⟩
    · rw [hk.irs, hk.iss]
      exact hs.origin
    · -- the range test leaves one number
      rcases hseg _ rfl with h0 | hy
      · rw [h0] at hack
        bv_omega
      · rw [hy, hk.iss]
        congr 1
        bv_omega

theorem Handshake.Ordered.serverMoved {s s' : Conn} {ev : Event} {o : Output}
    (ho : n.Ordered iss taken) (hs : n.server = some s) (h : Step s ⟨ev, o⟩ s')
    (hq : ev.quiet = true)
    (hseg : ∀ seg, ev = .segment seg → seg.hdr.ackNum = 0 ∨ taken = some (seg.hdr.ackNum - 1)) :
    (n.serverMoved (s', o)).Ordered iss taken := by
  obtain ⟨hs', hout⟩ := (ho.server s hs).step h hq hseg
  refine { ho with server := fun t ht => ?_, fromServer := fun m hm => ?_ }
  · simp only [Handshake.serverMoved] at ht
    split at ht
    · cases ht
      exact hs'
    · cases ht
  · rcases List.mem_append.mp hm with hm | hm
    · exact ho.fromServer m hm
    · exact hout m hm

/-- A TCB made from a SYN with a new number. -/
theorem Handshake.Ordered.listen {env : Env} {hdr : TCPFields} (ho : n.Ordered iss taken)
    (hseq : hdr.hasAck = false → hdr.seqNum = iss ∨ taken.isSome = true)
    (h : n.listen env hdr = some n') : n'.Ordered iss taken := by
  unfold Handshake.listen at h
  split at h
  · cases h
    exact ho
  · rename_i hack
    split at h
    · split at h
      · cases h
      · rename_i hnew
        cases h
        have hsub : ∀ y, y ∈ n.issued → y ∈ env.newISS :: n.issued := fun _ =>
          List.mem_cons_of_mem _
        have hclient : ClientAt iss (env.newISS :: n.issued) n.client taken := by
          cases ho.client with
          | connecting hs hiss hsig => exact .connecting hs hiss hsig
          | connected hs hirs hy hsig => exact .connected hs hirs (hsub _ hy) hsig
        refine { ho with client := hclient, server := fun s hs => ?_, fromServer := fun m hm => ?_ }
        · cases hs
          refine ⟨idle_handleStateListen _ _ _ _, rfl, by simp [Conn.handleStateListen],
            List.mem_cons_self, fun _ => ⟨rfl, rfl⟩, ?_, by simp [Conn.handleStateListen]⟩
          rcases hseq (Bool.eq_false_of_not_eq_true hack) with hseq | ht
          · exact Or.inl hseq
          · -- the client's number was issued before this one
            cases ho.client with
            | connecting => cases ht
            | @connected y _ _ hy =>
              refine Or.inr ⟨y, rfl, fun h => hnew ?_⟩
              have heq : y = env.newISS := h
              exact heq ▸ hy
        · rcases List.mem_append.mp hm with hm | hm
          · exact { ho.fromServer m hm with seq := hsub _ (ho.fromServer m hm).seq }
          · rw [List.mem_singleton.mp hm]
            exact fromServer_synAckMsg _ _ List.mem_cons_self
    · cases h
      exact ho

theorem Event.quiet_of_internal {ev : Event} (h : ev.internal = true) : ev.quiet = true := by
  cases ev with
  | segment => cases h
  | _ => exact h

theorem delivered {msgs : List Msg} {i : ℕ} {seg : Segment}
    (h : msgs[i]?.bind Msg.segment = some seg) :
    ∃ m ∈ msgs, seg.hdr = m.hdr ∧ seg.payload = m.payload := by
  obtain ⟨m, hm, hseg⟩ := Option.bind_eq_some_iff.mp h
  unfold Msg.segment at hseg
  split at hseg
  · cases hseg
    exact ⟨m, List.mem_of_getElem? hm, rfl, rfl⟩
  · cases hseg

theorem Handshake.Ordered.step {e : HandshakeEvent} (ho : n.Ordered iss taken)
    (h : HandshakeStep n e n') : ∃ taken', n'.Ordered iss taken' := by
  obtain ⟨env, h⟩ := h
  cases e with
  | client ev =>
    simp only [Handshake.step] at h
    split at h
    · rename_i hev
      obtain ⟨⟨d, out⟩, hd, rfl⟩ := Option.map_eq_some_iff.mp h
      have hint : ∀ e, ev = .own e → e.internal = true := fun e he => by
        subst he
        exact hev
      obtain ⟨taken', hk⟩ := ho.client_step (fun e he => Event.quiet_of_internal (hint e he))
        (fun seg he => by cases hint _ he) hd
      exact ⟨taken', ho.clientMoved hk⟩
    · cases h
  | server ev =>
    simp only [Handshake.step] at h
    split at h
    · rename_i hev
      obtain ⟨s, hs, h⟩ := Option.bind_eq_some_iff.mp h
      obtain ⟨⟨s', o⟩, hstep, rfl⟩ := Option.map_eq_some_iff.mp h
      refine ⟨taken, ho.serverMoved hs ⟨env, hstep⟩ (Event.quiet_of_internal hev) ?_⟩
      rintro seg rfl
      cases hev
    · cases h
  | toClient i =>
    obtain ⟨seg, hseg, h⟩ := Option.bind_eq_some_iff.mp h
    obtain ⟨⟨d, out⟩, hd, rfl⟩ := Option.map_eq_some_iff.mp h
    obtain ⟨m, hm, hh, hp⟩ := delivered hseg
    have hmsg := ho.fromServer m hm
    obtain ⟨taken', hk⟩ := ho.client_step
      (by
        rintro e ⟨⟩
        simp [Event.quiet, hp, hh, hmsg.payload, hmsg.fin])
      (by
        rintro seg' ⟨⟩
        exact hh ▸ ⟨hmsg.ack, hmsg.seq⟩) hd
    exact ⟨taken', ho.clientMoved hk⟩
  | toServer i =>
    obtain ⟨seg, hseg, h⟩ := Option.bind_eq_some_iff.mp h
    obtain ⟨m, hm, hh, hp⟩ := delivered hseg
    have hmsg := ho.fromClient m hm
    split at h
    · rename_i s hs
      obtain ⟨⟨s', o⟩, hstep, rfl⟩ := Option.map_eq_some_iff.mp h
      refine ⟨taken, ho.serverMoved hs ⟨env, hstep⟩ ?_ ?_⟩
      · cases hmsg with
        | syn hp' hf | ack hp' hf => simp [Event.quiet, hp, hh, hp', hf]
      · rintro seg' ⟨⟩
        rw [hh]
        cases hmsg with
        | syn _ _ ha => exact Or.inl ha
        | ack _ _ _ ha => exact Or.inr ha
    · refine ⟨taken, ho.listen (fun hack => ?_) h⟩
      rw [hh] at hack ⊢
      cases hmsg with
      | syn _ _ _ hseq => exact hseq
      | ack _ _ hack' => simp [hack] at hack'

theorem ordered_start (key : SocketData) (iss : U32) :
    (Handshake.start key iss).Ordered iss none where
  idle := idle_connect key iss
  waitForAck := rfl
  client := .connecting (Or.inl rfl) rfl rfl
  server := by simp [Handshake.start]
  fromClient := by
    intro m hm
    rw [List.mem_singleton.mp hm]
    exact fromClient_synMsg _ _ (Or.inl rfl)
  fromServer := by simp [Handshake.start]

theorem ordered_of_run {key : SocketData} {tr : List (Move Handshake HandshakeEvent)}
    (h : Run HandshakeStep (Handshake.start key iss) tr n) : ∃ taken, n.Ordered iss taken :=
  h.state_inv (I := fun n => ∃ taken, n.Ordered iss taken) (P := fun _ => True)
    ⟨none, ordered_start key iss⟩ (by simp) fun _ _ _ ⟨_, ho⟩ hs _ => ho.step hs

end Ordered

/-- A step with its random number, the clock standing still. -/
def Handshake.next (n : Handshake) (i : U32 × HandshakeEvent) :
    Option (HandshakeEvent × Handshake) :=
  (n.step ⟨0, i.1, true⟩ i.2).map fun n' => (i.2, n')

def Handshake.play (n : Handshake) (schedule : List (U32 × HandshakeEvent)) :
    List (Move Handshake HandshakeEvent) × Handshake :=
  Runs.play Handshake.next n schedule

theorem Handshake.play_run (n : Handshake) (schedule : List (U32 × HandshakeEvent)) :
    Run HandshakeStep n (n.play schedule).1 (n.play schedule).2 := by
  refine Runs.play_run (fun n i e n' h => ?_) n schedule
  obtain ⟨n'', hn, heq⟩ := Option.map_eq_some_iff.mp h
  obtain ⟨rfl, rfl⟩ := Prod.mk.inj heq
  exact ⟨_, hn⟩

def Handshake.sample : Handshake := .start ⟨1, 1000, 2, 2000⟩ 99

/-- The server gives up its first TCB, and a late copy of the SYN makes another one. -/
def Handshake.recreated : List (U32 × HandshakeEvent) :=
  (499, .toServer 0) :: List.replicate 6 (0, .server .ackTimeout) ++
    [(599, .toServer 0), (700, .toClient 6), (0, .client (.own .connectTimeout)),
      (0, .client .signalled), (0, .toServer 2)]

end TcpIp
