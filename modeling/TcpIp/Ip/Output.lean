import TcpIp.Ip.Forward
import TcpIp.Ip.RipNetwork

/-! `ReadFromHandler`: the one loop that sends what the RIP and the TCP handler put on their
channels. -/
namespace TcpIp.Ip

open Runs Binary

def createIPPacket (src dest : Addr) (data : List U8) (protocol ttl : ℤ) : IPPacket where
  header :=
    { version := 4, len := 20, tos := 0, totalLen := headerLen + data.length, id := 0, flags := 0
      fragOff := 0, ttl, protocol, checksum := 0, src, dst := dest, options := [] }
  data

/-- `TTL_MAX`. -/
def ttlMax : ℤ := 16

/-- `binary.BigEndian.Uint32` of the first four bytes. -/
def leadingAddr (data : List U8) : Addr := BitVec.ofNat 32 (ofBytes (data.take addrSize))

inductive HandlerMessage
  /-- on `MessageChannel` -/
  | rip (data : List U8)
  /-- on `TCPMessageChannel` -/
  | tcp (data : List U8)
  deriving DecidableEq

inductive OutputError
  /-- `No route to host` -/
  | noRoute
  /-- the error of `Header.Marshal` -/
  | marshal
  deriving DecidableEq

/-- Where the loop stands. -/
inductive OutputLoop
  | serving
  /-- sending on `TCPErrorChannel`, which has no buffer -/
  | reporting (err : OutputError)
  | returned
  /-- a slice bound past the end of the data -/
  | panicked
  deriving DecidableEq

variable (ip : HeaderCodec)

namespace Host

/-- `SendToNeighbor`. -/
def sendToNeighbor (h : Host) (dest : Addr) (packet : IPPacket) :
    Option (LinkInterface × List U8) :=
  match computeChecksum ip packet with
  | none => none
  | some newCheckSum =>
    let packet :=
      { packet with header := { packet.header with checksum := (newCheckSum.toNat : ℤ) } }
    match remoteDestination h.localIFs dest with
    | none => none
    | some addrOfInterface =>
      match localIF h.localIFs addrOfInterface with
      | none => none
      | some localInterface =>
        (localInterface.send ip packet).map fun bytes => (localInterface, bytes)

/-- The packet for a TCP message: two addresses, then the segment. -/
def tcpPacket (data : List U8) : IPPacket :=
  createIPPacket (leadingAddr data) (leadingAddr (data.drop addrSize)) (data.drop (2 * addrSize)) 6
    16

/-- One iteration: where it leaves the loop, and what goes out on which interface. The data has no
spare capacity behind it: with some, a TCP message that is shorter than its two addresses would be
looked up before the last slice panics. -/
def readFromHandler (h : Host) :
    HandlerMessage → OutputLoop × Option (LinkInterface × List U8)
  | .rip data =>
    if data.length = 0 then (.serving, none)
    else if data.length < addrSize then (.panicked, none)
    else
      let destAddr := leadingAddr data
      let srcAddr := (remoteDestination h.localIFs destAddr).getD 0
      let packet := createIPPacket srcAddr destAddr (data.drop addrSize) 200 ttlMax
      (.serving, h.sendToNeighbor ip destAddr packet)
  | .tcp data =>
    if data.length = 0 then (.serving, none)
    else if data.length < 2 * addrSize then (.panicked, none)
    else
      let packet := tcpPacket data
      match h.router.table.checkRoute packet.header.dst with
      | none => (.reporting .noRoute, none)
      | some entry =>
        match remoteDestination h.localIFs entry.nextHop with
        | none => (.serving, none)
        | some addrOfInterface =>
          match computeChecksum ip packet with
          | none => (.reporting .marshal, none)
          | some checkSum =>
            let packet :=
              { packet with header := { packet.header with checksum := (checkSum.toNat : ℤ) } }
            match localIF h.localIFs addrOfInterface with
            | none => (.serving, none)
            | some localInterface =>
              (.serving, (localInterface.send ip packet).map fun bytes => (localInterface, bytes))

/-- The message has no route or cannot be marshalled, or it is too short for its addresses. -/
def refuses (h : Host) : HandlerMessage → Bool
  | .rip data => 0 < data.length && data.length < addrSize
  | .tcp data =>
    0 < data.length && (data.length < 2 * addrSize ||
      match h.router.table.checkRoute (tcpPacket data).header.dst with
      | none => true
      | some entry =>
        (remoteDestination h.localIFs entry.nextHop).isSome &&
          (computeChecksum ip (tcpPacket data)).isNone)

end Host

/-- What can happen to the loop; the host may have changed between any two messages. -/
inductive OutputEvent
  | message (h : Host) (msg : HandlerMessage)
  /-- a `Connect` takes the error -/
  | errorReceived

inductive OutputAnswer
  | served (sent : Option (LinkInterface × List U8))
  /-- nobody receives from the channels: the handler that sends waits -/
  | unserved
  | reported (err : OutputError)

def OutputLoop.step : OutputLoop → OutputEvent → Option (OutputAnswer × OutputLoop)
  | .serving, .message h msg =>
    some (.served (h.readFromHandler ip msg).2, (h.readFromHandler ip msg).1)
  | loop, .message _ _ => some (.unserved, loop)
  | .reporting err, .errorReceived => some (.reported err, .returned)
  | _, .errorReceived => none

structure OutputLabel where
  ev : OutputEvent
  answer : OutputAnswer

def OutputStep (loop : OutputLoop) (l : OutputLabel) (loop' : OutputLoop) : Prop :=
  loop.step ip l.ev = some (l.answer, loop')

/-- The message is served with the packets it would get on its own. -/
def ServedAlone (x : Move OutputLoop OutputLabel) : Prop :=
  ∀ h msg, x.ev.ev = .message h msg → x.ev.answer = .served (h.readFromHandler ip msg).2

def OutputEvent.refused : OutputEvent → Bool
  | .message h msg => h.refuses ip msg
  | .errorReceived => false

/-- No message before this one was refused. -/
def UnrefusedBefore (pre : List (Move OutputLoop OutputLabel)) (x : Move OutputLoop OutputLabel) :
    Prop :=
  (∃ h msg, x.ev.ev = .message h msg) → ∀ y ∈ pre, y.ev.ev.refused ip = false

section Output

variable {ip} {h : Host} {msg : HandlerMessage} {loop loop' : OutputLoop} {l : OutputLabel}
  {answer : OutputAnswer} {tr : List (Move OutputLoop OutputLabel)}

theorem readFromHandler_serving_iff :
    (h.readFromHandler ip msg).1 = .serving ↔ h.refuses ip msg = false := by
  cases msg with
  | rip data =>
    simp only [Host.readFromHandler, Host.refuses]
    split
    · rename_i hempty
      simp [hempty]
    · rename_i hne
      have hpos : 0 < data.length := by omega
      split
      · rename_i hshort
        simp [hpos, hshort]
      · rename_i hlong
        simp [hlong]
  | tcp data =>
    simp only [Host.readFromHandler, Host.refuses]
    split
    · rename_i hempty
      simp [hempty]
    · rename_i hne
      have hpos : 0 < data.length := by omega
      split
      · rename_i hshort
        simp [hpos, hshort]
      · rename_i hlong
        cases hroute : h.router.table.checkRoute (Host.tcpPacket data).header.dst with
        | none => simp [hpos]
        | some entry =>
          cases hhop : remoteDestination h.localIFs entry.nextHop with
          | none => simp [hlong, hhop]
          | some addrOfInterface =>
            cases hcheck : computeChecksum ip (Host.tcpPacket data) with
            | none => simp [hpos, hhop]
            | some checkSum =>
              cases hif : localIF h.localIFs addrOfInterface <;> simp [hlong, hhop, hif]

/-- The RIP branch sends what the network of RIP handlers has on its wire. -/
theorem readFromHandler_rip {bytes : List U8} (hlen : addrSize ≤ bytes.length)
    (hmarshal : ∀ packet, (computeChecksum ip packet).isSome = true) :
    (h.readFromHandler ip (.rip bytes)).2.map (fun sent => sent.1.hostIPAddress) =
      (Ip.readFromHandler h.localIFs bytes).map RipPacket.src := by
  have hpos : bytes.length ≠ 0 := by
    simp only [addrSize] at hlen
    omega
  simp only [Host.readFromHandler, Ip.readFromHandler, if_neg hpos,
    if_neg (Nat.not_lt.mpr hlen), Host.sendToNeighbor, leadingAddr]
  obtain ⟨sum, hsum⟩ := Option.isSome_iff_exists.mp (hmarshal (createIPPacket
    ((remoteDestination h.localIFs (leadingAddr bytes)).getD 0) (leadingAddr bytes)
    (bytes.drop addrSize) 200 ttlMax))
  simp only [leadingAddr] at hsum
  rw [hsum]
  cases remoteDestination h.localIFs (BitVec.ofNat 32 (ofBytes (bytes.take addrSize))) with
  | none => rfl
  | some addrOfInterface =>
    cases hif : localIF h.localIFs addrOfInterface with
    | none => simp [hif]
    | some interf =>
      have hhost : interf.hostIPAddress = addrOfInterface := by
        simpa using List.find?_some hif
      by_cases hstop : interf.stopped = true <;> simp [hif, LinkInterface.send, hstop, hhost]

/-- A message that finds the loop serving is served, any other waits. -/
theorem message_step (hs : OutputStep ip loop ⟨.message h msg, answer⟩ loop') :
    loop = .serving ∧ answer = .served (h.readFromHandler ip msg).2 ∧
        loop' = (h.readFromHandler ip msg).1 ∨
      loop ≠ .serving ∧ answer = .unserved ∧ loop' = loop := by
  cases loop with
  | serving =>
    obtain ⟨rfl, rfl⟩ := Prod.mk.inj (Option.some.inj hs)
    exact Or.inl ⟨rfl, rfl, rfl⟩
  | reporting err | returned | panicked =>
    obtain ⟨rfl, rfl⟩ := Prod.mk.inj (Option.some.inj hs)
    exact Or.inr ⟨by simp, rfl, rfl⟩

/-- An error is received from a loop that no longer serves. -/
theorem errorReceived_step (hs : OutputStep ip loop ⟨.errorReceived, answer⟩ loop') :
    loop ≠ .serving ∧ loop' ≠ .serving := by
  cases loop with
  | reporting err =>
    obtain ⟨rfl, rfl⟩ := Prod.mk.inj (Option.some.inj hs)
    exact ⟨by simp, by simp⟩
  | serving | returned | panicked => cases hs

/-- The loop serves as long as no message was refused. -/
theorem serving_step (hs : OutputStep ip loop l loop')
    (hi : loop = .serving ↔ ∀ y ∈ tr, y.ev.ev.refused ip = false) :
    loop' = .serving ↔ ∀ y ∈ tr ++ [⟨loop, l, loop'⟩], y.ev.ev.refused ip = false := by
  obtain ⟨ev, answer⟩ := l
  have hsnoc : (∀ y ∈ tr ++ [(⟨loop, ⟨ev, answer⟩, loop'⟩ : Move OutputLoop OutputLabel)],
      y.ev.ev.refused ip = false) ↔ loop = .serving ∧ ev.refused ip = false := by
    rw [List.forall_mem_append, List.forall_mem_singleton, hi]
  rw [hsnoc]
  cases ev with
  | message h msg =>
    rcases message_step hs with ⟨rfl, -, rfl⟩ | ⟨hne, -, rfl⟩
    · rw [readFromHandler_serving_iff]
      simp [OutputEvent.refused]
    · simp [hne]
  | errorReceived =>
    obtain ⟨hne, hne'⟩ := errorReceived_step hs
    simp [hne, hne']

/-- Every message gets the packets it would get on its own exactly when none comes after a
message that was refused. -/
theorem output_served_iff (h : Run (OutputStep ip) .serving tr loop) :
    (∀ x ∈ tr, ServedAlone ip x) ↔ Along (UnrefusedBefore ip) tr := by
  have hiff := h.along_iff (C := UnrefusedBefore ip) (D := fun _ x => ServedAlone ip x)
    (H := fun _ _ => True)
    (I := fun tr loop => loop = .serving ↔ ∀ y ∈ tr, y.ev.ev.refused ip = false)
    (by simp) (fun _ _ _ _ => trivial) (fun _ _ _ _ hi hs _ _ => serving_step hs hi) ?_
  · rw [← hiff]
    exact ⟨along_of_forall_mem, forall_mem_of_along⟩
  · rintro tr loop ⟨ev, answer⟩ loop' hi hs -
    cases ev with
    | errorReceived => simp [ServedAlone, UnrefusedBefore]
    | message h msg =>
      have hserved : ServedAlone ip ⟨loop, ⟨.message h msg, answer⟩, loop'⟩ ↔
          answer = .served (h.readFromHandler ip msg).2 := by
        simp only [ServedAlone, OutputEvent.message.injEq]
        constructor
        · exact fun hall => hall h msg ⟨rfl, rfl⟩
        · rintro hanswer h' msg' ⟨rfl, rfl⟩
          exact hanswer
      have hbefore : UnrefusedBefore ip tr ⟨loop, ⟨.message h msg, answer⟩, loop'⟩ ↔
          loop = .serving := by
        rw [hi]
        exact ⟨fun hall => hall ⟨h, msg, rfl⟩, fun hall _ => hall⟩
      rw [hserved, hbefore]
      rcases message_step hs with ⟨rfl, rfl, -⟩ | ⟨hne, rfl, -⟩
      · simp
      · simp [hne]

end Output

section Play

def OutputLoop.play (loop : OutputLoop) (events : List OutputEvent) :
    List (Move OutputLoop OutputLabel) × OutputLoop :=
  Runs.play (fun loop ev => (loop.step ip ev).map fun r => (⟨ev, r.1⟩, r.2)) loop events

theorem OutputLoop.play_run (loop : OutputLoop) (events : List OutputEvent) :
    Run (OutputStep ip) loop (loop.play ip events).1 (loop.play ip events).2 := by
  apply Runs.play_run
  intro s ev l t h
  obtain ⟨⟨answer, u⟩, hstep, heq⟩ := Option.map_eq_some_iff.mp h
  obtain ⟨rfl, rfl⟩ := Prod.mk.inj heq
  exact hstep

/-- A segment and a RIP message go out; the segment without a route comes last. -/
theorem output_served_iff_last_refused :
    let run := OutputLoop.serving.play ipv4Codec
      [.message (loopHosts false) (.tcp [0, 0, 0, 1, 0, 0, 0, 9, 7]),
        .message (loopHosts false) (.rip [0, 0, 0, 2, 5]),
        .message (loopHosts false) (.tcp [0, 0, 0, 1, 0, 0, 0, 8, 7])]
    (run.1.length = 3 ∧ run.2 = .reporting .noRoute) ∧
      ((∀ x ∈ run.1, ServedAlone ipv4Codec x) ↔ Along (UnrefusedBefore ipv4Codec) run.1) :=
  ⟨by decide, output_served_iff (OutputLoop.play_run _ _ _)⟩

/-- A segment without a route, and the RIP message after it is never sent. -/
theorem output_ends_at_no_route :
    ¬ ∀ (ip : HeaderCodec) (tr : List (Move OutputLoop OutputLabel)) (loop : OutputLoop),
      Run (OutputStep ip) .serving tr loop → ∀ x ∈ tr, ServedAlone ip x := by
  intro h
  have hrun := OutputLoop.play_run ipv4Codec .serving
    [.message (loopHosts false) (.tcp [0, 0, 0, 1, 0, 0, 0, 8, 7]), .errorReceived,
      .message (loopHosts false) (.rip [0, 0, 0, 2, 5])]
  have hlast := h _ _ _ hrun _ (List.getLast_mem (by decide)) _ _ rfl
  cases hlast

end Play

end TcpIp.Ip
