import TcpIp.Lib.Run
import TcpIp.Ip.Layout
import TcpIp.Ip.Probes

/-! `SendTraceroutePacket` in a network with other traffic: the answers to its probes make the
path. -/
namespace TcpIp.Ip

open Runs

variable {Node : Type*}

namespace Network

/-- Something comes of an item in the end, whatever the handlers are set to on the way. -/
inductive Descends (net : Network Node) : Item Node → Item Node → Prop
  | refl {i : Item Node} : Descends net i i
  | step {handlers : Node → TracerouteHandler} {i j k : Item Node}
      (h : j ∈ net.advance handlers i) (hd : Descends net j k) : Descends net i k

/-- Nothing of it gets to the `NextHopChannel` of the source. -/
def Harmless (net : Network Node) (source : Node) (i : Item Node) : Prop :=
  ∀ msg, ¬ net.Descends i (.nextHop source msg)

end Network

/-- Where `SendTraceroutePacket` is. -/
inductive Tracer
  | called
  /-- at the head of the loop -/
  | ready (entry : RoutingTableEntry) (currTTL : ℕ) (path : List Addr)
  /-- at the `select` -/
  | waiting (entry : RoutingTableEntry) (currTTL : ℕ) (path : List Addr)
  | returned (path : List Addr)

/-- A traceroute under way, with what has come of its probes and with other traffic. -/
structure Tracing (Node : Type*) where
  handlers : Node → TracerouteHandler
  tracer : Tracer := .called
  probes : Multiset (Item Node) := 0
  others : Multiset (Item Node) := 0

inductive TraceEvent (Node : Type*)
  | call
  | probe
  | take (msg : NextHopMsg)
  | advance (item : Item Node)
  /-- the same for the other traffic -/
  | other (item : Item Node)

/-- The moves of the traceroute itself. -/
def TraceEvent.own {Node : Type*} : TraceEvent Node → Bool
  | .other _ => false
  | _ => true

/-- The message that is taken from `NextHopChannel`. -/
def TraceEvent.taken {Node : Type*} : TraceEvent Node → Option NextHopMsg
  | .take msg => some msg
  | _ => none

namespace Tracing

variable [DecidableEq Node] (net : Network Node) (source : Node) (destAddr : Addr)

/-- `SendTraceroutePacket` up to its loop. -/
def call (s : Tracing Node) : Tracing Node :=
  match (net.hosts source).router.table.checkRoute destAddr with
  | none => { s with tracer := .returned [] }
  | some entry =>
    if entry.cost = infinity then { s with tracer := .returned [] }
    else
      { s with
        handlers := Function.update s.handlers source (s.handlers source).addChanRoutine
        tracer := .ready entry 1 [] }

/-- A pass of the loop up to the `select`. -/
def probe (s : Tracing Node) (entry : RoutingTableEntry) (currTTL : ℕ) (path : List Addr) :
    Tracing Node :=
  if currTTL ≤ 16 then
    if entry.cost = infinity then { s with tracer := .returned [] }
    else
      match (net.hosts source).sendProbe net.codec destAddr entry currTTL with
      | none => { s with tracer := .returned [] }
      | some attempt =>
        { s with
          tracer := .waiting entry currTTL path
          probes := s.probes + ↑(net.transmit source attempt) }
  else { s with tracer := .returned path }

/-- The rest of the pass. -/
def take (s : Tracing Node) (entry : RoutingTableEntry) (currTTL : ℕ) (path : List Addr)
    (nextLoc : NextHopMsg) : Tracing Node :=
  let path := path ++ [nextLoc.nextHop]
  if nextLoc.found then
    { s with
      handlers := Function.update s.handlers source (s.handlers source).removeChanRoutine
      tracer := .returned path }
  else { s with tracer := .ready entry (currTTL + 1) path }

end Tracing

/-- Everything under way moves on at any time, in any order. A message stays on `NextHopChannel`
until it is taken, whatever it comes from. -/
inductive TraceStep [DecidableEq Node] (net : Network Node) (source : Node) (destAddr : Addr) :
    Tracing Node → TraceEvent Node → Tracing Node → Prop
  | call {s : Tracing Node} (h : s.tracer = .called) :
      TraceStep net source destAddr s .call (s.call net source destAddr)
  | probe {s : Tracing Node} {entry : RoutingTableEntry} {currTTL : ℕ} {path : List Addr}
      (h : s.tracer = .ready entry currTTL path) :
      TraceStep net source destAddr s .probe
        (s.probe net source destAddr entry currTTL path)
  | take {s : Tracing Node} {entry : RoutingTableEntry} {currTTL : ℕ} {path : List Addr}
      {msg : NextHopMsg} {rest : Multiset (Item Node)}
      (h : s.tracer = .waiting entry currTTL path) (hm : s.probes = .nextHop source msg ::ₘ rest) :
      TraceStep net source destAddr s (.take msg)
        (Tracing.take source { s with probes := rest } entry currTTL path msg)
  | takeOther {s : Tracing Node} {entry : RoutingTableEntry} {currTTL : ℕ} {path : List Addr}
      {msg : NextHopMsg} {rest : Multiset (Item Node)}
      (h : s.tracer = .waiting entry currTTL path) (hm : s.others = .nextHop source msg ::ₘ rest) :
      TraceStep net source destAddr s (.take msg)
        (Tracing.take source { s with others := rest } entry currTTL path msg)
  | advance {s : Tracing Node} {item : Item Node} {rest : Multiset (Item Node)}
      (h : s.probes = item ::ₘ rest) (hn : ∀ v msg, item ≠ .nextHop v msg) :
      TraceStep net source destAddr s (.advance item)
        { s with probes := rest + ↑(net.advance s.handlers item) }
  | other {s : Tracing Node} {item : Item Node} {rest : Multiset (Item Node)}
      (h : s.others = item ::ₘ rest) (hn : ∀ v msg, item ≠ .nextHop v msg) :
      TraceStep net source destAddr s (.other item)
        { s with others := rest + ↑(net.advance s.handlers item) }

section Refines

variable (net : Network Node) (source : Node) (destAddr : Addr)

/-- What `entry` points to in a table that does not change. -/
def entryTo : RoutingTableEntry :=
  ((net.hosts source).router.table.checkRoute destAddr).getD ⟨0, infinity, 0⟩

/-- The rounds of `SendTraceroutePacket` that a run has been through. -/
def takenRounds (tr : List (Move (Tracing Node) (TraceEvent Node))) :
    List (RoutingTableEntry × Option NextHopMsg) :=
  (tr.filterMap fun x => x.ev.taken).map fun msg => (entryTo net source destAddr, some msg)

/-- After its rounds the tracer is where `SendTraceroutePacket` is. -/
inductive Follows (tr : List (Move (Tracing Node) (TraceEvent Node))) : Tracer → Prop
  | called (hnone : takenRounds net source destAddr tr = []) : Follows tr .called
  | ready {entry : RoutingTableEntry} {currTTL : ℕ} {path : List Addr}
      (hroute : (net.hosts source).router.table.checkRoute destAddr = some entry)
      (hcost : entry.cost ≠ infinity)
      (hloop : ∀ rounds, ((net.hosts source).traceroute net.codec destAddr 1 []
          (takenRounds net source destAddr tr ++ rounds)).2 =
        ((net.hosts source).traceroute net.codec destAddr currTTL path rounds).2) :
      Follows tr (.ready entry currTTL path)
  | waiting {entry : RoutingTableEntry} {currTTL : ℕ} {path : List Addr} {attempt : Attempt}
      (hroute : (net.hosts source).router.table.checkRoute destAddr = some entry)
      (hcost : entry.cost ≠ infinity) (httl : currTTL ≤ 16)
      (hprobe : (net.hosts source).sendProbe net.codec destAddr entry currTTL = some attempt)
      (hloop : ∀ rounds, ((net.hosts source).traceroute net.codec destAddr 1 []
          (takenRounds net source destAddr tr ++ rounds)).2 =
        ((net.hosts source).traceroute net.codec destAddr currTTL path rounds).2) :
      Follows tr (.waiting entry currTTL path)
  | returned {path : List Addr}
      (hpath : ((net.hosts source).sendTraceroutePacket net.codec destAddr
        (takenRounds net source destAddr tr ++ [(entryTo net source destAddr, none)])).2 =
          some path) :
      Follows tr (.returned path)

variable {net} {source} {destAddr} {s s' : Tracing Node} {e : TraceEvent Node}
  {entry : RoutingTableEntry} {tr : List (Move (Tracing Node) (TraceEvent Node))}

theorem entryTo_eq (hroute : (net.hosts source).router.table.checkRoute destAddr = some entry) :
    entryTo net source destAddr = entry := by
  rw [entryTo, hroute, Option.getD_some]

theorem sendTraceroutePacket_eq {ip : HeaderCodec}
    {rounds : List (RoutingTableEntry × Option NextHopMsg)} {h : Host}
    (hroute : h.router.table.checkRoute destAddr = some entry) (hcost : entry.cost ≠ infinity) :
    h.sendTraceroutePacket ip destAddr rounds =
      h.traceroute ip destAddr 1 [] rounds := by
  simp only [Host.sendTraceroutePacket, hroute, if_neg hcost]

theorem takenRounds_snoc_none {x : Move (Tracing Node) (TraceEvent Node)}
    (hx : x.ev.taken = none) :
    takenRounds net source destAddr (tr ++ [x]) = takenRounds net source destAddr tr := by
  simp [takenRounds, hx]

theorem takenRounds_snoc_take {x : Move (Tracing Node) (TraceEvent Node)} {msg : NextHopMsg}
    (hx : x.ev.taken = some msg) :
    takenRounds net source destAddr (tr ++ [x]) =
      takenRounds net source destAddr tr ++ [(entryTo net source destAddr, some msg)] := by
  simp [takenRounds, hx]

/-- One round of the loop. -/
theorem traceroute_take {ip : HeaderCodec} {h : Host} {currTTL : ℕ} {path : List Addr}
    {attempt : Attempt} {msg : NextHopMsg} {rounds : List (RoutingTableEntry × Option NextHopMsg)}
    (hcost : entry.cost ≠ infinity) (httl : currTTL ≤ 16)
    (hprobe : h.sendProbe ip destAddr entry currTTL = some attempt) :
    (h.traceroute ip destAddr currTTL path ((entry, some msg) :: rounds)).2 =
      if msg.found then some (path ++ [msg.nextHop])
      else (h.traceroute ip destAddr (currTTL + 1) (path ++ [msg.nextHop]) rounds).2 := by
  simp only [Host.traceroute, if_pos httl, if_neg hcost, hprobe]
  split <;> rfl

/-- A move that takes no message and leaves the tracer where it is. -/
theorem Follows.idle {x : Move (Tracing Node) (TraceEvent Node)} {tracer : Tracer}
    (h : Follows net source destAddr tr tracer) (hx : x.ev.taken = none) :
    Follows net source destAddr (tr ++ [x]) tracer := by
  have hrounds : takenRounds net source destAddr (tr ++ [x]) = takenRounds net source destAddr tr :=
    takenRounds_snoc_none hx
  cases h with
  | called hnone => exact .called (hrounds ▸ hnone)
  | ready hroute hcost hloop => exact .ready hroute hcost (hrounds ▸ hloop)
  | waiting hroute hcost httl hprobe hloop =>
    exact .waiting hroute hcost httl hprobe (hrounds ▸ hloop)
  | returned hpath => exact .returned (hrounds ▸ hpath)

theorem Follows.probe {currTTL : ℕ} {path : List Addr}
    (h : Follows net source destAddr tr (.ready entry currTTL path)) :
    Follows net source destAddr tr (s.probe net source destAddr entry currTTL path).tracer := by
  cases h with
  | ready hroute hcost hloop =>
    have hreturn (rounds : List (RoutingTableEntry × Option NextHopMsg)) :
        ((net.hosts source).sendTraceroutePacket net.codec destAddr
          (takenRounds net source destAddr tr ++ rounds)).2 =
        ((net.hosts source).traceroute net.codec destAddr currTTL path rounds).2 := by
      rw [sendTraceroutePacket_eq hroute hcost, hloop]
    simp only [Tracing.probe, if_neg hcost]
    split
    · rename_i httl
      split
      · rename_i hprobe
        refine .returned ?_
        rw [hreturn, entryTo_eq hroute]
        simp [Host.traceroute, httl, hcost, hprobe]
      · rename_i attempt hprobe
        exact .waiting hroute hcost httl hprobe hloop
    · rename_i httl
      refine .returned ?_
      rw [hreturn]
      simp [Host.traceroute, httl]

variable [DecidableEq Node]

theorem Follows.call (h : Follows net source destAddr tr .called) :
    Follows net source destAddr tr (s.call net source destAddr).tracer := by
  cases h with
  | called hnone =>
    unfold Tracing.call
    split
    · rename_i hroute
      exact .returned (by simp [Host.sendTraceroutePacket, hroute])
    · rename_i entry hroute
      split
      · rename_i hcost
        exact .returned (by simp [Host.sendTraceroutePacket, hroute, hcost])
      · rename_i hcost
        exact .ready hroute hcost fun rounds => by rw [hnone, List.nil_append]

theorem Follows.take {currTTL : ℕ} {path : List Addr} {msg : NextHopMsg}
    {x : Move (Tracing Node) (TraceEvent Node)}
    (h : Follows net source destAddr tr (.waiting entry currTTL path))
    (hx : x.ev.taken = some msg) :
    Follows net source destAddr (tr ++ [x]) (s.take source entry currTTL path msg).tracer := by
  cases h with
  | waiting hroute hcost httl hprobe hloop =>
    have hround (rounds : List (RoutingTableEntry × Option NextHopMsg)) :
        ((net.hosts source).traceroute net.codec destAddr 1 []
          (takenRounds net source destAddr (tr ++ [x]) ++ rounds)).2 =
        if msg.found then some (path ++ [msg.nextHop])
        else ((net.hosts source).traceroute net.codec destAddr (currTTL + 1)
          (path ++ [msg.nextHop]) rounds).2 := by
      rw [takenRounds_snoc_take hx, List.append_assoc, List.singleton_append, hloop,
        entryTo_eq hroute, traceroute_take hcost httl hprobe]
    unfold Tracing.take
    split
    · rename_i hfound
      refine .returned ?_
      rw [sendTraceroutePacket_eq hroute hcost, hround, if_pos hfound]
    · rename_i hfound
      exact .ready hroute hcost fun rounds => by rw [hround, if_neg hfound]

/-- The tracer is `SendTraceroutePacket`: where it has returned, that function returns the same on
the messages the run has taken. -/
theorem tracer_sendTraceroutePacket (hrun : Run (TraceStep net source destAddr) s tr s')
    (hs : s.tracer = .called) {path : List Addr} (hpath : s'.tracer = .returned path) :
    ((net.hosts source).sendTraceroutePacket net.codec destAddr
      (takenRounds net source destAddr tr ++ [(entryTo net source destAddr, none)])).2 =
        some path := by
  have hfollows : Follows net source destAddr tr s'.tracer := by
    refine hrun.inv (I := fun tr s => Follows net source destAddr tr s.tracer)
      (C := fun _ _ => True) (hs ▸ .called rfl) (fun _ _ _ _ => trivial) ?_
    rintro tr t e u ht hstep -
    cases hstep with
    | call h => exact (Follows.call (h ▸ ht)).idle rfl
    | probe h => exact (Follows.probe (h ▸ ht)).idle rfl
    | take h | takeOther h => exact Follows.take (h ▸ ht) rfl
    | advance | other => exact Follows.idle ht rfl
  rw [hpath] at hfollows
  cases hfollows with
  | returned hpath => exact hpath

end Refines

section Traced

variable {net : Network Node} {source : Node} {destAddr : Addr}

theorem Network.Harmless.advance {handlers : Node → TracerouteHandler} {i j : Item Node}
    (h : net.Harmless source i) (hj : j ∈ net.advance handlers i) : net.Harmless source j :=
  fun msg hd => h msg (.step hj hd)

/-- The answers that the tracer gets: each of its probes brings the next of `msgs`, within `bound`
moves, and only the last one ends the loop. -/
structure Plan (net : Network Node) (handlers : Node → TracerouteHandler) (source : Node)
    (destAddr : Addr) (entry : RoutingTableEntry) (msgs : List NextHopMsg) (bound : ℕ) : Prop where
  route : (net.hosts source).router.table.checkRoute destAddr = some entry
  cost : entry.cost ≠ infinity
  hops : 1 ≤ msgs.length ∧ msgs.length ≤ 16
  answer : ∀ pre msg post, msgs = pre ++ msg :: post → ∃ attempt item is,
    (net.hosts source).sendProbe net.codec destAddr entry (pre.length + 1) = some attempt ∧
      net.transmit source attempt = [item] ∧
      net.Leads handlers item is (.nextHop source msg) ∧ is.length ≤ bound
  found : ∀ pre msg post, msgs = pre ++ msg :: post → (msg.found = true ↔ post = [])

variable {s s' : Tracing Node} {e : TraceEvent Node} {handlers : Node → TracerouteHandler}
  {entry : RoutingTableEntry} {msgs : List NextHopMsg} {bound r : ℕ}

theorem ofFn_eq_append_cons {α : Type*} {n : ℕ} {f : Fin n → α} {pre post : List α} {x : α}
    (h : List.ofFn f = pre ++ x :: post) :
    ∃ t : Fin n, (t : ℕ) = pre.length ∧ x = f t ∧ n = pre.length + 1 + post.length := by
  have hlen := congrArg List.length h
  have hget := congrArg (fun l => l[pre.length]?) h
  simp only [List.length_ofFn, List.length_append, List.length_cons] at hlen
  have hlt : pre.length < n := by omega
  simp only [List.getElem?_ofFn, hlt, dite_true, List.getElem?_append_right le_rfl,
    Nat.sub_self, List.getElem?_cons_zero, Option.some.injEq] at hget
  exact ⟨⟨pre.length, hlt⟩, rfl, hget.symm, by omega⟩

/-- The answers to the probes along a path. -/
theorem Network.Traceable.plan (hip : net.codec.RoundTrips) {vs : List Node}
    (hp : net.Traceable source destAddr vs) (hon : (handlers source).handleRoute = true) :
    ∃ entry msgs bound, Plan net handlers source destAddr entry msgs bound ∧
      List.Forall₂ (fun u a => a ∈ (net.hosts u).own) vs (msgs.map NextHopMsg.nextHop) ∧
      (msgs.map NextHopMsg.nextHop).getLast? = some destAddr := by
  obtain ⟨entry, hroute, hcost⟩ := hp.routes
  have hans (t : Fin vs.length) := hp.answered hip hroute hon (List.getElem?_eq_getElem t.isLt)
  choose attempt a is hattempt hans using hans
  let answer (t : Fin vs.length) : Answer :=
    if (t : ℕ) + 1 = vs.length then .echoReply else .timeExceeded
  let msg (t : Fin vs.length) : NextHopMsg := ⟨answer t == .echoReply, a t⟩
  refine ⟨entry, List.ofFn msg, Finset.univ.sup fun t => (is t).length,
    ⟨hroute, hcost, by simpa using hp.hops, ?_, ?_⟩, ?_, ?_⟩
  · intro pre m post h
    obtain ⟨t, ht, rfl, _⟩ := ofFn_eq_append_cons h
    obtain ⟨item, hitem, hleads⟩ := (hans t).leads
    exact ⟨attempt t, item, is t, ht ▸ hattempt t, hitem, hleads,
      Finset.le_sup (f := fun t => (is t).length) (Finset.mem_univ t)⟩
  · intro pre m post h
    obtain ⟨t, ht, rfl, hlen⟩ := ofFn_eq_append_cons h
    have hend : (t : ℕ) + 1 = vs.length ↔ post = [] := by
      rw [← List.length_eq_zero_iff]
      omega
    rw [← hend]
    simp only [msg, answer]
    split <;> simp_all
  · rw [List.forall₂_iff_get]
    refine ⟨by simp, fun t h _ => ?_⟩
    simpa [msg] using (hans ⟨t, h⟩).owned
  · have hpos := hp.hops.1
    have hlast : vs.length - 1 < vs.length := by omega
    have hdest := (hans ⟨vs.length - 1, hlast⟩).delivered (if_pos (by simp; omega))
    rw [List.getLast?_eq_getElem?]
    simp [msg, hlast, hdest.1]

@[simp] theorem others_probe {currTTL : ℕ} {path : List Addr} :
    (s.probe net source destAddr entry currTTL path).others = s.others := by
  unfold Tracing.probe
  split
  · split
    · rfl
    · split <;> rfl
  · rfl

variable [DecidableEq Node]

/-- How far a traceroute has come, with a bound on the moves it has left. -/
inductive Stage (net : Network Node) (handlers : Node → TracerouteHandler) (source : Node)
    (entry : RoutingTableEntry) (msgs : List NextHopMsg) (bound : ℕ) : Tracing Node → ℕ → Prop
  | called {s : Tracing Node} (htracer : s.tracer = .called) (hprobes : s.probes = 0)
      (hon : Function.update s.handlers source (s.handlers source).addChanRoutine = handlers) :
      Stage net handlers source entry msgs bound s (1 + (bound + 2) * msgs.length)
  | ready {s : Tracing Node} {pre post : List NextHopMsg} {msg : NextHopMsg}
      (hmsgs : msgs = pre ++ msg :: post)
      (htracer : s.tracer = .ready entry (pre.length + 1) (pre.map NextHopMsg.nextHop))
      (hprobes : s.probes = 0) (hon : s.handlers = handlers) :
      Stage net handlers source entry msgs bound s ((bound + 2) * (post.length + 1))
  | waiting {s : Tracing Node} {pre post : List NextHopMsg} {msg : NextHopMsg} {item : Item Node}
      {is : List (Item Node)} (hmsgs : msgs = pre ++ msg :: post)
      (htracer : s.tracer = .waiting entry (pre.length + 1) (pre.map NextHopMsg.nextHop))
      (hprobes : s.probes = {item}) (hon : s.handlers = handlers)
      (hleads : net.Leads handlers item is (.nextHop source msg)) :
      Stage net handlers source entry msgs bound s
        (is.length + 1 + (bound + 2) * post.length)
  | returned {s : Tracing Node} (htracer : s.tracer = .returned (msgs.map NextHopMsg.nextHop))
      (hprobes : s.probes = 0) : Stage net handlers source entry msgs bound s 0

theorem Stage.call (hp : Plan net handlers source destAddr entry msgs bound)
    (h : Stage net handlers source entry msgs bound s r) (htracer : s.tracer = .called) :
    ∃ r', Stage net handlers source entry msgs bound (s.call net source destAddr) r' ∧
      r' + 1 ≤ r := by
  cases h with
  | ready _ htracer' | waiting _ htracer' | returned htracer' =>
    rw [htracer] at htracer'
    cases htracer'
  | called _ hprobes hon =>
    simp only [Tracing.call, hp.route, if_neg hp.cost]
    have hmsgs := hp.hops.1
    cases msgs with
    | nil => simp at hmsgs
    | cons msg post =>
      have hsplit : msg :: post = [] ++ msg :: post := rfl
      refine ⟨_, .ready hsplit rfl hprobes hon, ?_⟩
      simp only [List.length_cons]
      omega

theorem Stage.probe (hp : Plan net handlers source destAddr entry msgs bound)
    (h : Stage net handlers source entry msgs bound s r) {entry' : RoutingTableEntry}
    {currTTL : ℕ} {path : List Addr} (htracer : s.tracer = .ready entry' currTTL path) :
    ∃ r', Stage net handlers source entry msgs bound
        (s.probe net source destAddr entry' currTTL path) r' ∧ r' + 1 ≤ r := by
  cases h with
  | called htracer' | waiting _ htracer' | returned htracer' =>
    rw [htracer] at htracer'
    cases htracer'
  | @ready pre post msg hmsgs htracer' hprobes hon =>
    rw [htracer] at htracer'
    cases htracer'
    obtain ⟨attempt, item, is, hattempt, hitem, hleads, hbound⟩ := hp.answer pre msg post hmsgs
    have httl : pre.length + 1 ≤ 16 := by
      have := hp.hops.2
      rw [hmsgs, List.length_append, List.length_cons] at this
      omega
    simp only [Tracing.probe, if_pos httl, if_neg hp.cost, hattempt, hitem, hprobes]
    refine ⟨_, .waiting hmsgs rfl (by simp) hon hleads, ?_⟩
    rw [Nat.mul_add_one]
    omega

theorem Stage.take (hp : Plan net handlers source destAddr entry msgs bound)
    (h : Stage net handlers source entry msgs bound s r) {entry' : RoutingTableEntry}
    {currTTL : ℕ} {path : List Addr} (htracer : s.tracer = .waiting entry' currTTL path)
    {msg : NextHopMsg} {rest : Multiset (Item Node)}
    (hmsg : s.probes = .nextHop source msg ::ₘ rest) :
    ∃ r', Stage net handlers source entry msgs bound
        (Tracing.take source { s with probes := rest } entry' currTTL path msg) r' ∧
      r' + 1 ≤ r := by
  cases h with
  | called htracer' | ready _ htracer' | returned htracer' =>
    rw [htracer] at htracer'
    cases htracer'
  | @waiting pre post msg' item is hmsgs htracer' hprobes hon hleads =>
    rw [htracer] at htracer'
    cases htracer'
    rw [hprobes, Multiset.singleton_eq_cons_iff] at hmsg
    obtain ⟨rfl, rfl⟩ := hmsg
    cases hleads with
    | step hstep => simp [Network.advance] at hstep
    | refl =>
      have hfound := hp.found pre msg post hmsgs
      unfold Tracing.take
      split
      · rename_i hend
        obtain rfl := hfound.mp hend
        refine ⟨_, .returned ?_ rfl, by omega⟩
        simp [hmsgs]
      · rename_i hend
        cases post with
        | nil => exact absurd (hfound.mpr rfl) hend
        | cons msg' post =>
          have hsplit : msgs = (pre ++ [msg]) ++ msg' :: post := by simp [hmsgs]
          refine ⟨_, .ready hsplit (by simp) rfl hon, ?_⟩
          simp only [List.length_cons]
          omega

theorem Stage.advance (h : Stage net handlers source entry msgs bound s r) {item : Item Node}
    {rest : Multiset (Item Node)} (hitem : s.probes = item ::ₘ rest)
    (hn : ∀ v msg, item ≠ .nextHop v msg) :
    ∃ r', Stage net handlers source entry msgs bound
        { s with probes := rest + ↑(net.advance s.handlers item) } r' ∧ r' + 1 ≤ r := by
  cases h with
  | called _ hprobes | ready _ _ hprobes | returned _ hprobes => simp [hprobes] at hitem
  | @waiting pre post msg' item' is hmsgs htracer hprobes hon hleads =>
    rw [hprobes, Multiset.singleton_eq_cons_iff] at hitem
    obtain ⟨rfl, rfl⟩ := hitem
    cases hleads with
    | refl => exact absurd rfl (hn _ _)
    | @step _ j _ is hstep hl =>
      refine ⟨_, .waiting hmsgs htracer ?_ hon hl, ?_⟩
      · simp [hon, hstep]
      · simp only [List.length_cons]
        omega

/-- Other traffic makes no difference. -/
theorem Stage.others (h : Stage net handlers source entry msgs bound s r)
    (others : Multiset (Item Node)) :
    Stage net handlers source entry msgs bound { s with others := others } r := by
  cases h with
  | called htracer hprobes hon => exact .called htracer hprobes hon
  | ready hmsgs htracer hprobes hon => exact .ready hmsgs htracer hprobes hon
  | waiting hmsgs htracer hprobes hon hleads => exact .waiting hmsgs htracer hprobes hon hleads
  | returned htracer hprobes => exact .returned htracer hprobes

/-- Until it has returned, a traceroute can move. -/
theorem Stage.progress (h : Stage net handlers source entry msgs bound s r) :
    (∃ path, s.tracer = .returned path) ∨
      ∃ e s', TraceEvent.own e = true ∧ TraceStep net source destAddr s e s' := by
  cases h with
  | called htracer => exact .inr ⟨_, _, rfl, .call htracer⟩
  | ready _ htracer => exact .inr ⟨_, _, rfl, .probe htracer⟩
  | returned htracer => exact .inl ⟨_, htracer⟩
  | @waiting _ _ _ item _ _ htracer hprobes _ hleads =>
    have hcons : s.probes = item ::ₘ 0 := hprobes
    cases hleads with
    | refl => exact .inr ⟨_, _, rfl, .take htracer hcons⟩
    | step hstep =>
      refine .inr ⟨_, _, rfl, .advance hcons ?_⟩
      rintro v msg rfl
      simp [Network.advance] at hstep

@[simp] theorem others_call : (s.call net source destAddr).others = s.others := by
  unfold Tracing.call
  split
  · rfl
  · split <;> rfl

@[simp] theorem others_take {currTTL : ℕ} {path : List Addr} {msg : NextHopMsg} :
    (s.take source entry currTTL path msg).others = s.others := by
  unfold Tracing.take
  split <;> rfl

/-- No move leaves the plan, and each move of the traceroute uses up one of those it has left. -/
theorem Stage.step (hp : Plan net handlers source destAddr entry msgs bound)
    (h : Stage net handlers source entry msgs bound s r)
    (hothers : ∀ i ∈ s.others, net.Harmless source i)
    (hstep : TraceStep net source destAddr s e s') :
    ∃ r', ((∀ i ∈ s'.others, net.Harmless source i) ∧
      Stage net handlers source entry msgs bound s' r') ∧ r' + e.own.toNat ≤ r := by
  cases hstep with
  | call htracer =>
    obtain ⟨r', hs', hr'⟩ := h.call hp htracer
    exact ⟨r', ⟨by simpa using hothers, hs'⟩, hr'⟩
  | probe htracer =>
    obtain ⟨r', hs', hr'⟩ := h.probe hp htracer
    exact ⟨r', ⟨by simpa using hothers, hs'⟩, hr'⟩
  | take htracer hmsg =>
    obtain ⟨r', hs', hr'⟩ := h.take hp htracer hmsg
    exact ⟨r', ⟨by simpa using hothers, hs'⟩, hr'⟩
  | @takeOther _ _ _ msg _ _ hmsg =>
    exact absurd .refl (hothers (.nextHop source msg) (by simp [hmsg]) msg)
  | advance hitem hn =>
    obtain ⟨r', hs', hr'⟩ := h.advance hitem hn
    exact ⟨r', ⟨hothers, hs'⟩, hr'⟩
  | @other item rest hitem hn =>
    refine ⟨r, ⟨fun i hi => ?_, h.others _⟩, le_rfl⟩
    rcases Multiset.mem_add.mp hi with hi | hi
    · exact hothers i (by simp [hitem, hi])
    · exact (hothers item (by simp [hitem])).advance (Multiset.mem_coe.mp hi)

end Traced

/-- A traceroute enumerates the forwarding path. Each probe is answered by the node that its TTL
reaches and by no other; whatever else is under way and in whatever order things move,
`SendTraceroutePacket` can return nothing but the addresses of the nodes, it can always go on until
it has returned, and it does so within a fixed number of its own moves. -/
theorem traceroute_enumerates_path [DecidableEq Node] (net : Network Node)
    (hip : net.codec.RoundTrips) (source : Node) (dest : Addr) (vs : List Node)
    (hp : net.Traceable source dest vs) (handlers : Node → TracerouteHandler)
    (others : Multiset (Item Node)) (hothers : ∀ i ∈ others, net.Harmless source i) :
    (∃ entry, (net.hosts source).router.table.checkRoute dest = some entry ∧
      ∀ hs : Node → TracerouteHandler, (hs source).handleRoute = true →
        ∀ t u, vs[t]? = some u →
          ∃ probe a is, (net.hosts source).sendProbe net.codec dest entry (t + 1) = some probe ∧
            net.Answered hs source dest probe u
              (if t + 1 = vs.length then .echoReply else .timeExceeded) a is) ∧
      ∃ path bound, path.length = vs.length ∧
        List.Forall₂ (fun u a => a ∈ (net.hosts u).own) vs path ∧ path.getLast? = some dest ∧
        ∀ tr s, Run (TraceStep net source dest) ⟨handlers, .called, 0, others⟩ tr s →
          (∀ p, s.tracer = .returned p → p = path) ∧
          ((∃ p, s.tracer = .returned p) ∨
            ∃ e s', TraceEvent.own e = true ∧ TraceStep net source dest s e s') ∧
          tr.countP (fun x => x.ev.own) ≤ bound := by
  let on := Function.update handlers source (handlers source).addChanRoutine
  have hon : (on source).handleRoute = true := by simp [on, TracerouteHandler.addChanRoutine]
  obtain ⟨entry, msgs, bound, hplan, howned, hlast⟩ := hp.plan hip hon
  refine ⟨⟨entry, hplan.route, fun hs hhs t u hu => hp.answered hip hplan.route hhs hu⟩,
    msgs.map NextHopMsg.nextHop, 1 + (bound + 2) * msgs.length, howned.length_eq.symm, howned,
    hlast, fun tr s hrun => ?_⟩
  obtain ⟨r, ⟨_, hstage⟩, hr⟩ := hrun.ranked
    (I := fun s r => (∀ i ∈ s.others, net.Harmless source i) ∧
      Stage net on source entry msgs bound s r)
    ⟨hothers, .called rfl rfl rfl⟩ fun _ _ _ _ h hstep => h.2.step hplan h.1 hstep
  refine ⟨fun p hpath => ?_, hstage.progress, by omega⟩
  cases hstage with
  | called htracer | ready _ htracer | waiting _ htracer =>
    rw [hpath] at htracer
    cases htracer
  | returned htracer =>
    rw [hpath] at htracer
    exact Tracer.returned.inj htracer

inductive LineNode
  | near
  | middle
  | far
  deriving DecidableEq

/-- Three nodes in a line, with the addresses 1, then 2 and 3, then 4. -/
def lineNetwork : Network LineNode where
  codec := ipv4Codec
  hosts
    | .near => ⟨[⟨0, 1, 2, 5001, false⟩], ⟨RoutingTable.addRoute ∅ 4 2 2 0, [], 1⟩⟩
    | .middle => ⟨[⟨0, 2, 1, 5000, false⟩, ⟨1, 3, 4, 5002, false⟩],
        ⟨(RoutingTable.addRoute ∅ 1 1 1 0).addRoute 4 1 4 1, [], 2⟩⟩
    | .far => ⟨[⟨0, 4, 3, 5001, false⟩], ⟨RoutingTable.addRoute ∅ 1 2 3 0, [], 1⟩⟩
  wires
    | .near, _ => (.middle, 5000)
    | .middle, interf => if interf.udpDestPort = 5000 then (.near, 5001) else (.far, 5001)
    | .far, _ => (.middle, 5002)

theorem traceable_lineNetwork : lineNetwork.Traceable .near 4 [.middle, .far] := by
  have hop₀ : lineNetwork.Hop 4 .near 1 .middle :=
    @Network.Hop.mk _ lineNetwork 4 .near ⟨2, 2, 0⟩ 1 ⟨0, 1, 2, 5001, false⟩ (by decide)
      (by decide) (by decide) (by decide) rfl (by decide)
  have hop₁ : lineNetwork.Hop 4 .middle 3 .far :=
    @Network.Hop.mk _ lineNetwork 4 .middle ⟨4, 1, 1⟩ 3 ⟨1, 3, 4, 5002, false⟩ (by decide)
      (by decide) (by decide) (by decide) rfl (by decide)
  have back₁ : lineNetwork.Hop 1 .middle 2 .near :=
    @Network.Hop.mk _ lineNetwork 1 .middle ⟨1, 1, 0⟩ 2 ⟨0, 2, 1, 5000, false⟩ (by decide)
      (by decide) (by decide) (by decide) rfl (by decide)
  have back₂ : lineNetwork.Hop 1 .far 4 .middle :=
    @Network.Hop.mk _ lineNetwork 1 .far ⟨3, 2, 0⟩ 4 ⟨0, 4, 3, 5001, false⟩ (by decide)
      (by decide) (by decide) (by decide) rfl (by decide)
  have route₁ : lineNetwork.Route 1 .middle [.near] :=
    .hop (by decide) back₁ (@Network.Route.here _ lineNetwork 1 .near ⟨0, 1, 2, 5001, false⟩
      (by decide) rfl)
  refine ⟨.hop (by decide) hop₀ (.hop (by decide) hop₁ (@Network.Route.here _ lineNetwork 4 .far
    ⟨0, 4, 3, 5001, false⟩ (by decide) rfl)), by decide, by decide, fun a w hh v hv => ?_⟩
  obtain ⟨rfl, rfl⟩ := hh.unique hop₀
  simp only [List.mem_cons, List.not_mem_nil, or_false] at hv
  rcases hv with rfl | rfl
  · exact ⟨[.near], route₁, rfl, by decide⟩
  · exact ⟨[.middle, .near], .hop (by decide) back₂ route₁, rfl, by decide⟩

theorem traceroute_enumerates_path_line :
    lineNetwork.Traceable .near 4 [.middle, .far] ∧ ∃ a : Addr, (a = 2 ∨ a = 3) ∧
      ∀ tr s, Run (TraceStep lineNetwork .near 4) ⟨fun _ => {}, .called, 0, 0⟩ tr s →
        ∀ p, s.tracer = .returned p → p = [a, 4] := by
  obtain ⟨_, path, _, _, howned, hlast, hruns⟩ := traceroute_enumerates_path lineNetwork
    roundTrips_ipv4Codec .near 4 [.middle, .far] traceable_lineNetwork (fun _ => {}) 0 (by simp)
  obtain ⟨a, ha, b, hb, rfl⟩ : ∃ a, a ∈ (lineNetwork.hosts .middle).own ∧ ∃ b,
      b ∈ (lineNetwork.hosts .far).own ∧ path = [a, b] := by
    cases howned with
    | cons ha hrest =>
      cases hrest with
      | cons hb hnil =>
        cases hnil
        exact ⟨_, ha, _, hb, rfl⟩
  obtain rfl := Option.some.inj hlast
  refine ⟨traceable_lineNetwork, a, ?_, fun tr s hrun => (hruns tr s hrun).1⟩
  simpa [Host.own, ownAddrs, lineNetwork] using ha

end TcpIp.Ip
