import TcpIp.Ip.Topology

/-! The goroutines of the RIP handlers, and a static network in which they and their messages
interleave freely. -/
namespace TcpIp.Ip

open Maps Binary

/-- A RIP payload on its way from one interface to another. -/
structure RipPacket where
  src : Addr
  dst : Addr
  data : List U8
  deriving DecidableEq, Repr

/-- `ReadFromHandler` and `SendToNeighbor`, for bytes that the RIP handler put on its channel. -/
def readFromHandler (localIFs : List LinkInterface) (bytes : List U8) : Option RipPacket :=
  if bytes.length = 0 then none
  else
    let destAddr : Addr := BitVec.ofNat 32 (ofBytes (bytes.take addrSize))
    match remoteDestination localIFs destAddr with
    | none => none
    | some addrOfInterface =>
      match localIF localIFs addrOfInterface with
      | none => none
      | some localInterface =>
        if localInterface.stopped then none
        else some ⟨addrOfInterface, destAddr, stripAddress bytes⟩

/-- Where a running `ReceivePacket` is with the entry at the head of its list: about to look it up,
about to write the table, or sending on the channel of the route's watcher. -/
inductive Phase
  | check
  | commit (v : Verdict)
  | refresh (updateChan : Chan)
  deriving DecidableEq, Repr

/-- A running `ReceivePacket`, with the entries it has still to go through. -/
structure Job where
  nextHop : Addr
  entries : List RIPEntry
  phase : Phase
  updatedEntries : List RIPEntry
  deriving DecidableEq, Repr

/-- A running `SendTriggeredUpdates`, with the neighbours it has still to send to. -/
structure Trigger where
  entriesToSend : List RIPEntry
  neighbors : List Addr
  deriving DecidableEq, Repr

/-- A host with its RIP goroutines. A running `ReceivePacket` is kept with the time at which its
entries were read from the sender's table. -/
structure RipNode where
  host : Host
  jobs : List (ℕ × Job)
  triggers : List Trigger

namespace RipNode

/-- The node when `InitHandler` is called. -/
def start (localIFs : List LinkInterface) : RipNode := ⟨Host.start localIFs, [], []⟩

def table (n : RipNode) : RoutingTable := n.host.router.table

def setRouter (n : RipNode) (router : Router) : RipNode :=
  { n with host := { n.host with router := router } }

def send (n : RipNode) (bytes : List U8) : List RipPacket :=
  (readFromHandler n.host.localIFs bytes).toList

end RipNode

inductive NodeEvent
  | initial (neighbor : Addr)
  | periodic (neighbor : Addr)
  | triggered (neighbor : Addr)
  /-- a packet arrives whose entries were read at `sent` -/
  | deliver (sent : ℕ) (p : RipPacket)
  | check
  | commit
  | refresh
  | finish
  | timeout
  | down (interfaceNum : ℤ)
  | up (interfaceNum : ℤ)

/-- A job after its write: it goes to the channel of the watcher, or on to the next entry. -/
def Job.committed (own : List Addr) (job : Job) (newEntry : RIPEntry) (rest : List RIPEntry)
    (v : Verdict) : Job :=
  let updated := if v.changed then job.updatedEntries ++ [newEntry] else job.updatedEntries
  match v.refreshes own newEntry.address with
  | some updateChan => ⟨job.nextHop, newEntry :: rest, .refresh updateChan, updated⟩
  | none => ⟨job.nextHop, rest, .check, updated⟩

/-- One step of one goroutine of a node, with the packets it sends. -/
inductive NodeStep (now : ℕ) (n : RipNode) :
    NodeEvent → RipNode → List RipPacket → Prop
  | initial {interf : LinkInterface} (range : List (Σ _ : Addr, RoutingTableEntry))
      (hi : interf ∈ n.host.localIFs) (hrange : Ranges n.table range) :
      NodeStep now n (.initial interf.destIPAddress) n
        (n.send (initHandlerMessage interf.destIPAddress (getAllEntries range)))
  | periodic {interf : LinkInterface} (range : List (Σ _ : Addr, RoutingTableEntry))
      (hi : interf ∈ n.host.localIFs) (hrange : Ranges n.table range) :
      NodeStep now n (.periodic interf.destIPAddress) n
        (n.send (sendUpdatesMessage interf.destIPAddress
          (getSpecificEntries range interf.destIPAddress)))
  | triggered {neighbor : Addr} {neighbors : List Addr} {entriesToSend : List RIPEntry}
      {pre post : List Trigger}
      (hj : n.triggers = pre ++ ⟨entriesToSend, neighbor :: neighbors⟩ :: post) :
      NodeStep now n (.triggered neighbor)
        { n with
          triggers := pre ++ ⟨poisonEntries n.table neighbor entriesToSend, neighbors⟩ :: post }
        (n.send (sendTriggeredMessage neighbor (poisonEntries n.table neighbor entriesToSend)))
  | deliver {sent : ℕ} {p : RipPacket} (hp : p.dst ∈ n.host.own) :
      NodeStep now n (.deliver sent p)
        { n with
          jobs := n.jobs ++ [(sent, ⟨p.src, (decode (bufferData p.data)).entries, .check, []⟩)] }
        []
  | check {sent : ℕ} {nextHop : Addr} {newEntry : RIPEntry} {rest updated : List RIPEntry}
      {pre post : List (ℕ × Job)}
      (hj : n.jobs = pre ++ (sent, ⟨nextHop, newEntry :: rest, .check, updated⟩) :: post) :
      NodeStep now n .check
        { n with
          jobs := pre ++ (sent, ⟨nextHop, newEntry :: rest,
            .commit (verdict n.table nextHop newEntry), updated⟩) :: post }
        []
  | commit {sent : ℕ} {job : Job} {newEntry : RIPEntry} {rest : List RIPEntry} {v : Verdict}
      {pre post : List (ℕ × Job)} (hj : n.jobs = pre ++ (sent, job) :: post)
      (hentries : job.entries = newEntry :: rest) (hphase : job.phase = .commit v) :
      NodeStep now n .commit
        { n.setRouter (n.host.router.commit now job.nextHop newEntry v) with
          jobs := pre ++ (sent, job.committed n.host.own newEntry rest v) :: post }
        []
  | refresh {sent : ℕ} {nextHop : Addr} {newEntry : RIPEntry} {rest updated : List RIPEntry}
      {updateChan : Chan} {router : Router} {pre post : List (ℕ × Job)}
      (hj : n.jobs =
        pre ++ (sent, ⟨nextHop, newEntry :: rest, .refresh updateChan, updated⟩) :: post)
      (hr : n.host.router.refresh now updateChan = some router) :
      NodeStep now n .refresh
        { n.setRouter router with jobs := pre ++ (sent, ⟨nextHop, rest, .check, updated⟩) :: post }
        []
  | finish {sent : ℕ} {nextHop : Addr} {updated : List RIPEntry} {pre post : List (ℕ × Job)}
      (neighbors : List Addr)
      (hj : n.jobs = pre ++ (sent, ⟨nextHop, [], .check, updated⟩) :: post)
      (hn : neighbors.Perm (n.host.localIFs.map LinkInterface.destIPAddress)) :
      NodeStep now n .finish
        { n with
          jobs := pre ++ post
          triggers :=
            if updated = [] then n.triggers else n.triggers ++ [⟨updated, neighbors⟩] }
        []
  | timeout {router : Router} (i : ℕ) (hr : n.host.router.expire now i = some router) :
      NodeStep now n .timeout (n.setRouter router) []
  | down {host : Host} {interfaceNum : ℤ} (h : n.host.downInterface interfaceNum = .ok host) :
      NodeStep now n (.down interfaceNum) { n with host } []
  | up {host : Host} {interfaceNum : ℤ} (h : n.host.upInterface interfaceNum = .ok host) :
      NodeStep now n (.up interfaceNum) { n with host } []

/-- The nodes, and every RIP packet sent so far: any of them may arrive late, twice or never. -/
structure RipNet (Node : Type*) where
  node : Node → RipNode
  wire : List RipPacket

def RipNet.start {Node : Type*} (T : Topology Node) : RipNet Node where
  node x := .start (T.localIFs x)
  wire := []

/-- No link goes down or up. -/
def NodeEvent.Static : NodeEvent → Prop
  | .down _ | .up _ => False
  | _ => True

/-- One step of one goroutine of one node, or the arrival of a packet. The clocks of the nodes may
show anything. -/
inductive RipStep {Node : Type*} [DecidableEq Node] (s : RipNet Node) :
    Node × NodeEvent → RipNet Node → Prop
  | act {x : Node} {ev : NodeEvent} {n : RipNode} {packets : List RipPacket} (now : ℕ)
      (hs : NodeStep now (s.node x) ev n packets)
      (hwire : ∀ sent p, ev = .deliver sent p → p ∈ s.wire) (hstatic : ev.Static) :
      RipStep s (x, ev)
        { node := Function.update s.node x n
          wire := s.wire ++ packets }

section Origins

variable {now : ℕ} {n n' : RipNode} {ev : NodeEvent} {packets : List RipPacket}

/-- What a step makes of the router. -/
inductive RouterFrom (now : ℕ) (n : RipNode) : Router → Prop
  | same : RouterFrom now n n.host.router
  | commit {j : ℕ × Job} {newEntry : RIPEntry} {rest : List RIPEntry} {v : Verdict}
      (hj : j ∈ n.jobs) (hentries : j.2.entries = newEntry :: rest)
      (hphase : j.2.phase = .commit v) :
      RouterFrom now n (n.host.router.commit now j.2.nextHop newEntry v)
  | refresh {j : ℕ × Job} {updateChan : Chan} {router : Router} (hj : j ∈ n.jobs)
      (hphase : j.2.phase = .refresh updateChan)
      (hr : n.host.router.refresh now updateChan = some router) : RouterFrom now n router
  | timeout {i : ℕ} {router : Router} (hr : n.host.router.expire now i = some router) :
      RouterFrom now n router
  | down (nextHops : List Addr) :
      RouterFrom now n
        { n.host.router with table := n.host.router.table.removeNextHops nextHops }
  | up {a : Addr} (ha : a ∈ n.host.own) : RouterFrom now n (n.host.router.setOwn a)

/-- Where a running `ReceivePacket` comes from. -/
inductive JobFrom (now : ℕ) (n : RipNode) (ev : NodeEvent) (n' : RipNode) : ℕ × Job → Prop
  | kept {j : ℕ × Job} (hj : j ∈ n.jobs) : JobFrom now n ev n' j
  | arrived {sent : ℕ} {p : RipPacket} (hev : ev = .deliver sent p) (hdst : p.dst ∈ n.host.own) :
      JobFrom now n ev n' (sent, ⟨p.src, (decode (bufferData p.data)).entries, .check, []⟩)
  | next {j : ℕ × Job} {job : Job} (hj : j ∈ n.jobs) (hsub : job.entries <:+ j.2.entries)
      (hphase : job.phase = .check) : JobFrom now n ev n' (j.1, job)
  | checked {j : ℕ × Job} {job : Job} {newEntry : RIPEntry} {rest : List RIPEntry} (hj : j ∈ n.jobs)
      (hentries : j.2.entries = newEntry :: rest) (hsame : job.entries = newEntry :: rest)
      (hphase : job.phase = .commit (verdict n.table job.nextHop newEntry)) :
      JobFrom now n ev n' (j.1, job)
  | committed {j : ℕ × Job} {job : Job} {newEntry : RIPEntry} {rest : List RIPEntry} {v : Verdict}
      {updateChan : Chan} (hj : j ∈ n.jobs) (hentries : j.2.entries = newEntry :: rest)
      (hcommit : j.2.phase = .commit v)
      (hrefreshes : v.refreshes n.host.own newEntry.address = some updateChan)
      (hsame : job.entries = newEntry :: rest) (hphase : job.phase = .refresh updateChan)
      (hrouter : n'.host.router = n.host.router.commit now j.2.nextHop newEntry v) :
      JobFrom now n ev n' (j.1, job)

theorem NodeStep.router (hs : NodeStep now n ev n' packets) :
    n'.host.own = n.host.own ∧ RouterFrom now n n'.host.router := by
  cases hs with
  | initial | periodic | triggered | deliver | check | finish => exact ⟨rfl, .same⟩
  | commit hj hentries hphase =>
    exact ⟨rfl, .commit (hj ▸ List.mem_append_cons_self) hentries hphase⟩
  | refresh hj hr =>
    exact ⟨rfl, .refresh (hj ▸ List.mem_append_cons_self) rfl hr⟩
  | timeout i hr => exact ⟨rfl, .timeout hr⟩
  | @down host interfaceNum h =>
    have hs : HostStep n.host (.down interfaceNum) host := ⟨now, by rw [Host.step, h]; rfl⟩
    obtain ⟨hown, hm⟩ := hs.move
    refine ⟨hown, ?_⟩
    change RouterFrom now n host.router
    generalize host.router = router at hm
    cases hm with
    | down => exact .down _
  | @up host interfaceNum h =>
    have hs : HostStep n.host (.up interfaceNum) host := ⟨now, by rw [Host.step, h]; rfl⟩
    obtain ⟨hown, hm⟩ := hs.move
    refine ⟨hown, ?_⟩
    change RouterFrom now n host.router
    generalize host.router = router at hm
    cases hm with
    | up _ ha => exact .up ha

theorem JobFrom.of_replace {j j' : ℕ × Job} {pre post : List (ℕ × Job)} {job : Job}
    (hj : n.jobs = pre ++ j :: post) (hmem : j' ∈ pre ++ (j.1, job) :: post)
    (hnew : JobFrom now n ev n' (j.1, job)) : JobFrom now n ev n' j' := by
  rcases List.mem_append.mp hmem with hmem | hmem
  · exact .kept (hj ▸ List.mem_append_left _ hmem)
  · rcases List.mem_cons.mp hmem with rfl | hmem
    · exact hnew
    · exact .kept (hj ▸ List.mem_append_right _ (List.mem_cons_of_mem _ hmem))

theorem NodeStep.jobs (hs : NodeStep now n ev n' packets) {j : ℕ × Job} (hmem : j ∈ n'.jobs) :
    JobFrom now n ev n' j := by
  cases hs with
  | initial | periodic | triggered | timeout | down | up => exact .kept hmem
  | deliver hdst =>
    rcases List.mem_append.mp hmem with hmem | hmem
    · exact .kept hmem
    · rw [List.mem_singleton.mp hmem]
      exact .arrived rfl hdst
  | check hj =>
    exact JobFrom.of_replace hj hmem
      (.checked (hj ▸ List.mem_append_cons_self) rfl rfl rfl)
  | @commit sent job newEntry rest v pre post hj hentries hphase =>
    have hold : (sent, job) ∈ n.jobs := hj ▸ List.mem_append_cons_self
    refine JobFrom.of_replace hj hmem ?_
    cases href : v.refreshes n.host.own newEntry.address with
    | none =>
      rw [Job.committed, href]
      exact .next hold (hentries ▸ List.suffix_cons newEntry rest) rfl
    | some updateChan =>
      rw [Job.committed, href]
      exact .committed hold hentries hphase href rfl rfl rfl
  | refresh hj hr =>
    exact JobFrom.of_replace hj hmem
      (.next (hj ▸ List.mem_append_cons_self) (List.suffix_cons _ _) rfl)
  | finish neighbors hj hn =>
    rcases List.mem_append.mp hmem with hmem | hmem
    · exact .kept (hj ▸ List.mem_append_left _ hmem)
    · exact .kept (hj ▸ List.mem_append_right _ (List.mem_cons_of_mem _ hmem))

/-- A job works on the rest of what it had, or on what has just arrived. -/
theorem NodeStep.heard (hs : NodeStep now n ev n' packets) {j : ℕ × Job} (hmem : j ∈ n'.jobs) :
    (∃ j' ∈ n.jobs, j'.1 = j.1 ∧ j.2.entries ⊆ j'.2.entries) ∨
      ∃ p, ev = .deliver j.1 p ∧ j.2.entries = (decode (bufferData p.data)).entries := by
  cases hs.jobs hmem with
  | kept hj => exact Or.inl ⟨j, hj, rfl, List.Subset.refl _⟩
  | @arrived sent p hev => exact Or.inr ⟨p, hev, rfl⟩
  | next hj hsub => exact Or.inl ⟨_, hj, rfl, hsub.subset⟩
  | checked hj hentries hsame =>
    exact Or.inl ⟨_, hj, rfl, by rw [hentries, hsame]; exact List.Subset.refl _⟩
  | committed hj hentries _ _ hsame =>
    exact Or.inl ⟨_, hj, rfl, by rw [hentries, hsame]; exact List.Subset.refl _⟩

theorem NodeStep.localIFs (hs : NodeStep now n ev n' packets) (hstatic : ev.Static) :
    n'.host.localIFs = n.host.localIFs := by
  cases hs with
  | down | up => cases hstatic
  | _ => rfl

end Origins

end TcpIp.Ip
