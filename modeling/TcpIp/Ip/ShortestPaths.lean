import TcpIp.Ip.Convergence
import TcpIp.Ip.Layout
import TcpIp.Ip.Probes

/-! Forwarding over the tables that the rounds of RIP leave: packets take shortest paths. -/
namespace TcpIp.Ip

open Runs

variable {Node : Type*} {T : Topology Node} {s s' : Node → Router} {x y z : Node}

section NextHops

variable {P : Addr → Prop} {r : Router} {own : List Addr} {now : ℕ} {src : Addr}

/-- Every next hop in the table is one of the given addresses. -/
def NextHops (P : Addr → Prop) (table : RoutingTable) : Prop :=
  ∀ a e, table.checkRoute a = some e → P e.nextHop

theorem NextHops.receiveEntry (h : NextHops P r.table) (own : List Addr) (now : ℕ) (hsrc : P src)
    (newEntry : RIPEntry) :
    NextHops P (r.receiveEntry own now src newEntry).1.table := by
  intro a e he
  rw [receiveEntry_table] at he
  cases hv : verdict r.table src newEntry with
  | skip | refresh _ =>
    rw [hv] at he
    exact h a e he
  | add =>
    rw [hv, checkRoute_commit_add] at he
    split at he
    · cases he
      exact hsrc
    · exact h a e he
  | update _ =>
    rw [hv, checkRoute_commit_update] at he
    obtain ⟨old, hold, rfl⟩ := Option.map_eq_some_iff.mp he
    split
    · exact hsrc
    · exact h a old hold

theorem NextHops.receiveEntries (h : NextHops P r.table) (hsrc : P src)
    (entries : List RIPEntry) :
    NextHops P (r.receiveEntries own now src entries).router.table := by
  induction entries generalizing r with
  | nil => exact h
  | cons newEntry entries ih =>
    have hfirst := h.receiveEntry own now hsrc newEntry
    simp only [Router.receiveEntries]
    generalize r.receiveEntry own now src newEntry = out at hfirst
    obtain ⟨r', _ | _⟩ := out
    · exact hfirst
    · exact ih hfirst

/-- An own address, or the far end of a link. -/
def Topology.Near (T : Topology Node) (x : Node) (hop : Addr) : Prop :=
  hop ∈ T.addrs x ∨ ∃ interf ∈ T.localIFs x, interf.destIPAddress = hop

theorem nextHops_start : NextHops (T.Near x) (T.start x).table := by
  intro a e he
  obtain ⟨hown, hhop, -⟩ := checkRoute_initRoutingTable he
  exact Or.inl (hhop ▸ hown)

theorem nextHops_round (h : ∀ x, NextHops (T.Near x) (s x).table) (hround : Round T s () s') :
    ∀ x, NextHops (T.Near x) (s' x).table := by
  intro x
  obtain ⟨order, updates, hperm, hhears, heq⟩ := hround x
  rw [heq]
  -- the updates are handled one after the other, each from the far end of an interface
  have horder : ∀ interf ∈ order, interf ∈ T.localIFs x := fun i hi => hperm.mem_iff.mp hi
  have hr := h x
  generalize s x = r at hr
  clear hperm heq
  induction hhears generalizing r with
  | nil => exact hr
  | @cons interf u order updates hu _ ih =>
    have hsrc : T.Near x u.src :=
      Or.inr ⟨interf, horder interf List.mem_cons_self, hu.src.symm⟩
    exact ih (fun i hi => horder i (List.mem_cons_of_mem interf hi)) _
      (hr.receiveEntries hsrc u.entries)

theorem nextHops_run {tr : List (Move (Node → Router) Unit)} (hr : Run (Round T) T.start tr s) :
    ∀ x, NextHops (T.Near x) (s x).table := by
  induction hr with
  | nil => exact fun x => nextHops_start
  | snoc _ hround ih => exact nextHops_round ih hround

end NextHops

/-- `net` is the topology with the tables `s`: what an interface sends arrives at its far end, from
the UDP port that the far end knows. -/
structure Wired (net : Network Node) (T : Topology Node) (s : Node → Router) : Prop where
  hosts : ∀ x, net.hosts x = ⟨T.localIFs x, s x⟩
  wires : ∀ x, ∀ interf ∈ T.localIFs x, ∃ j ∈ T.localIFs (net.wires x interf).1,
    j.hostIPAddress = interf.destIPAddress ∧ j.udpDestPort = (net.wires x interf).2

section Interfaces

variable {interf interf' : LinkInterface} {a : Addr}

/-- A node has one link to each far end. -/
theorem Topology.far_end_unique (hi : interf ∈ T.localIFs x) (hi' : interf' ∈ T.localIFs x)
    (h : interf.destIPAddress = interf'.destIPAddress) : interf = interf' := by
  obtain ⟨y, j, hj, -, hhost, hdest⟩ := T.linked hi
  obtain ⟨y', j', hj', -, hhost', hdest'⟩ := T.linked hi'
  obtain ⟨rfl, rfl⟩ := T.distinct hj hj' (by rw [hhost, h, hhost'])
  exact (T.distinct hi hi' (hdest.symm.trans hdest')).2

theorem Topology.localIF_eq (hi : interf ∈ T.localIFs x) :
    localIF (T.localIFs x) interf.hostIPAddress = some interf := by
  obtain ⟨found, hfound⟩ : ∃ found, localIF (T.localIFs x) interf.hostIPAddress = some found :=
    Option.isSome_iff_exists.mp (List.find?_isSome.mpr ⟨interf, hi, by simp⟩)
  have haddr := List.find?_some hfound
  simp only [decide_eq_true_eq] at haddr
  rw [hfound, (T.distinct (List.mem_of_find?_eq_some hfound) hi haddr).2]

theorem Topology.localIF_isSome_iff :
    (∃ found, localIF (T.localIFs x) a = some found) ↔ a ∈ T.addrs x := by
  constructor
  · rintro ⟨found, hfound⟩
    have haddr := List.find?_some hfound
    simp only [decide_eq_true_eq] at haddr
    exact haddr ▸ Topology.mem_addrs (List.mem_of_find?_eq_some hfound)
  · intro ha
    obtain ⟨interf, hi, rfl⟩ := List.mem_map.mp ha
    exact ⟨interf, Topology.localIF_eq hi⟩

theorem Topology.localIF_eq_none (ha : a ∉ T.addrs x) : localIF (T.localIFs x) a = none := by
  rw [← Option.not_isSome_iff_eq_none, Option.isSome_iff_exists, Topology.localIF_isSome_iff]
  exact ha

theorem Topology.remoteDestination_eq (hi : interf ∈ T.localIFs x) :
    remoteDestination (T.localIFs x) interf.destIPAddress = some interf.hostIPAddress := by
  obtain ⟨found, hfound⟩ : ∃ found, (T.localIFs x).find?
      (fun i => i.destIPAddress = interf.destIPAddress) = some found :=
    Option.isSome_iff_exists.mp (List.find?_isSome.mpr ⟨interf, hi, by simp⟩)
  have haddr := List.find?_some hfound
  simp only [decide_eq_true_eq] at haddr
  have heq := Topology.far_end_unique (List.mem_of_find?_eq_some hfound) hi haddr
  rw [remoteDestination, hfound, Option.map_some, heq]

end Interfaces

section Forwarding

variable {net : Network Node} {a : Addr} {e : RoutingTableEntry} {n k K : ℕ}

/-- The next hop of a right entry is the far end of a link to a nearer node. -/
theorem Right.link (hright : Right T x a e (n + 1)) (hnear : T.Near x e.nextHop) :
    ∃ interf ∈ T.localIFs x, interf.destIPAddress = e.nextHop ∧
      ∃ z, T.graph.Adj x z ∧ e.nextHop ∈ T.addrs z ∧ T.Away z a n := by
  obtain ⟨z, m, hadj, hz, haway, hm⟩ := hright.hop (Nat.succ_ne_zero n)
  obtain rfl : n = m := by omega
  rcases hnear with hown | ⟨interf, hi, hdest⟩
  · exact absurd (Topology.owner_unique hown hz) hadj.ne
  · exact ⟨interf, hi, hdest, z, hadj, hz, haway⟩

/-- A packet for an address that is known leaves along the link to a nearer node. -/
theorem Wired.hop (hw : Wired net T s) (hknows : Knows T k K x (s x))
    (hhops : NextHops (T.Near x) (s x).table) (haway : T.Away x a (n + 1)) (hk : n + 1 ≤ k)
    (h15 : n + 1 ≤ 15) :
    ∃ interf ∈ T.localIFs x, ∃ z, T.graph.Adj x z ∧ T.Away z a n ∧
      net.Hop a x interf.hostIPAddress z ∧
      ∃ entry, (net.hosts x).router.table.checkRoute a = some entry ∧
        entry.nextHop ∉ T.addrs x := by
  obtain ⟨e, he⟩ := hknows.complete a (n + 1) haway hk (by omega)
  obtain ⟨m, -, -, hright⟩ := hknows.right a e he
  obtain rfl := hright.away.unique haway
  obtain ⟨interf, hi, hdest, z, hadj, hz, hnearer⟩ := hright.link (hhops a e he)
  obtain ⟨j, hj, hjhost, hjport⟩ := hw.wires x interf hi
  have hto : (net.wires x interf).1 = z :=
    Topology.owner_unique (Topology.mem_addrs hj) (by rwa [hjhost, hdest])
  have hcost : e.cost ≠ infinity := by
    intro hinf
    have hc := hright.cost
    rw [hinf, toNat_infinity] at hc
    omega
  have hroute : (net.hosts x).router.table.checkRoute a = some e := by rwa [hw.hosts]
  have hown : e.nextHop ∉ T.addrs x := fun hown => hadj.ne (Topology.owner_unique hown hz)
  refine ⟨interf, hi, z, hadj, hnearer, ?_, e, hroute, hown⟩
  rw [← hto]
  refine .mk hroute hcost ?_ ?_ (T.up hi) ⟨j, ?_, hjport⟩
  · rw [hw.hosts, ← hdest]
    exact Topology.remoteDestination_eq hi
  · rw [hw.hosts]
    exact Topology.localIF_eq hi
  · rwa [hw.hosts]

/-- The way along nearer and nearer nodes, by induction on the distance. -/
theorem Wired.route (hw : Wired net T s) (hknows : ∀ x, Knows T k K x (s x))
    (hhops : ∀ x, NextHops (T.Near x) (s x).table) (ha : a ∈ T.addrs y) (haway : T.Away x a n)
    (hk : n ≤ k) (h15 : n ≤ 15) :
    ∃ p : T.graph.Walk x y, p.length = n ∧ net.Route a x p.support.tail := by
  induction n generalizing x with
  | zero =>
    obtain rfl := Topology.owner_unique (Topology.away_zero.mp haway) ha
    obtain ⟨interf, hi, rfl⟩ := List.mem_map.mp ha
    refine ⟨.nil, rfl, .here ?_ (T.up hi)⟩
    rw [hw.hosts]
    exact Topology.localIF_eq hi
  | succ n ih =>
    obtain ⟨interf, hi, z, hadj, hnearer, hhop, -⟩ :=
      hw.hop (hknows x) (hhops x) haway hk h15
    obtain ⟨p, hlen, hr⟩ := ih hnearer (by omega) (by omega)
    refine ⟨.cons hadj p, by simp [hlen], ?_⟩
    have hnot : a ∉ T.addrs x := by
      intro hx
      exact absurd (haway.unique (Topology.away_zero.mpr hx)) (by omega)
    rw [SimpleGraph.Walk.support_cons, List.tail_cons, ← p.cons_tail_support]
    refine .hop ?_ hhop hr
    rw [hw.hosts]
    exact Topology.localIF_eq_none hnot

end Forwarding

section Delivery

variable {net : Network Node} {handlers : Node → TracerouteHandler} {a : Addr} {n d : ℕ}
  {tr : List (Move (Node → Router) Unit)}

/-- The protocol of `SendPacket`. -/
theorem test_registered : (0 : ℤ) ∈ handlerRegistry := by decide

/-- `SendPacket` along the first hop of a route. -/
theorem Network.Hop.sends (hip : net.codec.RoundTrips) {v w : Node} {dest : Addr}
    {entry : RoutingTableEntry} (hh : net.Hop dest v a w)
    (hroute : (net.hosts v).router.table.checkRoute dest = some entry)
    (hnot : localIF (net.hosts v).localIFs entry.nextHop = none) (protocol : ℤ)
    (data : List U8) :
    ∃ port, (∃ i ∈ (net.hosts w).localIFs, i.udpDestPort = port) ∧
      net.transmit v ((net.hosts v).sendPacket net.codec dest protocol data).1 =
        [.datagram w port (net.wire (net.checked a dest data 0 16))] := by
  cases hh with
  | mk hroute' hcost hnear hif hup hport =>
    rw [hroute] at hroute'
    obtain rfl := Option.some.inj hroute'
    refine ⟨_, hport, ?_⟩
    simp only [Host.sendPacket, hroute, if_neg hcost, hnot, hnear, hif,
      withChecksum_createIPPacket hip]
    exact Network.transmit_handed hup

/-- `SendPacket` to an own address puts the packet on the node's own channel. -/
theorem Knows.loops {k K : ℕ} (hip : net.codec.RoundTrips) (hw : Wired net T s)
    (hknows : Knows T k K x (s x)) (ha : a ∈ T.addrs x) (protocol : ℤ) (data : List U8) :
    net.transmit x ((net.hosts x).sendPacket net.codec a protocol data).1 =
      [.packet x (net.checked a a data 0 16)] := by
  have haway : T.Away x a 0 := Topology.away_zero.mpr ha
  obtain ⟨e, he⟩ := hknows.complete a 0 haway (Nat.zero_le k) (by omega)
  obtain ⟨m, -, -, hright⟩ := hknows.right a e he
  obtain rfl := hright.away.unique haway
  have hhop : e.nextHop = a := hright.own rfl
  have hcost : e.cost ≠ infinity := by
    intro hinf
    have hc := hright.cost
    rw [hinf, toNat_infinity] at hc
    omega
  obtain ⟨interf, hi, haddr⟩ := List.mem_map.mp ha
  have hif : localIF (T.localIFs x) a = some interf := haddr ▸ Topology.localIF_eq hi
  simp only [hw.hosts, Host.sendPacket, he, if_neg hcost, hhop, hif,
    withChecksum_createIPPacket hip]
  rfl

theorem getLast?_support {G : SimpleGraph Node} (p : G.Walk x y) :
    (x :: p.support.tail).getLast? = some y := by
  rw [p.cons_tail_support, List.getLast?_eq_getLast_of_ne_nil p.support_ne_nil, p.getLast_support]

end Delivery

section Sample

/-- Whatever the tables are, the hosts of a topology can be wired. -/
theorem exists_wired (T : Topology Node) (s : Node → Router) (ip : HeaderCodec) :
    ∃ net : Network Node, net.codec = ip ∧ Wired net T s := by
  classical
  have hall : ∀ x interf, ∃ target : Node × ℕ, interf ∈ T.localIFs x →
      ∃ j ∈ T.localIFs target.1, j.hostIPAddress = interf.destIPAddress ∧
        j.udpDestPort = target.2 := by
    intro x interf
    by_cases hi : interf ∈ T.localIFs x
    · obtain ⟨y, j, hj, -, hhost, -⟩ := T.linked hi
      exact ⟨(y, j.udpDestPort), fun _ => ⟨j, hj, hhost, rfl⟩⟩
    · exact ⟨(x, 0), fun h => absurd h hi⟩
  choose wires hwires using hall
  exact ⟨⟨ip, fun x => ⟨T.localIFs x, s x⟩, wires⟩, rfl, fun _ => rfl,
    fun x interf hi => hwires x interf hi⟩

theorem loopless_line : line.Loopless := by
  have hall : ∀ x : Fin 3, ¬ ∃ i ∈ lineIFs x, ∃ j ∈ lineIFs x,
      j.hostIPAddress = i.destIPAddress ∧ j.destIPAddress = i.hostIPAddress := by decide
  exact hall

/-- There are two rounds on the line, and a network with the tables they leave. -/
theorem exists_line_rounds : ∃ (tr : List (Move (Fin 3 → Router) Unit)) (s : Fin 3 → Router)
    (net : Network (Fin 3)), tr.length = 2 ∧ Run (Round line) line.start tr s ∧
      net.codec = ipv4Codec ∧ Wired net line s := by
  obtain ⟨s₁, h₁⟩ := exists_round line line.start
  obtain ⟨s₂, h₂⟩ := exists_round line s₁
  obtain ⟨net, hnet⟩ := exists_wired line s₂ ipv4Codec
  exact ⟨_, s₂, net, rfl, .snoc (.snoc .nil h₁) h₂, hnet⟩

end Sample

end TcpIp.Ip
