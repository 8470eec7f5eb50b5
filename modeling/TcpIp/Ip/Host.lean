import TcpIp.Lib.Run
import TcpIp.Ip.Rip

/-! A host: its interfaces, its routing table, and what changes the table. -/
namespace TcpIp.Ip

structure LinkInterface where
  interfaceNumber : ℤ
  hostIPAddress : Addr
  destIPAddress : Addr
  udpDestPort : ℕ
  stopped : Bool
  deriving DecidableEq, Repr

/-- The keys of `LocalIFs`, which the RIP handler knows as `OwnInterfaces`. -/
def ownAddrs (localIFs : List LinkInterface) : List Addr := localIFs.map LinkInterface.hostIPAddress

/-- `LocalIFs[addr]`. -/
def localIF (localIFs : List LinkInterface) (addr : Addr) : Option LinkInterface :=
  localIFs.find? fun interf => interf.hostIPAddress = addr

/-- `RemoteDestination[addr]`, which maps the far end of each link to the near one. -/
def remoteDestination (localIFs : List LinkInterface) (addr : Addr) : Option Addr :=
  (localIFs.find? fun interf => interf.destIPAddress = addr).map LinkInterface.hostIPAddress

structure Host where
  localIFs : List LinkInterface
  router : Router

/-- The host as `SetupHandlers` leaves it. -/
def Host.start (localIFs : List LinkInterface) : Host where
  localIFs := localIFs
  router := initRoutingTable (ownAddrs localIFs)

namespace Host

def own (h : Host) : List Addr := ownAddrs h.localIFs

def setStopped (h : Host) (hostIPAddress : Addr) (stopped : Bool) : List LinkInterface :=
  h.localIFs.map fun interf =>
    if interf.hostIPAddress = hostIPAddress then { interf with stopped := stopped } else interf

def downInterface (h : Host) (interfaceNum : ℤ) : Except String Host :=
  match h.localIFs.find? fun interf => interf.interfaceNumber = interfaceNum with
  | none => .error "could not find interface associated with this number"
  | some interf =>
    if interf.stopped then .error ("interface " ++ toString interfaceNum ++ " is already down")
    else
      .ok
        { localIFs := h.setStopped interf.hostIPAddress true
          router :=
            { h.router with
              table := h.router.table.removeNextHops [interf.hostIPAddress, interf.destIPAddress] } }

def upInterface (h : Host) (interfaceNum : ℤ) : Except String Host :=
  match h.localIFs.find? fun interf => interf.interfaceNumber = interfaceNum with
  | none => .error "could not find interface associated with this number"
  | some interf =>
    if !interf.stopped then .error ("interface " ++ toString interfaceNum ++ " is already up")
    else
      .ok
        { localIFs := h.setStopped interf.hostIPAddress false
          router := h.router.setOwn interf.hostIPAddress }

end Host

/-- What can change the routing table: one entry of a received RIP message, a route timeout, an
interface going down or coming up. -/
inductive HostEvent
  | rip (src : Addr) (newEntry : RIPEntry)
  | timeout (i : ℕ)
  | down (interfaceNum : ℤ)
  | up (interfaceNum : ℤ)
  deriving DecidableEq, Repr

def Host.step (now : ℕ) (h : Host) : HostEvent → Option Host
  | .rip src newEntry =>
    some { h with router := (h.router.receiveEntry h.own now src newEntry).1 }
  | .timeout i => (h.router.expire now i).map fun router => { h with router := router }
  | .down interfaceNum => (h.downInterface interfaceNum).toOption
  | .up interfaceNum => (h.upInterface interfaceNum).toOption

/-- One change, at any time. -/
def HostStep (h : Host) (ev : HostEvent) (h' : Host) : Prop := ∃ now, h.step now ev = some h'

variable {h h' : Host} {ev : HostEvent} {now : ℕ} {src : Addr} {entries : List RIPEntry}

/-- What a step does to the router. -/
inductive HostMove (h : Host) : HostEvent → Router → Prop
  | rip (now : ℕ) (src : Addr) (newEntry : RIPEntry) :
      HostMove h (.rip src newEntry) (h.router.receiveEntry h.own now src newEntry).1
  | timeout {now i : ℕ} {r : Router} (hr : h.router.expire now i = some r) :
      HostMove h (.timeout i) r
  | down {interf : LinkInterface} (n : ℤ) (hmem : interf ∈ h.localIFs) :
      HostMove h (.down n)
        { h.router with
          table := h.router.table.removeNextHops [interf.hostIPAddress, interf.destIPAddress] }
  | up {a : Addr} (n : ℤ) (hmem : a ∈ h.own) : HostMove h (.up n) (h.router.setOwn a)

theorem own_setStopped {b : Addr} {stopped : Bool} :
    ownAddrs (h.setStopped b stopped) = h.own := by
  simp only [ownAddrs, Host.own, Host.setStopped, List.map_map]
  apply List.map_congr_left
  intro interf _
  simp only [Function.comp]
  split <;> rfl

theorem mem_own {interf : LinkInterface} (hmem : interf ∈ h.localIFs) :
    interf.hostIPAddress ∈ h.own := List.mem_map_of_mem hmem

/-- The interfaces of a host stay the same, up to being stopped. -/
theorem HostStep.move (hs : HostStep h ev h') : h'.own = h.own ∧ HostMove h ev h'.router := by
  obtain ⟨now, hs⟩ := hs
  cases ev with
  | rip src newEntry =>
    cases hs
    exact ⟨rfl, .rip now src newEntry⟩
  | timeout i =>
    obtain ⟨r, hr, rfl⟩ := Option.map_eq_some_iff.mp hs
    exact ⟨rfl, .timeout hr⟩
  | down n =>
    simp only [Host.step, Host.downInterface] at hs
    split at hs
    · cases hs
    · rename_i interf hfind
      split at hs
      · cases hs
      · cases hs
        exact ⟨own_setStopped, HostMove.down n (List.mem_of_find?_eq_some hfind)⟩
  | up n =>
    simp only [Host.step, Host.upInterface] at hs
    split at hs
    · cases hs
    · rename_i interf hfind
      split at hs
      · cases hs
      · cases hs
        exact ⟨own_setStopped, HostMove.up n (mem_own (List.mem_of_find?_eq_some hfind))⟩

end TcpIp.Ip
