import TcpIp.Ip.RipMessage

/-! The RIP handler of one node: what received entries do to its table and its route timers. -/
namespace TcpIp.Ip

/-- A running `waitForUpdates`, with the time at which its timeout fires. -/
structure Watcher where
  newEntryAddress : Addr
  nextHop : Addr
  updateChan : Chan
  timeout : ℕ
  deriving DecidableEq, Repr

/-- The table of a node, its watchers and the number of channels made so far. -/
structure Router where
  table : RoutingTable
  watchers : List Watcher
  chans : Chan

/-- The first timeout of a watcher, in seconds. -/
def firstTimeout : ℕ := 20
/-- `TIMEOUT`. -/
def routeTimeout : ℕ := 12

/-- What the loop of `ReceivePacket` does about one entry. -/
inductive Verdict
  | skip
  | add
  | update (updateChan : Chan)
  | refresh (updateChan : Chan)
  deriving DecidableEq, Repr

/-- The branch taken for `newEntry`, heard from `nextHop`. -/
def verdict (table : RoutingTable) (nextHop : Addr) (newEntry : RIPEntry) : Verdict :=
  if newEntry.cost = infinity then .skip
  else
    match table.checkRoute newEntry.address with
    | none => .add
    | some oldEntry =>
      if newEntry.cost + 1 < oldEntry.cost ∨
          newEntry.cost + 1 > oldEntry.cost ∧ oldEntry.nextHop = nextHop then
        .update oldEntry.updateChan
      else if newEntry.cost + 1 > oldEntry.cost ∧ oldEntry.nextHop ≠ nextHop then .skip
      else .refresh oldEntry.updateChan

/-- The entry is appended to `updatedEntries`. -/
def Verdict.changed : Verdict → Bool
  | .add => true
  | .update _ => true
  | _ => false

/-- The channel the route's timer is refreshed on; own addresses are left out. -/
def Verdict.refreshes (own : List Addr) (address : Addr) : Verdict → Option Chan
  | .update updateChan => if address ∈ own then none else some updateChan
  | .refresh updateChan => if address ∈ own then none else some updateChan
  | _ => none

namespace Router

/-- The table update of a branch. A new route gets a channel and a watcher of its own. -/
def commit (now : ℕ) (nextHop : Addr) (newEntry : RIPEntry) (r : Router) : Verdict → Router
  | .add =>
    { table := r.table.addRoute newEntry.address (newEntry.cost + 1) nextHop r.chans
      watchers := r.watchers ++ [⟨newEntry.address, nextHop, r.chans, now + firstTimeout⟩]
      chans := r.chans + 1 }
  | .update _ =>
    { r with table := r.table.updateRoute newEntry.address (newEntry.cost + 1) nextHop }
  | _ => r

/-- Send on an unbuffered channel: it succeeds when a watcher is there to receive. -/
def refresh (now : ℕ) (r : Router) (updateChan : Chan) : Option Router :=
  if ∃ w ∈ r.watchers, w.updateChan = updateChan then
    some { r with
      watchers := r.watchers.map fun w =>
        if w.updateChan = updateChan then { w with timeout := now + routeTimeout } else w }
  else none

/-- One pass of the loop over the received entries; `false` when it waits on a channel forever. -/
def receiveEntry (own : List Addr) (now : ℕ) (nextHop : Addr) (r : Router) (newEntry : RIPEntry) :
    Router × Bool :=
  let v := verdict r.table nextHop newEntry
  let r := r.commit now nextHop newEntry v
  match v.refreshes own newEntry.address with
  | none => (r, true)
  | some updateChan =>
    match r.refresh now updateChan with
    | some r => (r, true)
    | none => (r, false)

/-- Where the loop of `ReceivePacket` leaves off: the entries that changed the table, and whether
the loop came to its end. -/
structure Receipt where
  router : Router
  updatedEntries : List RIPEntry
  returned : Bool

def receiveEntries (own : List Addr) (now : ℕ) (nextHop : Addr) (r : Router) :
    List RIPEntry → Receipt
  | [] => ⟨r, [], true⟩
  | newEntry :: entries =>
    let updated := if (verdict r.table nextHop newEntry).changed then [newEntry] else []
    match r.receiveEntry own now nextHop newEntry with
    | (r, true) =>
      let rest := receiveEntries own now nextHop r entries
      { rest with updatedEntries := updated ++ rest.updatedEntries }
    | (r, false) => ⟨r, updated, false⟩

/-- The handler's `ReceivePacket`, for a packet from `src`. -/
def receivePacket (own : List Addr) (now : ℕ) (r : Router) (src : Addr) (data : List U8) :
    Receipt :=
  r.receiveEntries own now src (decode data).entries

/-- The timeout of watcher `i` fires: its route is set to infinity and the watcher goes on. -/
def expire (now : ℕ) (r : Router) (i : ℕ) : Option Router :=
  match r.watchers[i]? with
  | none => none
  | some w =>
    if w.timeout ≤ now then
      some { r with
        table := r.table.updateRoute w.newEntryAddress infinity w.nextHop
        watchers := r.watchers.set i { w with timeout := now + routeTimeout } }
    else none

/-- A fresh entry for an own address, as `InitRoutingTable` and `UpInterface` make it. -/
def setOwn (r : Router) (localIFAddr : Addr) : Router :=
  { r with
    table := r.table.insert localIFAddr ⟨localIFAddr, 0, r.chans⟩
    chans := r.chans + 1 }

end Router

def initRoutingTable (localIFs : List Addr) : Router :=
  localIFs.foldl Router.setOwn { table := ∅, watchers := [], chans := 0 }

variable {own : List Addr} {now : ℕ} {nextHop dest a : Addr} {r r' : Router} {newEntry : RIPEntry}
  {ch : Chan} {v : Verdict} {e : RoutingTableEntry}

/-- A watcher runs for this destination and receives on this channel. -/
def Router.Watches (r : Router) (dest : Addr) (ch : Chan) : Prop :=
  ∃ w ∈ r.watchers, w.newEntryAddress = dest ∧ w.updateChan = ch

/-- Every route to another node has a watcher. -/
def Router.Watched (own : List Addr) (r : Router) : Prop :=
  ∀ dest e, r.table.checkRoute dest = some e → dest ∉ own → r.Watches dest e.updateChan

/-- When the handler takes which branch. -/
inductive Decides (table : RoutingTable) (nextHop : Addr) (newEntry : RIPEntry) : Verdict → Prop
  | infinite (h : newEntry.cost = infinity) : Decides table nextHop newEntry .skip
  | unknown (h : newEntry.cost ≠ infinity) (hnone : table.checkRoute newEntry.address = none) :
      Decides table nextHop newEntry .add
  | changes {old : RoutingTableEntry} (h : newEntry.cost ≠ infinity)
      (hold : table.checkRoute newEntry.address = some old)
      (hcost : newEntry.cost + 1 < old.cost ∨
        old.cost < newEntry.cost + 1 ∧ old.nextHop = nextHop) :
      Decides table nextHop newEntry (.update old.updateChan)
  | worse {old : RoutingTableEntry} (h : newEntry.cost ≠ infinity)
      (hold : table.checkRoute newEntry.address = some old)
      (hcost : old.cost < newEntry.cost + 1) (hhop : old.nextHop ≠ nextHop) :
      Decides table nextHop newEntry .skip
  | same {old : RoutingTableEntry} (h : newEntry.cost ≠ infinity)
      (hold : table.checkRoute newEntry.address = some old)
      (hcost : newEntry.cost + 1 = old.cost) :
      Decides table nextHop newEntry (.refresh old.updateChan)

theorem decides_verdict (table : RoutingTable) (nextHop : Addr) (newEntry : RIPEntry) :
    Decides table nextHop newEntry (verdict table nextHop newEntry) := by
  unfold verdict
  split
  · rename_i h
    exact .infinite h
  · rename_i h
    split
    · rename_i hnone
      exact .unknown h hnone
    · rename_i old hold
      split
      · rename_i hcost
        exact .changes h hold hcost
      · rename_i hcost
        push Not at hcost
        split
        · rename_i hworse
          exact .worse h hold hworse.1 hworse.2
        · rename_i hworse
          push Not at hworse
          refine .same h hold (BitVec.le_antisymm ?_ (BitVec.not_lt.mp hcost.1))
          by_contra hgt
          rw [BitVec.not_le] at hgt
          exact hcost.2 hgt (hworse hgt)

/-- A timer is refreshed on the channel of the route's entry, and only for other nodes. -/
theorem checkRoute_of_refreshes
    (h : (verdict r.table nextHop newEntry).refreshes own newEntry.address = some ch) :
    ∃ e, r.table.checkRoute newEntry.address = some e ∧ e.updateChan = ch ∧
      newEntry.address ∉ own := by
  have hv := decides_verdict r.table nextHop newEntry
  generalize verdict r.table nextHop newEntry = v at h hv
  cases hv with
  | infinite => cases h
  | unknown => cases h
  | worse => cases h
  | changes _ hold _ =>
    simp only [Verdict.refreshes, Option.ite_none_left_eq_some, Option.some.injEq] at h
    exact ⟨_, hold, h.2, h.1⟩
  | same _ hold _ =>
    simp only [Verdict.refreshes, Option.ite_none_left_eq_some, Option.some.injEq] at h
    exact ⟨_, hold, h.2, h.1⟩

section Tables

theorem checkRoute_commit_update :
    (r.commit now nextHop newEntry (.update ch)).table.checkRoute a =
      (r.table.checkRoute a).map fun entry =>
        if a = newEntry.address then { entry with cost := newEntry.cost + 1, nextHop := nextHop }
        else entry :=
  RoutingTable.checkRoute_updateRoute

theorem checkRoute_commit_add :
    (r.commit now nextHop newEntry .add).table.checkRoute a =
      if a = newEntry.address then some ⟨nextHop, newEntry.cost + 1, r.chans⟩
      else r.table.checkRoute a :=
  RoutingTable.checkRoute_addRoute

theorem cost_ne_infinity (hc : (verdict r.table nextHop newEntry).changed = true) :
    newEntry.cost ≠ infinity := by
  have hv := decides_verdict r.table nextHop newEntry
  generalize verdict r.table nextHop newEntry = v at hv hc
  cases hv with
  | infinite => cases hc
  | worse => cases hc
  | same => cases hc
  | unknown hne => exact hne
  | changes hne => exact hne

/-- What a changing entry leaves in the table. -/
theorem checkRoute_changed (now : ℕ) (hc : (verdict r.table nextHop newEntry).changed = true) :
    ∃ e, (r.commit now nextHop newEntry (verdict r.table nextHop newEntry)).table.checkRoute
      newEntry.address = some e ∧ e.cost = newEntry.cost + 1 ∧ e.nextHop = nextHop := by
  have hv := decides_verdict r.table nextHop newEntry
  generalize verdict r.table nextHop newEntry = v at hv hc
  cases hv with
  | infinite => cases hc
  | worse => cases hc
  | same => cases hc
  | unknown =>
    rw [checkRoute_commit_add, if_pos rfl]
    exact ⟨_, rfl, rfl, rfl⟩
  | changes _ hold _ =>
    rw [checkRoute_commit_update, hold]
    exact ⟨_, rfl, by simp, by simp⟩

theorem refresh_table (h : r.refresh now ch = some r') : r'.table = r.table := by
  unfold Router.refresh at h
  split at h
  · cases h
    rfl
  · cases h

/-- Refreshing a timer leaves the table as the branch made it. -/
theorem receiveEntry_table :
    (r.receiveEntry own now nextHop newEntry).1.table =
      (r.commit now nextHop newEntry (verdict r.table nextHop newEntry)).table := by
  simp only [Router.receiveEntry]
  split
  · rfl
  · split
    · rename_i r' hr'
      exact refresh_table hr'
    · rfl

/-- What a fired timeout does to the table: it only sets a cost to infinity. -/
theorem expire_table {i : ℕ} (hr : r.expire now i = some r') :
    ∃ w ∈ r.watchers, r'.table = r.table.updateRoute w.newEntryAddress infinity w.nextHop := by
  unfold Router.expire at hr
  split at hr
  · cases hr
  · rename_i w hw
    split at hr
    · cases hr
      exact ⟨w, List.mem_of_getElem? hw, rfl⟩
    · cases hr

theorem checkRoute_setOwn :
    (r.setOwn dest).table.checkRoute a =
      if a = dest then some ⟨dest, 0, r.chans⟩ else r.table.checkRoute a :=
  RoutingTable.checkRoute_insert

/-- At first a table has the node's own addresses, at cost 0 and with themselves as next hop. -/
theorem checkRoute_initRoutingTable
    (h : (initRoutingTable own).table.checkRoute a = some e) :
    a ∈ own ∧ e.nextHop = a ∧ e.cost = 0 := by
  suffices hfold : ∀ (own : List Addr) (r : Router), (∀ a e, r.table.checkRoute a = some e →
      e.nextHop = a ∧ e.cost = 0) → ∀ a e, (own.foldl Router.setOwn r).table.checkRoute a = some e →
      (a ∈ own ∨ r.table.checkRoute a ≠ none) ∧ e.nextHop = a ∧ e.cost = 0 by
    obtain ⟨hmem, hown⟩ := hfold own _ (by simp) a e h
    exact ⟨by simpa using hmem, hown⟩
  intro own
  induction own with
  | nil =>
    intro r hr a e he
    exact ⟨Or.inr (by simp [show r.table.checkRoute a = some e from he]), hr a e he⟩
  | cons b own ih =>
    intro r hr a e he
    have hstep : ∀ a e, (r.setOwn b).table.checkRoute a = some e → e.nextHop = a ∧ e.cost = 0 := by
      intro a e he
      rw [checkRoute_setOwn] at he
      split at he
      · rename_i hab
        cases he
        exact ⟨hab.symm, rfl⟩
      · exact hr a e he
    obtain ⟨hmem, hown⟩ := ih (r.setOwn b) hstep a e he
    refine ⟨?_, hown⟩
    rw [checkRoute_setOwn] at hmem
    by_cases hab : a = b
    · exact Or.inl (by simp [hab])
    · rw [if_neg hab] at hmem
      exact hmem.imp (List.mem_cons_of_mem b) id

theorem checkRoute_initRoutingTable_isSome (h : a ∈ own) :
    ∃ e, (initRoutingTable own).table.checkRoute a = some e := by
  suffices hfold : ∀ (own : List Addr) (r : Router), (a ∈ own ∨ ∃ e, r.table.checkRoute a = some e) →
      ∃ e, (own.foldl Router.setOwn r).table.checkRoute a = some e from hfold own _ (Or.inl h)
  intro own
  induction own with
  | nil =>
    intro r hr
    simpa using hr
  | cons b own ih =>
    intro r hr
    apply ih
    rw [checkRoute_setOwn]
    by_cases hab : a = b
    · exact Or.inr ⟨_, if_pos hab⟩
    · rw [if_neg hab]
      exact hr.imp (fun hmem => (List.mem_cons.mp hmem).resolve_left hab) id

end Tables

section Watchers

theorem Router.Watches.commit (h : r.Watches dest ch) :
    (r.commit now nextHop newEntry v).Watches dest ch := by
  obtain ⟨w, hw, hdest⟩ := h
  cases v with
  | add => exact ⟨w, List.mem_append_left _ hw, hdest⟩
  | skip => exact ⟨w, hw, hdest⟩
  | update _ => exact ⟨w, hw, hdest⟩
  | refresh _ => exact ⟨w, hw, hdest⟩

theorem Router.Watches.refresh {ch' : Chan} (h : r.Watches dest ch)
    (hr : r.refresh now ch' = some r') : r'.Watches dest ch := by
  obtain ⟨w, hw, hdest⟩ := h
  unfold Router.refresh at hr
  split at hr
  · cases hr
    refine ⟨_, List.mem_map_of_mem hw, ?_⟩
    split <;> exact hdest
  · cases hr

theorem Router.Watches.receiveEntry (h : r.Watches dest ch) :
    (r.receiveEntry own now nextHop newEntry).1.Watches dest ch := by
  simp only [Router.receiveEntry]
  split
  · exact h.commit
  · split
    · rename_i hr'
      exact h.commit.refresh hr'
    · exact h.commit

theorem Router.Watches.expire {i : ℕ} (h : r.Watches dest ch) (hr : r.expire now i = some r') :
    r'.Watches dest ch := by
  obtain ⟨w, hw, hdest⟩ := h
  unfold Router.expire at hr
  split at hr
  · cases hr
  · rename_i w' hw'
    split at hr
    · cases hr
      obtain ⟨j, hj, rfl⟩ := List.getElem_of_mem hw
      by_cases hij : i = j
      · -- the watcher that fired is still there, with a later timeout
        subst hij
        have hwj : r.watchers[i] = w' := by
          rw [List.getElem?_eq_getElem hj] at hw'
          exact Option.some.inj hw'
        rw [hwj] at hdest
        exact ⟨{ w' with timeout := now + routeTimeout },
          List.mem_iff_getElem.mpr ⟨i, by simpa using hj, by simp⟩, hdest⟩
      · exact ⟨r.watchers[j], List.mem_iff_getElem.mpr ⟨j, by simpa using hj, by simp [hij]⟩, hdest⟩
    · cases hr

theorem watcher_of_refresh {w : Watcher} (hr : r.refresh now ch = some r') (hw : w ∈ r'.watchers) :
    ∃ w₀ ∈ r.watchers, w₀.newEntryAddress = w.newEntryAddress := by
  unfold Router.refresh at hr
  split at hr
  · cases hr
    obtain ⟨w₀, hw₀, rfl⟩ := List.mem_map.mp hw
    refine ⟨w₀, hw₀, ?_⟩
    split <;> rfl
  · cases hr

/-- A new watcher is there for a route that was not in the table. -/
theorem watcher_of_receiveEntry {w : Watcher}
    (hw : w ∈ (r.receiveEntry own now nextHop newEntry).1.watchers) :
    (∃ w₀ ∈ r.watchers, w₀.newEntryAddress = w.newEntryAddress) ∨
      w.newEntryAddress = newEntry.address ∧ r.table.checkRoute newEntry.address = none := by
  have hcommit : ∀ w ∈ (r.commit now nextHop newEntry (verdict r.table nextHop newEntry)).watchers,
      w ∈ r.watchers ∨
        w.newEntryAddress = newEntry.address ∧ r.table.checkRoute newEntry.address = none := by
    intro w hw
    have hv := decides_verdict r.table nextHop newEntry
    generalize verdict r.table nextHop newEntry = v at hw hv
    cases hv with
    | unknown _ hnone =>
      rcases List.mem_append.mp hw with hw | hw
      · exact Or.inl hw
      · rw [List.mem_singleton.mp hw]
        exact Or.inr ⟨rfl, hnone⟩
    | infinite => exact Or.inl hw
    | changes => exact Or.inl hw
    | worse => exact Or.inl hw
    | same => exact Or.inl hw
  simp only [Router.receiveEntry] at hw
  split at hw
  · exact (hcommit w hw).imp_left fun hw => ⟨w, hw, rfl⟩
  · split at hw
    · rename_i r' hr'
      obtain ⟨w₀, hw₀, haddr⟩ := watcher_of_refresh hr' hw
      rw [← haddr]
      exact (hcommit w₀ hw₀).imp_left fun hw => ⟨w₀, hw, rfl⟩
    · exact (hcommit w hw).imp_left fun hw => ⟨w, hw, rfl⟩

theorem watcher_of_expire {i : ℕ} {w : Watcher} (hr : r.expire now i = some r')
    (hw : w ∈ r'.watchers) : ∃ w₀ ∈ r.watchers, w₀.newEntryAddress = w.newEntryAddress := by
  unfold Router.expire at hr
  split at hr
  · cases hr
  · rename_i w' hw'
    split at hr
    · cases hr
      rcases List.mem_or_eq_of_mem_set hw with hw | rfl
      · exact ⟨w, hw, rfl⟩
      · exact ⟨w', List.mem_of_getElem? hw', rfl⟩
    · cases hr

/-- Routes that keep their channels keep their watchers. -/
theorem Router.Watched.of_chans (h : r.Watched own)
    (htable : ∀ dest e', r'.table.checkRoute dest = some e' → dest ∉ own →
      ∃ e, r.table.checkRoute dest = some e ∧ e.updateChan = e'.updateChan)
    (hwatch : ∀ dest ch, r.Watches dest ch → r'.Watches dest ch) : r'.Watched own := by
  intro dest e' he' hown
  obtain ⟨e, he, hch⟩ := htable dest e' he' hown
  rw [← hch]
  exact hwatch dest e.updateChan (h dest e he hown)

theorem updateChan_updateRoute {rt : RoutingTable} {newCost : U32}
    (h : (rt.updateRoute dest newCost nextHop).checkRoute a = some e) :
    ∃ old, rt.checkRoute a = some old ∧ old.updateChan = e.updateChan := by
  rw [RoutingTable.checkRoute_updateRoute] at h
  obtain ⟨old, hold, rfl⟩ := Option.map_eq_some_iff.mp h
  refine ⟨old, hold, ?_⟩
  split <;> rfl

theorem Router.Watched.commit (h : r.Watched own) : (r.commit now nextHop newEntry v).Watched own := by
  cases v with
  | add =>
    intro dest e he hown
    rw [checkRoute_commit_add] at he
    split at he
    · rename_i hdest
      cases he
      exact ⟨_, List.mem_append_right _ (List.mem_singleton_self _), hdest.symm, rfl⟩
    · exact (h dest e he hown).commit
  | update _ =>
    apply h.of_chans
    · intro dest e he _
      exact updateChan_updateRoute he
    · intro dest ch hw
      exact hw.commit
  | skip => exact h
  | refresh _ => exact h

theorem Router.Watched.receiveEntry (h : r.Watched own) :
    (r.receiveEntry own now nextHop newEntry).1.Watched own := by
  have hc : (r.commit now nextHop newEntry (verdict r.table nextHop newEntry)).Watched own :=
    h.commit
  simp only [Router.receiveEntry]
  split
  · exact hc
  · split
    · rename_i r' hr'
      refine hc.of_chans ?_ fun dest ch hw => hw.refresh hr'
      intro dest e he _
      rw [refresh_table hr'] at he
      exact ⟨e, he, rfl⟩
    · exact hc

theorem Router.Watched.expire {i : ℕ} (h : r.Watched own) (hr : r.expire now i = some r') :
    r'.Watched own := by
  refine h.of_chans ?_ fun dest ch hw => hw.expire hr
  intro dest e he _
  unfold Router.expire at hr
  split at hr
  · cases hr
  · split at hr
    · cases hr
      exact updateChan_updateRoute he
    · cases hr

theorem watched_initRoutingTable : (initRoutingTable own).Watched own := by
  intro dest e he hown
  exact absurd (checkRoute_initRoutingTable he).1 hown

/-- With a watcher for every route to another node, no refresh waits forever. -/
theorem Router.Watched.receiveEntry_returns (h : r.Watched own) :
    (r.receiveEntry own now nextHop newEntry).2 = true := by
  simp only [Router.receiveEntry]
  split
  · rfl
  · rename_i ch hch
    obtain ⟨e, he, rfl, hown⟩ := checkRoute_of_refreshes hch
    have hwatch : (r.commit now nextHop newEntry (verdict r.table nextHop newEntry)).Watches
        newEntry.address e.updateChan := (h _ e he hown).commit
    obtain ⟨w, hw, -, hwch⟩ := hwatch
    simp only [Router.refresh, if_pos (⟨w, hw, hwch⟩ : ∃ w ∈ _, w.updateChan = e.updateChan)]

end Watchers

/-- An entry that is not waited on is followed by the rest of the message. -/
theorem receiveEntries_cons (entries : List RIPEntry)
    (h : (r.receiveEntry own now nextHop newEntry).2 = true) :
    (r.receiveEntries own now nextHop (newEntry :: entries)).router =
        ((r.receiveEntry own now nextHop newEntry).1.receiveEntries own now nextHop entries).router ∧
      (r.receiveEntries own now nextHop (newEntry :: entries)).returned =
        ((r.receiveEntry own now nextHop newEntry).1.receiveEntries own now nextHop
          entries).returned := by
  simp only [Router.receiveEntries]
  generalize r.receiveEntry own now nextHop newEntry = out at h
  obtain ⟨r', returned⟩ := out
  cases h
  exact ⟨rfl, rfl⟩

end TcpIp.Ip
