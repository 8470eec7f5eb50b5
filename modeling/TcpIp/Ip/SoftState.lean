import TcpIp.Ip.Host

/-! When every learned route has a watcher that lets it expire. -/
namespace TcpIp.Ip

open Runs

variable {h h' : Host} {ev : HostEvent} {own : List Addr} {now : ℕ} {r r' : Router} {a : Addr}
  {tr : List (Move Host HostEvent)} {localIFs : List LinkInterface} {e : RoutingTableEntry}

/-- Every usable route through another node has a watcher for its destination and channel. -/
def SoftState (h : Host) : Prop :=
  ∀ dest e, h.router.table.checkRoute dest = some e → e.cost < infinity → e.nextHop ∉ h.own →
    h.router.Watches dest e.updateChan

/-- A neighbour's entry for one of the node's own addresses beats the one in the table: the address
went down, or its cost was raised in the node's own name. -/
def Relearns (h : Host) : HostEvent → Prop
  | .rip src newEntry =>
    src ∉ h.own ∧ newEntry.address ∈ h.own ∧ newEntry.cost + 1 < infinity ∧
      ∃ old, h.router.table.checkRoute newEntry.address = some old ∧ newEntry.cost + 1 < old.cost
  | _ => False

/-- Unless its watcher hears of it before its timeout, a learned route is set to infinity. -/
theorem SoftState.expires {dest : Addr} (hsoft : SoftState h)
    (he : h.router.table.checkRoute dest = some e) (hcost : e.cost < infinity)
    (hhop : e.nextHop ∉ h.own) :
    ∃ w ∈ h.router.watchers, w.updateChan = e.updateChan ∧ ∀ now, w.timeout ≤ now →
      ∃ i h' e', h.step now (.timeout i) = some h' ∧
        h'.router.table.checkRoute dest = some e' ∧ e'.cost = infinity := by
  obtain ⟨w, hw, rfl, hch⟩ := hsoft dest e he hcost hhop
  refine ⟨w, hw, hch, ?_⟩
  intro now hnow
  obtain ⟨i, hi⟩ := List.getElem?_of_mem hw
  have hexpire : h.router.expire now i = some
      { h.router with
        table := h.router.table.updateRoute w.newEntryAddress infinity w.nextHop
        watchers := h.router.watchers.set i { w with timeout := now + routeTimeout } } := by
    simp only [Router.expire, hi, if_pos hnow]
  refine ⟨i, _, { e with cost := infinity, nextHop := w.nextHop }, congrArg (Option.map _) hexpire,
    ?_, rfl⟩
  rw [RoutingTable.checkRoute_updateRoute, he]
  simp

/-- Own addresses stay in the table without a watcher; all others have one. -/
structure Tended (own : List Addr) (r : Router) : Prop where
  present : ∀ a ∈ own, ∃ e, r.table.checkRoute a = some e
  watched : r.Watched own
  foreign : ∀ w ∈ r.watchers, w.newEntryAddress ∉ own

theorem Tended.not_watches (ht : Tended own r) (ha : a ∈ own) {ch : Chan} : ¬ r.Watches a ch := by
  rintro ⟨w, hw, rfl, -⟩
  exact ht.foreign w hw ha

/-- Commits never take an address out of the table. -/
theorem checkRoute_commit_isSome {nextHop : Addr} {newEntry : RIPEntry} {v : Verdict}
    (he : ∃ e, r.table.checkRoute a = some e) :
    ∃ e, (r.commit now nextHop newEntry v).table.checkRoute a = some e := by
  obtain ⟨e, he⟩ := he
  cases v with
  | add =>
    rw [checkRoute_commit_add]
    split
    · exact ⟨_, rfl⟩
    · exact ⟨e, he⟩
  | update _ =>
    rw [checkRoute_commit_update, he]
    exact ⟨_, rfl⟩
  | skip => exact ⟨e, he⟩
  | refresh _ => exact ⟨e, he⟩

theorem Tended.move (ht : Tended h.own h.router) (hm : HostMove h ev r) : Tended h.own r := by
  cases hm with
  | rip now src newEntry =>
    refine ⟨?_, ht.watched.receiveEntry, ?_⟩
    · intro a ha
      rw [receiveEntry_table]
      exact checkRoute_commit_isSome (ht.present a ha)
    · intro w hw hown
      obtain ⟨w₀, hw₀, haddr⟩ | ⟨haddr, hnone⟩ := watcher_of_receiveEntry hw
      · exact ht.foreign w₀ hw₀ (haddr ▸ hown)
      · obtain ⟨e, he⟩ := ht.present _ hown
        rw [haddr, hnone] at he
        cases he
  | timeout hr =>
    refine ⟨?_, ht.watched.expire hr, ?_⟩
    · intro a ha
      obtain ⟨e, he⟩ := ht.present a ha
      obtain ⟨w, -, htable⟩ := expire_table hr
      rw [htable, RoutingTable.checkRoute_updateRoute, he]
      exact ⟨_, rfl⟩
    · intro w hw hown
      obtain ⟨w₀, hw₀, haddr⟩ := watcher_of_expire hr hw
      exact ht.foreign w₀ hw₀ (haddr ▸ hown)
  | down n _ =>
    refine ⟨?_, ?_, ht.foreign⟩
    · intro a ha
      obtain ⟨e, he⟩ := ht.present a ha
      rw [RoutingTable.checkRoute_removeNextHops, he]
      exact ⟨_, rfl⟩
    · refine ht.watched.of_chans ?_ fun _ _ hw => hw
      intro dest e he _
      rw [RoutingTable.checkRoute_removeNextHops] at he
      obtain ⟨old, hold, rfl⟩ := Option.map_eq_some_iff.mp he
      refine ⟨old, hold, ?_⟩
      split <;> rfl
  | @up b n hb =>
    refine ⟨?_, ?_, ht.foreign⟩
    · intro a ha
      rw [checkRoute_setOwn]
      split
      · exact ⟨_, rfl⟩
      · exact ht.present a ha
    · refine ht.watched.of_chans ?_ fun _ _ hw => hw
      intro dest e he hdest
      have hne : dest ≠ b := fun hab => hdest (hab.symm ▸ hb)
      rw [checkRoute_setOwn, if_neg hne] at he
      exact ⟨e, he, rfl⟩

theorem tended_start : Tended (Host.start localIFs).own (Host.start localIFs).router := by
  refine ⟨fun a ha => checkRoute_initRoutingTable_isSome ha, watched_initRoutingTable, ?_⟩
  suffices hfold : ∀ (own : List Addr) (r : Router), r.watchers = [] →
      (own.foldl Router.setOwn r).watchers = [] by
    intro w hw
    rw [show (Host.start localIFs).router.watchers = [] from hfold _ _ rfl] at hw
    cases hw
  intro own
  induction own with
  | nil =>
    intro r hr
    exact hr
  | cons b own ih =>
    intro r hr
    exact ih (r.setOwn b) hr

/-- A whole message is handled entry by entry, and its handler returns. -/
theorem receiveEntries_run {src : Addr} {entries : List RIPEntry} (ht : Tended h.own h.router) :
    (h.router.receiveEntries h.own now src entries).returned = true ∧
      ∃ tr, Run HostStep h tr
          { h with router := (h.router.receiveEntries h.own now src entries).router } ∧
        tr.map Move.ev = entries.map (HostEvent.rip src) := by
  induction entries generalizing h with
  | nil => exact ⟨rfl, [], .nil, rfl⟩
  | cons newEntry entries ih =>
    have hmove : HostMove h (.rip src newEntry) (h.router.receiveEntry h.own now src newEntry).1 :=
      .rip now src newEntry
    obtain ⟨hret, tr, hrun, hevs⟩ :=
      ih (h := { h with router := (h.router.receiveEntry h.own now src newEntry).1 })
        (ht.move hmove)
    have hstep : HostStep h (.rip src newEntry)
        { h with router := (h.router.receiveEntry h.own now src newEntry).1 } := ⟨now, rfl⟩
    have hgoes : (h.router.receiveEntry h.own now src newEntry).2 = true :=
      ht.watched.receiveEntry_returns
    obtain ⟨hrouter, hreturned⟩ := receiveEntries_cons entries hgoes
    rw [hrouter, hreturned]
    exact ⟨hret, _, hrun.cons hstep, by simp [hevs]⟩

/-- Usable own addresses are reached through own addresses. -/
def OwnLocal (own : List Addr) (table : RoutingTable) : Prop :=
  ∀ a ∈ own, ∀ e, table.checkRoute a = some e → e.cost < infinity → e.nextHop ∈ own

theorem softState_iff (ht : Tended h.own h.router) :
    SoftState h ↔ OwnLocal h.own h.router.table := by
  constructor
  · intro hsoft a ha e he hcost
    by_contra hhop
    exact ht.not_watches ha (hsoft a e he hcost hhop)
  · intro hlocal dest e he hcost hhop
    apply ht.watched dest e he
    intro hown
    exact hhop (hlocal dest hown e he hcost)

/-- Where an entry is overwritten, the sender becomes its next hop. -/
theorem ownLocal_update {src : Addr} {newEntry : RIPEntry} {old : RoutingTableEntry}
    (hlocal : OwnLocal h.own h.router.table)
    (hold : h.router.table.checkRoute newEntry.address = some old)
    (hcost : newEntry.cost + 1 < old.cost ∨ old.cost < newEntry.cost + 1 ∧ old.nextHop = src) :
    OwnLocal h.own (h.router.commit now src newEntry (.update old.updateChan)).table ↔
      ¬ Relearns h (.rip src newEntry) := by
  constructor
  · rintro hlocal' ⟨hsrc, hown, hlt, -⟩
    have hnew : (h.router.commit now src newEntry (.update old.updateChan)).table.checkRoute
        newEntry.address = some { old with cost := newEntry.cost + 1, nextHop := src } := by
      rw [checkRoute_commit_update, hold]
      simp
    exact hsrc (hlocal' newEntry.address hown _ hnew hlt)
  · intro hnot a ha e he hlt
    rw [checkRoute_commit_update] at he
    obtain ⟨old', hold', rfl⟩ := Option.map_eq_some_iff.mp he
    by_cases haddr : a = newEntry.address
    · subst haddr
      rw [hold] at hold'
      cases hold'
      rw [if_pos rfl] at hlt ⊢
      by_contra hsrc
      rcases hcost with hbetter | ⟨hworse, hhop⟩
      · exact hnot ⟨hsrc, ha, hlt, old, hold, hbetter⟩
      · exact hsrc (hhop ▸ hlocal _ ha old hold (BitVec.lt_trans hworse hlt))
    · rw [if_neg haddr] at hlt ⊢
      exact hlocal a ha old' hold' hlt

theorem ownLocal_commit {src : Addr} {newEntry : RIPEntry} (ht : Tended h.own h.router)
    (hlocal : OwnLocal h.own h.router.table) :
    OwnLocal h.own (h.router.commit now src newEntry
      (verdict h.router.table src newEntry)).table ↔ ¬ Relearns h (.rip src newEntry) := by
  have hv := decides_verdict h.router.table src newEntry
  generalize verdict h.router.table src newEntry = v at hv
  cases hv with
  | infinite hinf =>
    refine iff_of_true hlocal ?_
    rintro ⟨-, -, hcost, -⟩
    rw [hinf] at hcost
    exact absurd hcost (by decide)
  | worse _ hold hgt _ =>
    refine iff_of_true hlocal ?_
    rintro ⟨-, -, -, old, hold', hlt⟩
    rw [hold] at hold'
    cases hold'
    exact BitVec.lt_asymm hgt hlt
  | same _ hold heq =>
    refine iff_of_true hlocal ?_
    rintro ⟨-, -, -, old, hold', hlt⟩
    rw [hold] at hold'
    cases hold'
    exact BitVec.lt_irrefl _ (heq ▸ hlt)
  | unknown _ hnone =>
    refine iff_of_true ?_ ?_
    · intro a ha e he
      rw [checkRoute_commit_add] at he
      split at he
      · rename_i haddr
        obtain ⟨old, hold⟩ := ht.present a ha
        rw [haddr, hnone] at hold
        cases hold
      · exact hlocal a ha e he
    · rintro ⟨-, -, -, old, hold, -⟩
      rw [hnone] at hold
      cases hold
  | changes _ hold hcost => exact ownLocal_update hlocal hold hcost

theorem ownLocal_move (ht : Tended h.own h.router) (hlocal : OwnLocal h.own h.router.table)
    (hm : HostMove h ev r) : OwnLocal h.own r.table ↔ ¬ Relearns h ev := by
  cases hm with
  | rip now src newEntry =>
    rw [receiveEntry_table]
    exact ownLocal_commit ht hlocal
  | timeout hr =>
    refine iff_of_true ?_ id
    intro a ha e he hlt
    obtain ⟨w, hw, htable⟩ := expire_table hr
    rw [htable, RoutingTable.checkRoute_updateRoute] at he
    obtain ⟨old, hold, rfl⟩ := Option.map_eq_some_iff.mp he
    have haddr : a ≠ w.newEntryAddress := fun haddr => ht.foreign w hw (haddr ▸ ha)
    rw [if_neg haddr] at hlt ⊢
    exact hlocal a ha old hold hlt
  | down n _ =>
    refine iff_of_true ?_ id
    intro a ha e he hlt
    rw [RoutingTable.checkRoute_removeNextHops] at he
    obtain ⟨old, hold, rfl⟩ := Option.map_eq_some_iff.mp he
    split at hlt
    · exact absurd hlt (BitVec.lt_irrefl infinity)
    · rename_i hhop
      rw [if_neg hhop]
      exact hlocal a ha old hold hlt
  | @up b n hb =>
    refine iff_of_true ?_ id
    intro a ha e he hlt
    rw [checkRoute_setOwn] at he
    split at he
    · cases he
      exact hb
    · exact hlocal a ha e he hlt

/-- One step keeps every learned route watched exactly when it does not teach the node one of its
own addresses. -/
theorem softState_step (ht : Tended h.own h.router) (hsoft : SoftState h)
    (hs : HostStep h ev h') : SoftState h' ↔ ¬ Relearns h ev := by
  obtain ⟨hown, hm⟩ := hs.move
  have ht' : Tended h'.own h'.router := hown ▸ ht.move hm
  rw [softState_iff ht', hown]
  exact ownLocal_move ht ((softState_iff ht).mp hsoft) hm

theorem softState_start : SoftState (Host.start localIFs) := by
  rw [softState_iff tended_start]
  intro a ha e he _
  rw [(checkRoute_initRoutingTable he).2.1]
  exact ha

/-- In a run from a fresh host every learned route has its watcher in every state, exactly when no
neighbour ever teaches the host one of its own addresses. -/
theorem softState_run_iff (hr : Run HostStep (Host.start localIFs) tr h) :
    SoftState (Host.start localIFs) ∧
      ((∀ x ∈ tr, SoftState x.dst) ↔ ∀ x ∈ tr, ¬ Relearns x.src x.ev) := by
  refine ⟨softState_start, ?_⟩
  apply hr.forall_iff (I := fun h => Tended h.own h.router ∧ SoftState h) (H := fun _ => True)
  · exact ⟨tended_start, softState_start⟩
  · exact fun _ _ => trivial
  · rintro h ev h' ⟨ht, hsoft⟩ hs - hnot
    obtain ⟨hown, hm⟩ := hs.move
    exact ⟨hown ▸ ht.move hm, (softState_step ht hsoft hs).mpr hnot⟩
  · rintro h ev h' ⟨ht, hsoft⟩ hs -
    exact softState_step ht hsoft hs

/-- Two interfaces, 1 to neighbour 2 and 3 to neighbour 4. -/
def twoLinks : List LinkInterface := [⟨0, 1, 2, 5000, false⟩, ⟨1, 3, 4, 5001, false⟩]

/-- A schedule of timed changes, from a fresh host with two interfaces. -/
def twoLinksPlay (events : List (ℕ × HostEvent)) : List (Move Host HostEvent) × Host :=
  play (fun h ev => (h.step ev.1 ev.2).map fun h' => (ev.2, h')) (Host.start twoLinks) events

theorem twoLinksPlay_run (events : List (ℕ × HostEvent)) :
    Run HostStep (Host.start twoLinks) (twoLinksPlay events).1 (twoLinksPlay events).2 := by
  apply play_run
  intro h ev ev' h' hstep
  obtain ⟨h₀, hh, heq⟩ := Option.map_eq_some_iff.mp hstep
  cases heq
  exact ⟨ev.1, hh⟩

/-- Address 9 is learned from neighbour 2, times out, and is learned from neighbour 4. -/
def relearnNine : List (ℕ × HostEvent) :=
  [(0, .rip 2 ⟨1, 9, fullMask⟩), (20, .timeout 0), (21, .rip 4 ⟨1, 9, fullMask⟩)]

theorem softState_run_iff_relearnNine :
    (twoLinksPlay relearnNine).1.length = 3 ∧
      ((∀ x ∈ (twoLinksPlay relearnNine).1, SoftState x.dst) ↔
        ∀ x ∈ (twoLinksPlay relearnNine).1, ¬ Relearns x.src x.ev) :=
  ⟨by decide, (softState_run_iff (twoLinksPlay_run _)).2⟩

/-- Interface 0 goes down and neighbour 4 then advertises its address at cost 1: the host routes to
its own address 1 through 4 at cost 2, with no watcher. -/
theorem own_address_relearned_unwatched :
    ¬ ∀ (localIFs : List LinkInterface) (tr : List (Move Host HostEvent)) (h : Host),
      Run HostStep (Host.start localIFs) tr h → SoftState h := by
  intro hall
  have hsoft := hall twoLinks _ _
    (twoLinksPlay_run [(0, .down 0), (1, .rip 4 ⟨1, 1, fullMask⟩)])
  obtain ⟨w, hw, -⟩ := hsoft 1 ⟨4, 2, 0⟩ (by decide) (by decide) (by decide)
  have hnone : (twoLinksPlay
      [(0, .down 0), (1, .rip 4 ⟨1, 1, fullMask⟩)]).2.router.watchers = [] := by decide
  rw [hnone] at hw
  cases hw

end TcpIp.Ip
