import TcpIp.Ip.Relaxation
import TcpIp.Ip.SoftState

/-! Who refreshes the timer of a route. -/
namespace TcpIp.Ip

open Runs

variable {own : List Addr} {h h' : Host} {ev : HostEvent} {now i : ℕ} {r r' : Router}
  {src dest hop : Addr}
  {newEntry : RIPEntry} {w : Watcher} {ch : Chan} {tr : List (Move Host HostEvent)}

/-- The channel on which the handler sends `true` for an entry. -/
def Host.updates (h : Host) (src : Addr) (newEntry : RIPEntry) : Option Chan :=
  (verdict h.router.table src newEntry).refreshes h.own newEntry.address

/-- An entry that does not leave its sender as the next hop has not refreshed the route's timer. -/
def RefreshedByNextHop (x : Move Host HostEvent) : Prop :=
  match x.ev with
  | .rip src newEntry =>
    ∀ e, x.dst.router.table.checkRoute newEntry.address = some e → e.nextHop ≠ src →
      x.src.updates src newEntry = none
  | _ => True

/-- A path as long as the one in the table, offered by another neighbour than its next hop. -/
def OffersEqual (h : Host) : HostEvent → Prop
  | .rip src newEntry =>
    newEntry.cost ≠ infinity ∧ newEntry.address ∉ h.own ∧
      ∃ old, h.router.table.checkRoute newEntry.address = some old ∧
        newEntry.cost + 1 = old.cost ∧ old.nextHop ≠ src
  | _ => False

/-- Where the sender does not become the next hop, the branch was one that leaves the table. -/
theorem refreshedByNextHop_rip :
    RefreshedByNextHop ⟨h, .rip src newEntry,
      { h with router := (h.router.receiveEntry h.own now src newEntry).1 }⟩ ↔
        ¬ OffersEqual h (.rip src newEntry) := by
  simp only [RefreshedByNextHop, OffersEqual, Host.updates]
  rw [receiveEntry_table]
  have hv := decides_verdict h.router.table src newEntry
  generalize verdict h.router.table src newEntry = v at hv
  cases hv with
  | infinite hinf =>
    refine iff_of_true (fun _ _ _ => rfl) ?_
    rintro ⟨hne, -⟩
    exact hne hinf
  | unknown _ hnone =>
    refine iff_of_true (fun _ _ _ => rfl) ?_
    rintro ⟨-, -, old, hold, -⟩
    rw [hnone] at hold
    cases hold
  | worse _ hold hcost _ =>
    refine iff_of_true (fun _ _ _ => rfl) ?_
    rintro ⟨-, -, old, hold', heq, -⟩
    rw [hold] at hold'
    cases hold'
    exact BitVec.lt_irrefl _ (heq ▸ hcost)
  | changes _ hold hcost =>
    refine iff_of_true ?_ ?_
    · intro e he hhop
      rw [checkRoute_commit_update, hold] at he
      simp only [Option.map_some, if_true, Option.some.injEq] at he
      exact absurd (by rw [← he]) hhop
    · rintro ⟨-, -, old, hold', heq, hhop⟩
      rw [hold] at hold'
      cases hold'
      rcases hcost with hless | ⟨-, hsame⟩
      · exact BitVec.lt_irrefl _ (heq ▸ hless)
      · exact hhop hsame
  | @same old hne hold hcost =>
    constructor
    · rintro hright ⟨-, hown, old', hold', -, hhop⟩
      have hnone := hright old' hold' hhop
      simp only [Verdict.refreshes, if_neg hown] at hnone
      cases hnone
    · intro hnot e he hhop
      have heq : e = old := Option.some.inj (he.symm.trans hold)
      by_contra hsent
      refine hnot ⟨hne, ?_, old, hold, hcost, heq ▸ hhop⟩
      intro hown
      exact hsent (if_pos hown)

/-- One step refreshes no timer in another neighbour's name exactly when it offers no equal path. -/
theorem refreshedByNextHop_step (hs : HostStep h ev h') :
    RefreshedByNextHop ⟨h, ev, h'⟩ ↔ ¬ OffersEqual h ev := by
  cases ev with
  | rip src newEntry =>
    obtain ⟨now, hs⟩ := hs
    cases hs
    exact refreshedByNextHop_rip
  | timeout i => exact iff_of_true trivial id
  | down n => exact iff_of_true trivial id
  | up n => exact iff_of_true trivial id

section Channels

/-- Different destinations have different channels, all of them made before. -/
structure Router.Wired (r : Router) : Prop where
  made : ∀ dest e, r.table.checkRoute dest = some e → e.updateChan < r.chans
  distinct : ∀ dest dest' e e', r.table.checkRoute dest = some e →
    r.table.checkRoute dest' = some e' → e.updateChan = e'.updateChan → dest = dest'

theorem Router.Wired.of_chans (hw : r.Wired) (hchans : r'.chans = r.chans)
    (htable : ∀ dest e', r'.table.checkRoute dest = some e' →
      ∃ e, r.table.checkRoute dest = some e ∧ e.updateChan = e'.updateChan) : r'.Wired := by
  constructor
  · intro dest e' he'
    obtain ⟨e, he, hch⟩ := htable dest e' he'
    rw [← hch, hchans]
    exact hw.made dest e he
  · intro dest dest' e' f' he' hf' heq
    obtain ⟨e, he, hch⟩ := htable dest e' he'
    obtain ⟨f, hf, hch'⟩ := htable dest' f' hf'
    exact hw.distinct dest dest' e f he hf (by rw [hch, heq, hch'])

/-- A new entry comes with a new channel. -/
theorem Router.Wired.insert (hw : r.Wired) {e₀ : RoutingTableEntry} (hch : e₀.updateChan = r.chans)
    (hchans : r'.chans = r.chans + 1)
    (htable : ∀ a, r'.table.checkRoute a = if a = dest then some e₀ else r.table.checkRoute a) :
    r'.Wired := by
  have hnew : ∀ a e, r.table.checkRoute a = some e → e.updateChan ≠ r.chans :=
    fun a e he => Nat.ne_of_lt (hw.made a e he)
  constructor
  · intro a e he
    rw [htable] at he
    rw [hchans]
    split at he
    · cases he
      rw [hch]
      exact Nat.lt_succ_self _
    · exact Nat.lt_succ_of_lt (hw.made a e he)
  · intro a b e f he hf heq
    rw [htable] at he hf
    split at he <;> split at hf
    · rename_i ha hb
      rw [ha, hb]
    · cases he
      exact absurd (heq.symm.trans hch) (hnew b f hf)
    · cases hf
      exact absurd (heq.trans hch) (hnew a e he)
    · exact hw.distinct a b e f he hf heq

theorem chans_refresh (hr : r.refresh now ch = some r') : r'.chans = r.chans := by
  unfold Router.refresh at hr
  split at hr
  · cases hr
    rfl
  · cases hr

theorem Router.Wired.commit (hw : r.Wired) {v : Verdict} : (r.commit now src newEntry v).Wired := by
  cases v with
  | add => exact hw.insert rfl rfl fun a => checkRoute_commit_add
  | update _ => exact hw.of_chans rfl fun dest e he => updateChan_updateRoute he
  | skip => exact hw
  | refresh _ => exact hw

theorem Router.Wired.move (hw : h.router.Wired) (hm : HostMove h ev r) : r.Wired := by
  cases hm with
  | rip now src newEntry =>
    simp only [Router.receiveEntry]
    split
    · exact hw.commit
    · split
      · rename_i hr'
        refine hw.commit.of_chans (chans_refresh hr') fun dest e he => ?_
        rw [refresh_table hr'] at he
        exact ⟨e, he, rfl⟩
      · exact hw.commit
  | timeout hr =>
    unfold Router.expire at hr
    split at hr
    · cases hr
    · split at hr
      · cases hr
        exact hw.of_chans rfl fun dest e he => updateChan_updateRoute he
      · cases hr
  | down n _ =>
    refine hw.of_chans rfl fun dest e he => ?_
    rw [RoutingTable.checkRoute_removeNextHops] at he
    obtain ⟨old, hold, rfl⟩ := Option.map_eq_some_iff.mp he
    refine ⟨old, hold, ?_⟩
    split <;> rfl
  | up n _ => exact hw.insert rfl rfl fun a => checkRoute_setOwn

theorem wired_initRoutingTable (own : List Addr) : (initRoutingTable own).Wired := by
  suffices hfold : ∀ (own : List Addr) (r : Router), r.Wired →
      (own.foldl Router.setOwn r).Wired from
    hfold own _ ⟨by simp, by simp⟩
  intro own
  induction own with
  | nil =>
    intro r hr
    exact hr
  | cons b own ih =>
    intro r hr
    exact ih (r.setOwn b) (hr.insert rfl rfl fun a => checkRoute_setOwn)

end Channels

section Expiry

/-- A watcher keeps its place and its timeout while nothing is sent on its channel. -/
theorem watcher_receiveEntry (hi : r.watchers[i]? = some w)
    (hch : (verdict r.table src newEntry).refreshes own newEntry.address ≠ some w.updateChan) :
    (r.receiveEntry own now src newEntry).1.watchers[i]? = some w := by
  have hcommit : ∀ v, (r.commit now src newEntry v).watchers[i]? = some w := by
    intro v
    cases v with
    | add =>
      have hlt : i < r.watchers.length := (List.getElem?_eq_some_iff.mp hi).1
      simp only [Router.commit]
      rw [List.getElem?_append_left hlt, hi]
    | update _ => exact hi
    | skip => exact hi
    | refresh _ => exact hi
  simp only [Router.receiveEntry]
  split
  · exact hcommit _
  · rename_i ch' hch'
    split
    · rename_i r' hr'
      have hne : w.updateChan ≠ ch' := fun heq => hch (heq ▸ hch')
      unfold Router.refresh at hr'
      split at hr'
      · cases hr'
        simp only [List.getElem?_map, hcommit, Option.map_some, if_neg hne]
      · cases hr'
    · exact hcommit _

theorem watcher_expire {j : ℕ} (hi : r.watchers[i]? = some w) (hij : j ≠ i)
    (hr : r.expire now j = some r') : r'.watchers[i]? = some w := by
  unfold Router.expire at hr
  split at hr
  · cases hr
  · split at hr
    · cases hr
      rw [List.getElem?_set_ne hij, hi]
    · cases hr

/-- While the neighbour `hop` is silent about a destination, nobody offers it a shorter path and
its timer does not fire. -/
def Unheard (dest hop : Addr) (x : Move Host HostEvent) : Prop :=
  match x.ev with
  | .rip src newEntry =>
    newEntry.address = dest →
      src ≠ hop ∧ (verdict x.src.router.table src newEntry).changed = false
  | .timeout i => ∀ w, x.src.router.watchers[i]? = some w → w.newEntryAddress ≠ dest
  | _ => True

/-- The route goes through `hop` and watcher `i` waits for news of it. -/
structure Awaits (dest hop : Addr) (i : ℕ) (w : Watcher) (h : Host) : Prop where
  foreign : dest ∉ h.own
  wired : h.router.Wired
  watcher : h.router.watchers[i]? = some w
  address : w.newEntryAddress = dest
  route : ∃ e, h.router.table.checkRoute dest = some e ∧ e.nextHop = hop ∧
    e.updateChan = w.updateChan

theorem Awaits.of_route (ha : Awaits dest hop i w h) (hown : h'.own = h.own)
    (hwired : h'.router.Wired) (hwatcher : h'.router.watchers[i]? = some w)
    (htable : h'.router.table.checkRoute dest = h.router.table.checkRoute dest) :
    Awaits dest hop i w h' :=
  ⟨hown ▸ ha.foreign, hwired, hwatcher, ha.address, htable ▸ ha.route⟩

/-- An entry that changes nothing and offers no equal path sends on no channel of the route. -/
theorem Awaits.updates_ne (ha : Awaits dest hop i w h)
    (hun : Unheard dest hop ⟨h, .rip src newEntry, h'⟩)
    (hnot : ¬ OffersEqual h (.rip src newEntry)) :
    h.updates src newEntry ≠ some w.updateChan := by
  intro hsent
  obtain ⟨e, he, hhop, hch⟩ := ha.route
  obtain ⟨old, hold, holdch, hforeign⟩ := checkRoute_of_refreshes hsent
  have haddr : newEntry.address = dest :=
    ha.wired.distinct _ _ old e hold he (holdch.trans hch.symm)
  obtain ⟨hsrc, hchanged⟩ := hun haddr
  simp only [Host.updates] at hsent
  have hv := decides_verdict h.router.table src newEntry
  generalize verdict h.router.table src newEntry = v at hv hsent hchanged
  cases hv with
  | infinite => cases hsent
  | unknown => cases hsent
  | worse => cases hsent
  | changes => cases hchanged
  | same hne hold' hcost =>
    refine hnot ⟨hne, hforeign, _, hold', hcost, ?_⟩
    rw [haddr, he] at hold'
    cases hold'
    rw [hhop]
    exact hsrc.symm

theorem Awaits.step (ha : Awaits dest hop i w h) (hs : HostStep h ev h')
    (hun : Unheard dest hop ⟨h, ev, h'⟩) (hnot : ¬ OffersEqual h ev) :
    Awaits dest hop i w h' := by
  obtain ⟨hown, hm⟩ := hs.move
  have hwired := ha.wired.move hm
  generalize hr' : h'.router = r at hm
  cases hm with
  | rip now src newEntry =>
    have hsent := ha.updates_ne hun hnot
    refine ha.of_route hown hwired (hr' ▸ watcher_receiveEntry ha.watcher hsent) ?_
    rw [hr']
    by_cases haddr : newEntry.address = dest
    · have hchanged := (hun haddr).2
      rw [receiveEntry_table]
      cases hv : verdict h.router.table src newEntry <;> rw [hv] at hchanged
      · rfl
      · cases hchanged
      · cases hchanged
      · rfl
    · exact checkRoute_receiveEntry_of_ne haddr
  | @timeout now j r hr =>
    have hij : j ≠ i := by
      rintro rfl
      exact hun w ha.watcher ha.address
    refine ha.of_route hown hwired (hr' ▸ watcher_expire ha.watcher hij hr) ?_
    unfold Router.expire at hr
    split at hr
    · cases hr
    · rename_i w' hw'
      split at hr
      · cases hr
        rw [hr', RoutingTable.checkRoute_updateRoute]
        have hne : dest ≠ w'.newEntryAddress := (hun w' hw').symm
        simp [hne]
      · cases hr
  | down n _ =>
    obtain ⟨e, he, hhop, hch⟩ := ha.route
    refine ⟨hown ▸ ha.foreign, hwired, hr' ▸ ha.watcher, ha.address, ?_⟩
    rw [hr', RoutingTable.checkRoute_removeNextHops, he]
    refine ⟨_, rfl, ?_⟩
    dsimp only
    split <;> exact ⟨hhop, hch⟩
  | @up a n hmem =>
    have hne : dest ≠ a := fun heq => ha.foreign (heq ▸ hmem)
    refine ha.of_route hown hwired (hr' ▸ ha.watcher) ?_
    rw [hr', checkRoute_setOwn, if_neg hne]

/-- A route that is awaited goes to infinity as soon as its timeout is reached. -/
theorem Awaits.expires (ha : Awaits dest hop i w h) (hnow : w.timeout ≤ now) :
    ∃ h' e, h.step now (.timeout i) = some h' ∧ h'.router.table.checkRoute dest = some e ∧
      e.cost = infinity := by
  obtain ⟨e, he, -⟩ := ha.route
  have hexpire : h.router.expire now i = some
      { h.router with
        table := h.router.table.updateRoute w.newEntryAddress infinity w.nextHop
        watchers := h.router.watchers.set i { w with timeout := now + routeTimeout } } := by
    simp only [Router.expire, ha.watcher, if_pos hnow]
  refine ⟨_, { e with cost := infinity, nextHop := w.nextHop }, congrArg (Option.map _) hexpire,
    ?_, rfl⟩
  rw [RoutingTable.checkRoute_updateRoute, he, ha.address]
  simp

end Expiry

/-- In a run from any host, timers are refreshed in the name of the next hop only, exactly when no
neighbour offers a path as long as one through another hop. A route whose next hop has gone silent
then expires at the timeout it had, whatever other neighbours offer. -/
theorem refreshedByNextHop_run_iff (hr : Run HostStep h tr h') :
    ((∀ x ∈ tr, RefreshedByNextHop x) ↔ ∀ x ∈ tr, ¬ OffersEqual x.src x.ev) ∧
      ((∀ x ∈ tr, ¬ OffersEqual x.src x.ev) → ∀ dest hop i w, Awaits dest hop i w h →
        (∀ x ∈ tr, Unheard dest hop x) → ∀ now, w.timeout ≤ now →
          ∃ h'' e, h'.step now (.timeout i) = some h'' ∧
            h''.router.table.checkRoute dest = some e ∧ e.cost = infinity) := by
  constructor
  · apply hr.forall_iff (I := fun _ => True) (H := fun _ => True) trivial
    · exact fun _ _ => trivial
    · exact fun _ _ _ _ _ _ _ => trivial
    · exact fun _ _ _ _ hs _ => refreshedByNextHop_step hs
  · intro hnot dest hop i w ha hun now hnow
    have hend : Awaits dest hop i w h' := hr.state_inv (I := Awaits dest hop i w)
      (P := fun x => Unheard dest hop x ∧ ¬ OffersEqual x.src x.ev) ha
      (fun x hx => ⟨hun x hx, hnot x hx⟩) fun _ _ _ ha hs hx => ha.step hs hx.1 hx.2
    exact hend.expires hnow

/-- Address 9 is learned from neighbour 2; neighbour 4 then offers a longer path, which does not
hold up the timeout. -/
theorem refreshedByNextHop_run_iff_longer_path :
    let h := (twoLinksPlay [(0, .rip 2 ⟨1, 9, fullMask⟩)]).2
    let x : Move Host HostEvent := ⟨h, .rip 4 ⟨3, 9, fullMask⟩,
      { h with router := (h.router.receiveEntry h.own 15 4 ⟨3, 9, fullMask⟩).1 }⟩
    Run HostStep h [x] x.dst ∧ ¬ OffersEqual x.src x.ev ∧ Awaits 9 2 0 ⟨9, 2, 2, 20⟩ h ∧
      Unheard 9 2 x ∧ RefreshedByNextHop x ∧
      ∃ h'' e, x.dst.step 20 (.timeout 0) = some h'' ∧
        h''.router.table.checkRoute 9 = some e ∧ e.cost = infinity := by
  intro h x
  have hroute : h.router.table.checkRoute 9 = some ⟨2, 2, 2⟩ := by decide
  have hrun : Run HostStep h [x] x.dst := .snoc .nil ⟨15, rfl⟩
  have hnot : ¬ OffersEqual x.src x.ev := by
    rintro ⟨-, -, old, hold, hcost, -⟩
    cases hroute.symm.trans hold
    exact absurd hcost (by decide)
  have hawaits : Awaits 9 2 0 ⟨9, 2, 2, 20⟩ h :=
    ⟨by decide, (wired_initRoutingTable _).move (.rip 0 2 ⟨1, 9, fullMask⟩), by decide, rfl,
      _, hroute, rfl, rfl⟩
  have hun : Unheard 9 2 x := fun _ => ⟨by decide, by decide⟩
  obtain ⟨hiff, hexpires⟩ := refreshedByNextHop_run_iff hrun
  have hall : ∀ y ∈ [x], ¬ OffersEqual y.src y.ev := by simpa using hnot
  exact ⟨hrun, hnot, hawaits, hun, hiff.mpr hall x (by simp),
    hexpires hall 9 2 0 _ hawaits (by simpa using hun) 20 (by decide)⟩

/-- Neighbour 2 teaches address 9 and falls silent. Neighbour 4 offers a path of the same length at
second 19: the route stays through neighbour 2, and its timer, due at 20, runs to 31. -/
theorem equal_path_refreshes :
    let out := twoLinksPlay [(0, .rip 2 ⟨1, 9, fullMask⟩), (19, .rip 4 ⟨1, 9, fullMask⟩)]
    out.2.router.table.checkRoute 9 = some ⟨2, 2, 2⟩ ∧
      out.2.router.watchers = [⟨9, 2, 2, 31⟩] ∧
      ¬ ∀ (localIFs : List LinkInterface) (tr : List (Move Host HostEvent)) (h : Host),
        Run HostStep (Host.start localIFs) tr h → ∀ x ∈ tr, RefreshedByNextHop x := by
  intro out
  refine ⟨by decide, by decide, ?_⟩
  intro hall
  have hrun := twoLinksPlay_run [(0, .rip 2 ⟨1, 9, fullMask⟩), (19, .rip 4 ⟨1, 9, fullMask⟩)]
  have hlast := hall twoLinks _ _ hrun (out.1.get ⟨1, by decide⟩) (List.get_mem _ _)
  have hnone := hlast ⟨2, 2, 2⟩ (by decide) (by decide)
  exact absurd hnone (by decide)

end TcpIp.Ip
