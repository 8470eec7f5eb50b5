import TcpIp.Ip.ClockedNetwork
import TcpIp.Ip.CostBounds

/-! The timers of a running network: which channels they listen on, and that time can pass. -/
namespace TcpIp.Ip

open Runs

theorem updateChan_removeNextHops {rt : RoutingTable} {nextHops : List Addr} {a : Addr}
    {e : RoutingTableEntry} (h : (rt.removeNextHops nextHops).checkRoute a = some e) :
    ∃ old, rt.checkRoute a = some old ∧ old.updateChan = e.updateChan := by
  rw [RoutingTable.checkRoute_removeNextHops] at h
  obtain ⟨old, hold, rfl⟩ := Option.map_eq_some_iff.mp h
  refine ⟨old, hold, ?_⟩
  split <;> rfl

section Sane

/-- The channel on which a job is going to send, or sends. -/
def Phase.chan : Phase → Option Chan
  | .commit (.update updateChan) => some updateChan
  | .commit (.refresh updateChan) => some updateChan
  | .refresh updateChan => some updateChan
  | _ => none

/-- `dest` says for which destination a channel was made. -/
def Labelled (dest : Chan → Addr) (r : Router) : Prop :=
  ∀ a e, r.table.checkRoute a = some e → e.updateChan < r.chans ∧ dest e.updateChan = a

structure JobSane (dest : Chan → Addr) (chans : ℕ) (job : Job) : Prop where
  bounded : ∀ e ∈ job.entries, e.cost ≤ infinity
  finite : ∀ v newEntry rest, job.phase = .commit v → job.entries = newEntry :: rest →
    v.changed = true → newEntry.cost ≠ infinity
  chan : ∀ ch newEntry rest, job.phase.chan = some ch → job.entries = newEntry :: rest →
    ch < chans ∧ dest ch = newEntry.address

/-- Someone receives on the channel that a job is going to send on. -/
structure JobReady (own : List Addr) (r : Router) (job : Job) : Prop where
  busy : job.phase ≠ .check → job.entries ≠ []
  commit : ∀ v newEntry rest ch, job.phase = .commit v → job.entries = newEntry :: rest →
    v.refreshes own newEntry.address = some ch → ∃ w ∈ r.watchers, w.updateChan = ch
  refresh : ∀ ch, job.phase = .refresh ch → ∃ w ∈ r.watchers, w.updateChan = ch

structure NodeSane (now : ℕ) (n : RipNode) : Prop where
  watched : n.host.router.Watched n.host.own
  bounded : n.table.Bounded
  timers : ∀ w ∈ n.host.router.watchers, w.timeout ≤ now + firstTimeout
  sent : ∀ j ∈ n.jobs, j.1 ≤ now
  labels : ∃ dest, Labelled dest n.host.router ∧
    ∀ j ∈ n.jobs, JobSane dest n.host.router.chans j.2
  ready : ∀ j ∈ n.jobs, JobReady n.host.own n.host.router j.2

variable {now : ℕ} {n n' : RipNode} {ev : NodeEvent} {packets : List RipPacket}
  {dest : Chan → Addr} {r r' : Router} {chans : ℕ} {job : Job}

/-- A job that has not looked its first entry up has only to have its costs in range. -/
theorem JobSane.of_check (hbounded : ∀ e ∈ job.entries, e.cost ≤ infinity)
    (hphase : job.phase = .check) : JobSane dest chans job where
  bounded := hbounded
  finite v newEntry rest hv := by simp [hphase] at hv
  chan ch newEntry rest hch := by simp [hphase, Phase.chan] at hch

theorem JobSane.mono (h : JobSane dest chans job) {dest' : Chan → Addr} {chans' : ℕ}
    (hle : chans ≤ chans') (hagree : ∀ ch < chans, dest' ch = dest ch) :
    JobSane dest' chans' job where
  bounded := h.bounded
  finite := h.finite
  chan ch newEntry rest hch hentries := by
    obtain ⟨hlt, hdest⟩ := h.chan ch newEntry rest hch hentries
    exact ⟨hlt.trans_le hle, (hagree ch hlt).trans hdest⟩

theorem Verdict.refreshes_eq_some {own : List Addr} {a : Addr} {v : Verdict} {ch : Chan}
    (h : v.refreshes own a = some ch) : (v = .update ch ∨ v = .refresh ch) ∧ a ∉ own := by
  cases v with
  | skip | add => cases h
  | update ch' =>
    simp only [Verdict.refreshes, Option.ite_none_left_eq_some, Option.some.injEq] at h
    exact ⟨Or.inl (by rw [h.2]), h.1⟩
  | refresh ch' =>
    simp only [Verdict.refreshes, Option.ite_none_left_eq_some, Option.some.injEq] at h
    exact ⟨Or.inr (by rw [h.2]), h.1⟩

/-- A job keeps on sending on a channel of the destination it is about. -/
theorem JobSane.from {j : ℕ × Job} (hj : JobFrom now n ev n' j)
    (hlabel : Labelled dest n.host.router)
    (h : ∀ j ∈ n.jobs, JobSane dest n.host.router.chans j.2)
    (hdeliver : ∀ sent p, ev = .deliver sent p →
      ∀ e ∈ (decode (bufferData p.data)).entries, e.cost ≤ infinity) :
    JobSane dest n.host.router.chans j.2 := by
  cases hj with
  | kept hj => exact h j hj
  | arrived hev => exact .of_check (hdeliver _ _ hev) rfl
  | next hj hsub hphase =>
    exact .of_check (fun e he => (h _ hj).bounded e (hsub.subset he)) hphase
  | @checked j job newEntry rest hj hentries hsame hphase =>
    refine ⟨by rw [hsame, ← hentries]; exact (h _ hj).bounded, ?_, ?_⟩
    · intro v newEntry' rest' hv hentries' hchanged
      cases hphase.symm.trans hv
      cases hsame.symm.trans hentries'
      exact cost_ne_infinity hchanged
    · intro ch newEntry' rest' hch hentries'
      cases hsame.symm.trans hentries'
      rw [hphase] at hch
      have hv := decides_verdict n.table job.nextHop newEntry
      generalize verdict n.table job.nextHop newEntry = v at hv hch
      cases hv with
      | infinite | unknown | worse => cases hch
      | changes _ hold | same _ hold =>
        cases hch
        exact hlabel _ _ hold
  | @committed j job newEntry rest v ch hj hentries hcommit hrefreshes hsame hphase =>
    refine ⟨by rw [hsame, ← hentries]; exact (h _ hj).bounded, ?_, ?_⟩
    · intro v newEntry' rest' hv
      cases hphase.symm.trans hv
    · intro ch' newEntry' rest' hch hentries'
      cases hsame.symm.trans hentries'
      rw [hphase] at hch
      cases hch
      apply (h _ hj).chan ch newEntry rest _ hentries
      rw [hcommit]
      rcases (Verdict.refreshes_eq_some hrefreshes).1 with rfl | rfl <;> rfl

theorem JobReady.of_check {own : List Addr} (hphase : job.phase = .check) :
    JobReady own r job where
  busy hne := absurd hphase hne
  commit v newEntry rest ch hv := by simp [hphase] at hv
  refresh ch hch := by simp [hphase] at hch

/-- Watchers go on for ever. -/
theorem RouterFrom.listens (hr : RouterFrom now n r) {ch : Chan}
    (h : ∃ w ∈ n.host.router.watchers, w.updateChan = ch) :
    ∃ w ∈ r.watchers, w.updateChan = ch := by
  obtain ⟨w, hw, hch⟩ := h
  have hwatches : n.host.router.Watches w.newEntryAddress ch := ⟨w, hw, rfl, hch⟩
  have hkept : r.Watches w.newEntryAddress ch := by
    cases hr with
    | same | down | up => exact hwatches
    | commit => exact hwatches.commit
    | refresh _ _ hr => exact hwatches.refresh hr
    | timeout hr => exact hwatches.expire hr
  obtain ⟨w', hw', -, hch'⟩ := hkept
  exact ⟨w', hw', hch'⟩

theorem JobReady.from {j : ℕ × Job} (hj : JobFrom now n ev n' j)
    (hr : RouterFrom now n n'.host.router) (hown : n'.host.own = n.host.own)
    (hwatched : n.host.router.Watched n.host.own)
    (h : ∀ j ∈ n.jobs, JobReady n.host.own n.host.router j.2) :
    JobReady n'.host.own n'.host.router j.2 := by
  rw [hown]
  cases hj with
  | kept hj =>
    have hready := h j hj
    exact ⟨hready.busy,
      fun v newEntry rest ch hv he href => hr.listens (hready.commit v newEntry rest ch hv he href),
      fun ch hch => hr.listens (hready.refresh ch hch)⟩
  | arrived => exact .of_check rfl
  | next _ _ hphase => exact .of_check hphase
  | @checked j job newEntry rest hj hentries hsame hphase =>
    refine ⟨fun _ => by rw [hsame]; exact List.cons_ne_nil _ _, ?_, ?_⟩
    · intro v newEntry' rest' ch hv hentries' href
      cases hphase.symm.trans hv
      cases hsame.symm.trans hentries'
      obtain ⟨e, he, rfl, hforeign⟩ := checkRoute_of_refreshes href
      obtain ⟨w, hw, -, hch⟩ := hwatched _ e he hforeign
      exact hr.listens ⟨w, hw, hch⟩
    · intro ch hch
      cases hphase.symm.trans hch
  | @committed j job newEntry rest v ch hj hentries hcommit hrefreshes hsame hphase =>
    refine ⟨fun _ => by rw [hsame]; exact List.cons_ne_nil _ _, ?_, ?_⟩
    · intro v' newEntry' rest' ch' hv
      cases hphase.symm.trans hv
    · intro ch' hch
      cases hphase.symm.trans hch
      exact hr.listens ((h j hj).commit v newEntry rest ch hcommit hentries hrefreshes)

theorem Labelled.of_chans (h : Labelled dest r) (hchans : r'.chans = r.chans)
    (htable : ∀ a e', r'.table.checkRoute a = some e' →
      ∃ e, r.table.checkRoute a = some e ∧ e.updateChan = e'.updateChan) : Labelled dest r' := by
  intro a e' he'
  obtain ⟨e, he, hch⟩ := htable a e' he'
  rw [← hch, hchans]
  exact h a e he

/-- A channel that is made for a destination is not in use yet. -/
theorem Labelled.fresh (h : Labelled dest r) {a : Addr} {e : RoutingTableEntry}
    (hchans : r'.chans = r.chans + 1) (hch : e.updateChan = r.chans)
    (htable : ∀ b, r'.table.checkRoute b = if b = a then some e else r.table.checkRoute b) :
    Labelled (Function.update dest r.chans a) r' := by
  intro b e' he'
  rw [htable] at he'
  split at he'
  · rename_i hb
    cases he'
    rw [hch, hchans, Function.update_self]
    exact ⟨Nat.lt_succ_self _, hb.symm⟩
  · obtain ⟨hlt, hdest⟩ := h b e' he'
    rw [Function.update_of_ne hlt.ne, hchans]
    exact ⟨Nat.lt_succ_of_lt hlt, hdest⟩

theorem RouterFrom.labelled (hr : RouterFrom now n r) (h : Labelled dest n.host.router) :
    ∃ dest', Labelled dest' r ∧ n.host.router.chans ≤ r.chans ∧
      ∀ ch < n.host.router.chans, dest' ch = dest ch := by
  have hagree : ∀ a, ∀ ch < n.host.router.chans,
      Function.update dest n.host.router.chans a ch = dest ch :=
    fun a ch hlt => Function.update_of_ne hlt.ne _ _
  cases hr with
  | same => exact ⟨dest, h, le_rfl, fun _ _ => rfl⟩
  | @commit j newEntry rest v hj hentries hphase =>
    cases v with
    | skip | refresh => exact ⟨dest, h, le_rfl, fun _ _ => rfl⟩
    | add =>
      exact ⟨_, h.fresh rfl rfl fun b => checkRoute_commit_add, Nat.le_succ _, hagree _⟩
    | update ch =>
      exact ⟨dest, h.of_chans rfl fun a e he => updateChan_updateRoute he, le_rfl, fun _ _ => rfl⟩
  | refresh hj hphase hr =>
    have htable := refresh_table hr
    unfold Router.refresh at hr
    split at hr
    · cases hr
      exact ⟨dest, h, le_rfl, fun _ _ => rfl⟩
    · cases hr
  | timeout hr =>
    obtain ⟨w, -, htable⟩ := expire_table hr
    unfold Router.expire at hr
    split at hr
    · cases hr
    · split at hr
      · cases hr
        exact ⟨dest, h.of_chans rfl fun a e he => updateChan_updateRoute he, le_rfl, fun _ _ => rfl⟩
      · cases hr
  | down nextHops =>
    refine ⟨dest, h.of_chans rfl fun a e he => ?_, le_rfl, fun _ _ => rfl⟩
    exact updateChan_removeNextHops he
  | up ha => exact ⟨_, h.fresh rfl rfl fun b => checkRoute_setOwn, Nat.le_succ _, hagree _⟩

theorem RouterFrom.watched (hr : RouterFrom now n r) (h : n.host.router.Watched n.host.own) :
    r.Watched n.host.own := by
  cases hr with
  | same => exact h
  | commit => exact h.commit
  | refresh hj hphase hr =>
    refine h.of_chans ?_ fun _ _ hw => hw.refresh hr
    intro a e he _
    rw [refresh_table hr] at he
    exact ⟨e, he, rfl⟩
  | timeout hr => exact h.expire hr
  | down nextHops =>
    refine h.of_chans ?_ fun _ _ hw => hw
    intro a e he _
    exact updateChan_removeNextHops he
  | @up b hb =>
    refine h.of_chans ?_ fun _ _ hw => hw
    intro a e he ha
    have hne : a ≠ b := fun hab => ha (hab.symm ▸ hb)
    rw [checkRoute_setOwn, if_neg hne] at he
    exact ⟨e, he, rfl⟩

theorem RouterFrom.bounded (hr : RouterFrom now n r) (h : n.table.Bounded)
    (hjobs : ∀ j ∈ n.jobs, JobSane dest n.host.router.chans j.2) : r.table.Bounded := by
  cases hr with
  | same => exact h
  | @commit j newEntry rest v hj hentries hphase =>
    have hsane := hjobs j hj
    have hnew : v.changed = true → newEntry.cost + 1 ≤ infinity := by
      intro hchanged
      have hle := hsane.bounded newEntry (hentries ▸ List.mem_cons_self)
      have hne := hsane.finite v newEntry rest hphase hentries hchanged
      exact ((succ_in_range_iff hne).mpr (BitVec.not_lt.mpr hle)).1
    cases v with
    | skip | refresh => exact h
    | add => exact h.addRoute (hnew rfl)
    | update => exact h.updateRoute (hnew rfl)
  | refresh hj hphase hr =>
    rw [refresh_table hr]
    exact h
  | timeout hr =>
    obtain ⟨w, -, htable⟩ := expire_table hr
    rw [htable]
    exact h.updateRoute (BitVec.le_refl infinity)
  | down nextHops => exact h.removeNextHops nextHops
  | up ha => exact h.addRoute (by decide)

/-- Where a timer of the new router comes from. -/
theorem RouterFrom.timers (hr : RouterFrom now n r) {w : Watcher} (hw : w ∈ r.watchers) :
    w ∈ n.host.router.watchers ∨ w.timeout = now + firstTimeout ∨
      w.timeout = now + routeTimeout := by
  cases hr with
  | same => exact Or.inl hw
  | @commit j newEntry rest v hj hentries hphase =>
    cases v with
    | skip | refresh | update => exact Or.inl hw
    | add =>
      rcases List.mem_append.mp hw with hw | hw
      · exact Or.inl hw
      · rw [List.mem_singleton.mp hw]
        exact Or.inr (Or.inl rfl)
  | refresh hj hphase hr =>
    unfold Router.refresh at hr
    split at hr
    · cases hr
      obtain ⟨w₀, hw₀, rfl⟩ := List.mem_map.mp hw
      split
      · exact Or.inr (Or.inr rfl)
      · exact Or.inl hw₀
    · cases hr
  | timeout hr =>
    unfold Router.expire at hr
    split at hr
    · cases hr
    · split at hr
      · cases hr
        rcases List.mem_or_eq_of_mem_set hw with hw | rfl
        · exact Or.inl hw
        · exact Or.inr (Or.inr rfl)
      · cases hr
  | down | up => exact Or.inl hw

theorem NodeSane.step (h : NodeSane now n) (hs : NodeStep now n ev n' packets)
    (hdeliver : ∀ sent p, ev = .deliver sent p → sent ≤ now ∧
      ∀ e ∈ (decode (bufferData p.data)).entries, e.cost ≤ infinity) : NodeSane now n' := by
  obtain ⟨hown, hr⟩ := hs.router
  obtain ⟨dest, hlabel, hjobs⟩ := h.labels
  refine ⟨hown ▸ hr.watched h.watched, hr.bounded h.bounded hjobs, fun w hw => ?_,
    fun j hmem => ?_, ?_,
    fun j hmem => JobReady.from (hs.jobs hmem) hr hown h.watched h.ready⟩
  · rcases hr.timers hw with hw | htimeout | htimeout
    · exact h.timers w hw
    · exact htimeout.le
    · rw [htimeout]
      exact Nat.add_le_add_left (by decide) now
  · rcases hs.heard hmem with ⟨j', hj', heq, -⟩ | ⟨p, hev, -⟩
    · exact heq ▸ h.sent j' hj'
    · exact (hdeliver _ p hev).1
  · obtain ⟨dest', hlabel', hle, hagree⟩ := hr.labelled hlabel
    refine ⟨dest', hlabel', fun j hj => ?_⟩
    exact (JobSane.from (hs.jobs hj) hlabel hjobs fun sent p hev => (hdeliver sent p hev).2).mono
      hle hagree

theorem NodeSane.later (h : NodeSane now n) {now' : ℕ} (hle : now ≤ now') : NodeSane now' n where
  watched := h.watched
  bounded := h.bounded
  timers w hw := (h.timers w hw).trans (Nat.add_le_add_right hle _)
  sent j hj := (h.sent j hj).trans hle
  labels := h.labels
  ready := h.ready

theorem RipNode.OnTime.step {τ : Timing} (h : n.OnTime τ now)
    (hs : NodeStep now n ev n' packets)
    (hdeliver : ∀ sent p, ev = .deliver sent p → now ≤ sent + τ.delay) : n'.OnTime τ now := by
  refine ⟨fun w hw => ?_, fun j hmem => ?_⟩
  · rcases hs.router.2.timers hw with hw | htimeout | htimeout
    · exact h.1 w hw
    · omega
    · omega
  · rcases hs.heard hmem with ⟨j', hj', heq, -⟩ | ⟨p, hev, -⟩
    · exact heq ▸ h.2 j' hj'
    · exact hdeliver _ p hev

end Sane

section Settling

variable {now : ℕ} {n n' : RipNode} {ev : NodeEvent}

/-- A step that neither sends nor receives. -/
def Quiet (now : ℕ) (n : RipNode) (ev : NodeEvent) (n' : RipNode) : Prop :=
  NodeStep now n ev n' [] ∧ ∀ sent p, ev ≠ .deliver sent p

theorem NodeSane.quiet (h : NodeSane now n) (hs : Quiet now n ev n') : NodeSane now n' :=
  h.step hs.1 fun sent p hev => absurd hev (hs.2 sent p)

/-- The steps that a job still takes, or more. -/
def Job.work (job : Job) : ℕ :=
  3 * job.entries.length +
    match job.phase with
    | .check => 2
    | .commit _ => 1
    | .refresh _ => 0

def RipNode.work (n : RipNode) : ℕ := (n.jobs.map fun j => j.2.work).sum

theorem Job.work_committed {own : List Addr} {job : Job} {newEntry : RIPEntry}
    {rest : List RIPEntry} {v : Verdict} (hentries : job.entries = newEntry :: rest)
    (hphase : job.phase = .commit v) : (job.committed own newEntry rest v).work < job.work := by
  unfold Job.committed
  dsimp only
  split
  · simp [Job.work, hentries, hphase]
  · simp only [Job.work, hentries, hphase, List.length_cons]
    omega

/-- The first of the running jobs can always go on: whatever channel it sends on, a watcher
receives. -/
theorem NodeSane.goes_on (h : NodeSane now n) (hjobs : n.jobs ≠ []) :
    ∃ ev n', Quiet now n ev n' ∧ n'.work < n.work := by
  obtain ⟨⟨sent, job⟩, post, hfirst⟩ := List.exists_cons_of_ne_nil hjobs
  have hj : n.jobs = [] ++ (sent, job) :: post := hfirst
  have hready := h.ready (sent, job) (hfirst ▸ List.mem_cons_self)
  have hwork : ∀ {n' : RipNode} {job' : Job}, n'.jobs = [] ++ (sent, job') :: post →
      job'.work < job.work → n'.work < n.work := by
    intro n' job' hjobs' hlt
    simp only [RipNode.work, hj, hjobs', List.nil_append, List.map_cons, List.sum_cons]
    omega
  obtain ⟨nextHop, entries, phase, updated⟩ := job
  cases phase with
  | check =>
    cases entries with
    | nil =>
      refine ⟨.finish, _, ⟨.finish _ hj (List.Perm.refl _), by simp⟩, ?_⟩
      simp [RipNode.work, hj, Job.work]
    | cons newEntry rest => exact ⟨.check, _, ⟨.check hj, by simp⟩, hwork rfl (by simp [Job.work])⟩
  | commit v =>
    obtain ⟨newEntry, rest, hentries⟩ := List.exists_cons_of_ne_nil (hready.busy (by simp))
    exact ⟨.commit, _, ⟨.commit hj hentries rfl, by simp⟩,
      hwork rfl (Job.work_committed hentries rfl)⟩
  | refresh ch =>
    obtain ⟨newEntry, rest, hentries⟩ := List.exists_cons_of_ne_nil (hready.busy (by simp))
    simp only at hentries
    subst hentries
    have hlisten := hready.refresh ch rfl
    refine ⟨.refresh, _, ⟨.refresh hj (if_pos hlisten), by simp⟩, hwork rfl ?_⟩
    simp only [Job.work, List.length_cons]
    omega

theorem NodeSane.finishes (h : NodeSane now n) :
    ∃ tr n', Run (Quiet now) n tr n' ∧ n'.jobs = [] := by
  induction hwork : n.work using Nat.strong_induction_on generalizing n with
  | _ k ih =>
    by_cases hjobs : n.jobs = []
    · exact ⟨[], n, .nil, hjobs⟩
    · obtain ⟨ev, n₁, hs, hlt⟩ := h.goes_on hjobs
      obtain ⟨tr, n', hr, hdone⟩ := ih n₁.work (hwork ▸ hlt) (h.quiet hs) rfl
      exact ⟨_, n', hr.cons hs, hdone⟩

/-- A timer that is due can fire, and is not due after it. -/
theorem exists_expire {r : Router} {w : Watcher} (hw : w ∈ r.watchers) (hle : w.timeout ≤ now) :
    ∃ i r', r.expire now i = some r' ∧
      r'.watchers.countP (fun w => w.timeout ≤ now) <
        r.watchers.countP (fun w => w.timeout ≤ now) := by
  obtain ⟨i, hi, rfl⟩ := List.getElem_of_mem hw
  refine ⟨i, _, by simp only [Router.expire, List.getElem?_eq_getElem hi, if_pos hle]; rfl, ?_⟩
  have hpos : 0 < r.watchers.countP (fun w => w.timeout ≤ now) :=
    List.countP_pos_iff.mpr ⟨_, hw, by simpa using hle⟩
  have hnew : ¬ now + routeTimeout ≤ now := by
    rw [routeTimeout]
    omega
  simp only [List.countP_set hi, hle, hnew, decide_true, decide_false, if_true, Bool.false_eq_true,
    if_false]
  omega

/-- The timers that are due fire one after the other. -/
theorem exists_run_fired (now : ℕ) (n : RipNode) :
    ∃ tr n', Run (Quiet now) n tr n' ∧ n'.jobs = n.jobs ∧
      ∀ w ∈ n'.host.router.watchers, now < w.timeout := by
  induction hdue : n.host.router.watchers.countP (fun w => w.timeout ≤ now)
    using Nat.strong_induction_on generalizing n with
  | _ k ih =>
    by_cases hall : ∀ w ∈ n.host.router.watchers, now < w.timeout
    · exact ⟨[], n, .nil, rfl, hall⟩
    push Not at hall
    obtain ⟨w, hw, hle⟩ := hall
    obtain ⟨i, router, hexpire, hlt⟩ := exists_expire hw hle
    obtain ⟨tr, n', hr, hjobs, hfired⟩ := ih _ (hdue ▸ hlt) (n.setRouter router) rfl
    exact ⟨_, n', hr.cons ⟨.timeout i hexpire, by simp⟩, hjobs, hfired⟩

/-- A node can see to all that it has to do in a second. -/
theorem NodeSane.settles (h : NodeSane now n) :
    ∃ tr n', Run (Quiet now) n tr n' ∧ n'.jobs = [] ∧
      ∀ w ∈ n'.host.router.watchers, now < w.timeout := by
  obtain ⟨tr, n₁, hr, hdone⟩ := h.finishes
  obtain ⟨tr', n', hr', hjobs, hfired⟩ := exists_run_fired now n₁
  exact ⟨_, n', hr.append hr', hjobs.trans hdone, hfired⟩

end Settling

section Network

variable {Node : Type*} {config : Node → List LinkInterface} {τ : Timing} {s s' : ClockedNet Node}

structure NetSane (config : Node → List LinkInterface) (τ : Timing) (s : ClockedNet Node) :
    Prop where
  own : ∀ x, s.alive x = true → (s.node x).host.own = ownAddrs (config x)
  node : ∀ x, s.alive x = true → NodeSane s.clock (s.node x)
  onTime : ∀ x, s.alive x = true → (s.node x).OnTime τ s.clock
  wire : ∀ p ∈ s.wire, p.1 ≤ s.clock ∧
    ∀ e ∈ (decode (bufferData p.2.data)).entries, e.cost ≤ infinity

/-- A fresh host has no timers, and a channel of its own for every own address. -/
theorem router_start (localIFs : List LinkInterface) :
    (Host.start localIFs).router.watchers = [] ∧
      ∃ dest, Labelled dest (Host.start localIFs).router := by
  suffices hfold : ∀ (own : List Addr) (r : Router), r.watchers = [] →
      (∃ dest, Labelled dest r) → (own.foldl Router.setOwn r).watchers = [] ∧
        ∃ dest, Labelled dest (own.foldl Router.setOwn r) by
    exact hfold _ _ rfl ⟨fun _ => 0, by intro a e he; cases he⟩
  intro own
  induction own with
  | nil => exact fun r hw hlabel => ⟨hw, hlabel⟩
  | cons a own ih =>
    rintro r hw ⟨dest, hlabel⟩
    exact ih (r.setOwn a) hw ⟨_, hlabel.fresh rfl rfl fun b => checkRoute_setOwn⟩

theorem nodeSane_start (now : ℕ) (localIFs : List LinkInterface) :
    NodeSane now (.start localIFs) where
  watched := tended_start.watched
  bounded := bounded_start
  timers w hw := by
    rw [RipNode.start, (router_start localIFs).1] at hw
    cases hw
  sent j hj := by cases hj
  labels := by
    obtain ⟨dest, hlabel⟩ := (router_start localIFs).2
    exact ⟨dest, hlabel, fun j hj => by cases hj⟩
  ready j hj := by cases hj

theorem onTime_start (now : ℕ) (localIFs : List LinkInterface) :
    (RipNode.start localIFs).OnTime τ now := by
  constructor
  · intro w hw
    rw [RipNode.start, (router_start localIFs).1] at hw
    cases hw
  · intro j hj
    cases hj

theorem netSane_init : NetSane config τ (ClockedNet.init config) :=
  ⟨fun x hx => (by cases hx), fun x hx => (by cases hx), fun x hx => (by cases hx),
    fun p hp => (by cases hp)⟩

variable [DecidableEq Node] {ev : ClockedEvent Node}

theorem NetSane.step (h : NetSane config τ s) (hs : ClockedStep config τ s ev s') :
    NetSane config τ s' := by
  have hle : s.clock ≤ s'.clock := by
    rcases hs.clock with hsame | ⟨htick, -⟩ <;> omega
  refine ⟨?_, fun x hx => ?_, ?_, fun p hp => ?_⟩
  · refine hs.forall_alive (P := fun x n => n.host.own = ownAddrs (config x)) h.own
      (fun _ _ => rfl) ?_
    intro x ev n packets _ hstep _ hown
    exact hstep.router.1.trans hown
  · refine NodeSane.later (hs.forall_alive (P := fun _ n => NodeSane s.clock n) h.node
      (fun x _ => nodeSane_start _ _) ?_ x hx) hle
    intro x ev n packets _ hstep hwire hnode
    exact hnode.step hstep fun sent p hev => h.wire _ (hwire sent p hev).1
  · rcases hs.clock with hsame | ⟨-, htime⟩
    · rw [hsame]
      refine hs.forall_alive (P := fun _ n => n.OnTime τ s.clock) h.onTime
        (fun x _ => onTime_start _ _) ?_
      intro x ev n packets _ hstep hwire hon
      exact hon.step hstep fun sent p hev => (hwire sent p hev).2
    · exact htime
  · rcases hs.wire hp with hp | ⟨hsent, x, ev, n, packets, hx, hstep, hp⟩
    · exact ⟨(h.wire p hp).1.trans hle, (h.wire p hp).2⟩
    · refine ⟨hsent.le.trans hle, fun e he => ?_⟩
      rcases hstep.said hp he with ⟨hcost, -⟩ | ⟨a, entry, hentry, hcost | hcost, -⟩
      · rw [hcost]
        decide
      · rw [hcost]
        exact (h.node x hx).bounded a entry hentry
      · rw [hcost]
        exact BitVec.le_refl infinity

theorem netSane_run {tr : List (Move (ClockedNet Node) (ClockedEvent Node))}
    (h : NetSane config τ s) (hr : Run (ClockedStep config τ) s tr s') : NetSane config τ s' :=
  hr.state_inv (P := fun _ => True) h (fun _ _ => trivial) fun _ _ _ h hs _ => h.step hs

def ClockedNet.setNode (s : ClockedNet Node) (x : Node) (n : RipNode) : ClockedNet Node :=
  { s with node := Function.update s.node x n }

/-- The nodes that run stay the same along the run. -/
def KeepsAlive (s : ClockedNet Node) (tr : List (Move (ClockedNet Node) (ClockedEvent Node))) :
    Prop :=
  ∀ y ∈ tr, y.dst.alive = s.alive

theorem run_of_quiet {x : Node} {n : RipNode} {tr : List (Move RipNode NodeEvent)}
    (hx : s.alive x = true) (hr : Run (Quiet s.clock) (s.node x) tr n) :
    ∃ tr', Run (ClockedStep config τ) s tr' (s.setNode x n) ∧ KeepsAlive s tr' := by
  induction hr with
  | nil =>
    refine ⟨[], ?_, by simp [KeepsAlive]⟩
    rw [ClockedNet.setNode, Function.update_eq_self]
    exact .nil
  | @snoc tr t u e hr hs ih =>
    obtain ⟨tr', hrun, hkeep⟩ := ih
    have hstep : ClockedStep config τ (s.setNode x t) (.act x e) (s.setNode x u) := by
      have hnode : (s.setNode x t).node x = t := Function.update_self _ _ _
      have hact : ClockedStep config τ (s.setNode x t) (.act x e) _ :=
        .act hx (hnode.symm ▸ hs.1) fun sent p hev => absurd hev (hs.2 sent p)
      simpa [ClockedNet.setNode] using hact
    refine ⟨_, .snoc hrun hstep, fun y hy => ?_⟩
    rcases List.mem_append.mp hy with hy | hy
    · exact hkeep y hy
    · rw [List.mem_singleton.mp hy]
      rfl

/-- All running nodes see to what they have to do, one after the other. -/
theorem NetSane.settles [Finite Node] (h : NetSane config τ s) :
    ∃ tr s', Run (ClockedStep config τ) s tr s' ∧ KeepsAlive s tr ∧ s'.clock = s.clock ∧
      s'.alive = s.alive ∧ ∀ x, s.alive x = true → (s'.node x).jobs = [] ∧
        ∀ w ∈ (s'.node x).host.router.watchers, s.clock < w.timeout := by
  have := Fintype.ofFinite Node
  suffices hset : ∀ F : Finset Node, ∃ tr s', Run (ClockedStep config τ) s tr s' ∧
      KeepsAlive s tr ∧ s'.clock = s.clock ∧ s'.alive = s.alive ∧
      ∀ x ∈ F, s.alive x = true → (s'.node x).jobs = [] ∧
        ∀ w ∈ (s'.node x).host.router.watchers, s.clock < w.timeout by
    obtain ⟨tr, s', hr, hkeep, hclock, halive, hsettled⟩ := hset Finset.univ
    exact ⟨tr, s', hr, hkeep, hclock, halive, fun x => hsettled x (Finset.mem_univ x)⟩
  intro F
  induction F using Finset.induction_on with
  | empty => exact ⟨[], s, .nil, by simp [KeepsAlive], rfl, rfl, by simp⟩
  | @insert x F hx ih =>
    obtain ⟨tr, t, hr, hkeep, hclock, halive, hsettled⟩ := ih
    by_cases hlive : s.alive x = true
    · have hlive' : t.alive x = true := halive ▸ hlive
      obtain ⟨tr', n, hn, hjobs, hfired⟩ := ((netSane_run h hr).node x hlive').settles
      obtain ⟨tr'', hrun, hkeep'⟩ : ∃ tr'', Run (ClockedStep config τ) t tr'' (t.setNode x n) ∧
          KeepsAlive t tr'' := run_of_quiet hlive' hn
      refine ⟨_, _, hr.append hrun, fun y hy => ?_, hclock, halive, fun y hy hylive => ?_⟩
      · rcases List.mem_append.mp hy with hy | hy
        · exact hkeep y hy
        · exact (hkeep' y hy).trans halive
      · by_cases hyx : y = x
        · subst hyx
          simp only [ClockedNet.setNode, Function.update_self]
          exact ⟨hjobs, hclock ▸ hfired⟩
        · simp only [ClockedNet.setNode, Function.update_of_ne hyx]
          exact hsettled y ((Finset.mem_insert.mp hy).resolve_left hyx) hylive
    · refine ⟨tr, t, hr, hkeep, hclock, halive, fun y hy hylive => ?_⟩
      have hyx : y ≠ x := fun hyx => hlive (hyx ▸ hylive)
      exact hsettled y ((Finset.mem_insert.mp hy).resolve_left hyx) hylive

theorem NetSane.time_passes [Finite Node] (h : NetSane config τ s) (k : ℕ) :
    ∃ tr s', Run (ClockedStep config τ) s tr s' ∧ KeepsAlive s tr ∧ s'.clock = s.clock + k ∧
      s'.alive = s.alive ∧ ∀ x, s.alive x = true → (s'.node x).jobs = [] := by
  induction k generalizing s with
  | zero =>
    obtain ⟨tr, s', hr, hkeep, hclock, halive, hsettled⟩ := h.settles
    exact ⟨tr, s', hr, hkeep, hclock, halive, fun x hx => (hsettled x hx).1⟩
  | succ k ih =>
    obtain ⟨tr, t, hr, hkeep, hclock, halive, hsettled⟩ := h.settles
    have htick : ClockedStep config τ t .tick { t with clock := t.clock + 1 } := by
      refine .tick fun x hx => ?_
      obtain ⟨hjobs, hfired⟩ := hsettled x (halive ▸ hx)
      refine ⟨fun w hw => ?_, fun j hj => ?_⟩
      · have hlt := hfired w hw
        omega
      · rw [hjobs] at hj
        cases hj
    obtain ⟨tr', s', hr', hkeep', hclock', halive', hdone⟩ :=
      ih ((netSane_run h hr).step htick)
    refine ⟨_, s', (Run.snoc hr htick).append hr', fun y hy => ?_, ?_, halive'.trans halive, ?_⟩
    · rcases List.mem_append.mp hy with hy | hy
      · rcases List.mem_append.mp hy with hy | hy
        · exact hkeep y hy
        · rw [List.mem_singleton.mp hy]
          exact halive
      · exact (hkeep' y hy).trans halive
    · have hnow : s'.clock = t.clock + 1 + k := hclock'
      omega
    · intro x hx
      exact hdone x (halive ▸ hx)

/-- No interleaving leads into a state from which the handlers cannot go on: from every reachable
state every running `ReceivePacket` can come to its end, none of them waiting for ever on the
channel of a timer, and any time can pass with the same nodes running. -/
theorem handlers_never_stuck [Finite Node]
    {tr : List (Move (ClockedNet Node) (ClockedEvent Node))}
    (hr : Run (ClockedStep config τ) (ClockedNet.init config) tr s) (k : ℕ) :
    ∃ tr' s', Run (ClockedStep config τ) s tr' s' ∧ (∀ y ∈ tr', y.dst.alive = s.alive) ∧
      s'.clock = s.clock + k ∧ ∀ x, s.alive x = true → (s'.node x).jobs = [] := by
  obtain ⟨tr', s', hr', hkeep, hclock, -, hdone⟩ := (netSane_run netSane_init hr).time_passes k
  exact ⟨tr', s', hr', hkeep, hclock, hdone⟩

end Network

theorem handlers_never_stuck_refreshing :
    ∃ s tr s', Run (ClockedStep pairConfig ⟨0, 0⟩) s tr s' ∧
      (s.node true).jobs.map (fun j => j.2.phase) = [.check, .refresh 1] ∧ s'.clock = 30 ∧
      (s'.node true).jobs = [] := by
  obtain ⟨tr, s, hr, hclock, halive, -, hphase⟩ := exists_refreshing
  obtain ⟨tr', s', hr', -, hclock', hdone⟩ := handlers_never_stuck hr 30
  exact ⟨s, tr', s', hr', hphase, by rw [hclock', hclock], hdone true (by rw [halive])⟩

end TcpIp.Ip
