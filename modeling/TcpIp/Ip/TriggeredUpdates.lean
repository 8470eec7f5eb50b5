import TcpIp.Ip.Relaxation

/-! What a triggered update says to each neighbour, against what the periodic one would say. -/
namespace TcpIp.Ip

open Maps

variable {own : List Addr} {now : ℕ} {src dest neighbor : Addr} {r : Router} {table : RoutingTable}
  {entries entriesToSend updated : List RIPEntry} {neighbors : List Addr}
  {range : List (Σ _ : Addr, RoutingTableEntry)} {u : Addr × List RIPEntry}

/-- The list for each neighbour of `SendTriggeredUpdates`, in the order of its loop. -/
def sendTriggeredUpdates (table : RoutingTable) :
    List Addr → List RIPEntry → List (Addr × List RIPEntry)
  | [], _ => []
  | neighbor :: neighbors, entriesToSend =>
    let entriesToSend := poisonEntries table neighbor entriesToSend
    (neighbor, entriesToSend) :: sendTriggeredUpdates table neighbors entriesToSend

/-- The list for a neighbour is what `GetSpecificEntries` gives for it, cut down to the
destinations that were changed. -/
def TellsTruth (range : List (Σ _ : Addr, RoutingTableEntry)) (updated : List RIPEntry)
    (u : Addr × List RIPEntry) : Prop :=
  u.2.Perm ((getSpecificEntries range u.1).filter fun entry =>
    (updated.map RIPEntry.address).contains entry.address)

/-- Every changed destination is now reached through the sender, at one more than the cost of the
last entry that changed it. -/
def Learned (table : RoutingTable) (src : Addr) (updated : List RIPEntry) : Prop :=
  ∀ entry ∈ updated, ∃ e, table.checkRoute entry.address = some e ∧ e.nextHop = src ∧
    ∃ last ∈ updated, last.address = entry.address ∧ e.cost = last.cost + 1

section Receiving

/-- The first entry, then as much of the rest as the loop comes to. -/
theorem receiveEntries_tail (own : List Addr) (now : ℕ) (src : Addr) (r : Router)
    (newEntry : RIPEntry) (entries : List RIPEntry) :
    ∃ tail, (tail = entries ∨ tail = []) ∧
      (r.receiveEntries own now src (newEntry :: entries)).router =
        ((r.receiveEntry own now src newEntry).1.receiveEntries own now src tail).router ∧
      (r.receiveEntries own now src (newEntry :: entries)).updatedEntries =
        (if (verdict r.table src newEntry).changed then [newEntry] else []) ++
          ((r.receiveEntry own now src newEntry).1.receiveEntries own now src
            tail).updatedEntries := by
  simp only [Router.receiveEntries]
  generalize r.receiveEntry own now src newEntry = out
  obtain ⟨r', _ | _⟩ := out
  · exact ⟨[], Or.inr rfl, rfl, (List.append_nil _).symm⟩
  · exact ⟨entries, Or.inl rfl, rfl, rfl⟩

/-- An entry from the next hop of a route leaves it as it is, or at its own cost. -/
theorem checkRoute_receiveEntry_via (own : List Addr) (now : ℕ) (newEntry : RIPEntry)
    {e : RoutingTableEntry} (he : r.table.checkRoute dest = some e) (hhop : e.nextHop = src) :
    ∃ e', (r.receiveEntry own now src newEntry).1.table.checkRoute dest = some e' ∧
      e'.nextHop = src ∧ (e'.cost = e.cost ∨
        (verdict r.table src newEntry).changed = true ∧ newEntry.address = dest ∧
          e'.cost = newEntry.cost + 1) := by
  by_cases haddr : newEntry.address = dest
  · subst haddr
    rw [receiveEntry_table]
    by_cases hc : (verdict r.table src newEntry).changed = true
    · obtain ⟨e', he', hcost, hhop'⟩ := checkRoute_changed now hc
      exact ⟨e', he', hhop', Or.inr ⟨hc, rfl, hcost⟩⟩
    · refine ⟨e, ?_, hhop, Or.inl rfl⟩
      cases hv : verdict r.table src newEntry <;> rw [hv] at hc
      · exact he
      · exact absurd rfl hc
      · exact absurd rfl hc
      · exact he
  · rw [checkRoute_receiveEntry_of_ne haddr]
    exact ⟨e, he, hhop, Or.inl rfl⟩

/-- A route through the sender keeps its cost along a message, or ends at that of the last entry
that changed it. -/
theorem checkRoute_receiveEntries_via (own : List Addr) (now : ℕ) (entries : List RIPEntry)
    {e : RoutingTableEntry} (he : r.table.checkRoute dest = some e) (hhop : e.nextHop = src) :
    ∃ e', (r.receiveEntries own now src entries).router.table.checkRoute dest = some e' ∧
      e'.nextHop = src ∧ (e'.cost = e.cost ∨
        ∃ last ∈ (r.receiveEntries own now src entries).updatedEntries,
          last.address = dest ∧ e'.cost = last.cost + 1) := by
  induction entries generalizing r e with
  | nil => exact ⟨e, he, hhop, Or.inl rfl⟩
  | cons newEntry entries ih =>
    obtain ⟨tail, htail, hrouter, hupdated⟩ := receiveEntries_tail own now src r newEntry entries
    obtain ⟨e₁, he₁, hhop₁, hcost₁⟩ := checkRoute_receiveEntry_via own now newEntry he hhop
    have hrest : ∃ e', ((r.receiveEntry own now src newEntry).1.receiveEntries own now src
        tail).router.table.checkRoute dest = some e' ∧ e'.nextHop = src ∧ (e'.cost = e₁.cost ∨
          ∃ last ∈ ((r.receiveEntry own now src newEntry).1.receiveEntries own now src
            tail).updatedEntries, last.address = dest ∧ e'.cost = last.cost + 1) := by
      rcases htail with rfl | rfl
      · exact ih he₁ hhop₁
      · exact ⟨e₁, he₁, hhop₁, Or.inl rfl⟩
    obtain ⟨e', he', hhop', hcost⟩ := hrest
    rw [hrouter, hupdated]
    refine ⟨e', he', hhop', ?_⟩
    rcases hcost with hsame | ⟨last, hlast, haddr, hcost⟩
    · rcases hcost₁ with hkept | ⟨hc, haddr, hcost⟩
      · exact Or.inl (hsame.trans hkept)
      · exact Or.inr ⟨newEntry, by simp [hc], haddr, hsame.trans hcost⟩
    · exact Or.inr ⟨last, List.mem_append_right _ hlast, haddr, hcost⟩

theorem learned_receiveEntries (own : List Addr) (now : ℕ) (src : Addr) (r : Router)
    (entries : List RIPEntry) :
    Learned (r.receiveEntries own now src entries).router.table src
      (r.receiveEntries own now src entries).updatedEntries := by
  induction entries generalizing r with
  | nil => exact List.forall_mem_nil _
  | cons newEntry entries ih =>
    obtain ⟨tail, htail, hrouter, hupdated⟩ := receiveEntries_tail own now src r newEntry entries
    have hrest : Learned ((r.receiveEntry own now src newEntry).1.receiveEntries own now src
        tail).router.table src ((r.receiveEntry own now src newEntry).1.receiveEntries own now src
          tail).updatedEntries := by
      rcases htail with rfl | rfl
      · exact ih _
      · exact List.forall_mem_nil _
    rw [hrouter, hupdated]
    intro entry hentry
    rcases List.mem_append.mp hentry with hfirst | hlater
    · -- the entry changed the table, and later ones of the message may have changed it again
      by_cases hc : (verdict r.table src newEntry).changed = true
      · rw [if_pos hc, List.mem_singleton] at hfirst
        subst hfirst
        obtain ⟨e, he, hcost, hhop⟩ := checkRoute_changed now hc
        have he₁ : (r.receiveEntry own now src entry).1.table.checkRoute entry.address =
            some e := by
          rw [receiveEntry_table]
          exact he
        obtain ⟨e', he', hhop', hcost'⟩ := checkRoute_receiveEntries_via own now tail he₁ hhop
        refine ⟨e', he', hhop', ?_⟩
        rcases hcost' with hsame | ⟨last, hlast, haddr, hcost'⟩
        · exact ⟨entry, by simp [hc], rfl, hsame.trans hcost⟩
        · exact ⟨last, List.mem_append_right _ hlast, haddr, hcost'⟩
      · rw [if_neg hc] at hfirst
        cases hfirst
    · obtain ⟨e, he, hhop, last, hlast, haddr, hcost⟩ := hrest entry hlater
      exact ⟨e, he, hhop, last, List.mem_append_right _ hlast, haddr, hcost⟩

end Receiving

section Sending

/-- An entry with its cost at infinity. -/
def RIPEntry.poisoned (entry : RIPEntry) : RIPEntry := { entry with cost := infinity }

/-- All changed destinations have the sender as next hop: they are poisoned for it together. -/
theorem poisonEntries_eq
    (h : ∀ entry ∈ entriesToSend, ∃ e, table.checkRoute entry.address = some e ∧ e.nextHop = src) :
    poisonEntries table neighbor entriesToSend =
      if src = neighbor then entriesToSend.map RIPEntry.poisoned else entriesToSend := by
  unfold poisonEntries
  split
  · rename_i hsrc
    apply List.map_congr_left
    intro entry hentry
    obtain ⟨e, he, hhop⟩ := h entry hentry
    simp only [he, if_pos (hhop.trans hsrc), RIPEntry.poisoned]
  · rename_i hsrc
    conv_rhs => rw [← List.map_id entriesToSend]
    apply List.map_congr_left
    intro entry hentry
    obtain ⟨e, he, hhop⟩ := h entry hentry
    simp only [he, hhop, if_neg hsrc, id]

/-- From the sender on, every neighbour is sent the poisoned list; those before it are sent the
entries as they were received. -/
theorem sendTriggeredUpdates_cases
    (h : ∀ entry ∈ entriesToSend, ∃ e, table.checkRoute entry.address = some e ∧ e.nextHop = src)
    (hu : u ∈ sendTriggeredUpdates table neighbors entriesToSend) :
    u.2 = entriesToSend.map RIPEntry.poisoned ∨ u.1 ≠ src ∧ u.2 = entriesToSend := by
  induction neighbors generalizing entriesToSend with
  | nil => cases hu
  | cons neighbor neighbors ih =>
    simp only [sendTriggeredUpdates, poisonEntries_eq h] at hu
    by_cases hsrc : src = neighbor
    · have hpoisoned : ∀ entry ∈ entriesToSend.map RIPEntry.poisoned,
          ∃ e, table.checkRoute entry.address = some e ∧ e.nextHop = src := by
        intro entry hentry
        obtain ⟨entry₀, hentry₀, rfl⟩ := List.mem_map.mp hentry
        exact h entry₀ hentry₀
      rw [if_pos hsrc] at hu
      left
      rcases List.mem_cons.mp hu with rfl | hu
      · rfl
      · rcases ih hpoisoned hu with htwice | ⟨-, honce⟩
        · rw [htwice, List.map_map]
          rfl
        · exact honce
    · rw [if_neg hsrc] at hu
      rcases List.mem_cons.mp hu with rfl | hu
      · exact Or.inr ⟨fun heq => hsrc heq.symm, rfl⟩
      · exact ih h hu

end Sending

/-- `GetSpecificEntries` names each destination once. -/
theorem nodup_getSpecificEntries (hrange : Ranges table range) :
    ((getSpecificEntries range neighbor).map RIPEntry.address).Nodup := by
  have hkeys : (range.map Sigma.fst).Nodup := by
    have hperm : (range.map Sigma.fst).Perm (table.entries.map Sigma.fst) := List.Perm.map _ hrange
    exact hperm.nodup_iff.mpr table.nodupKeys
  refine hkeys.sublist ?_
  clear hkeys hrange
  unfold getSpecificEntries
  induction range with
  | nil => exact List.Sublist.slnil
  | cons d range ih =>
    by_cases hinf : d.2.cost = infinity
    · simp only [List.filterMap_cons, if_pos hinf]
      exact ih.cons _
    · simp only [List.filterMap_cons, if_neg hinf]
      exact ih.cons_cons _

/-- What the periodic update says of a route that was just learned. -/
theorem mem_specific_iff (hrange : Ranges table range) (entry : RIPEntry) {e : RoutingTableEntry}
    (he : table.checkRoute entry.address = some e) :
    entry ∈ getSpecificEntries range neighbor ↔
      e.cost ≠ infinity ∧ entry.mask = fullMask ∧
        entry.cost = if e.nextHop = neighbor then infinity else e.cost := by
  rw [mem_getSpecificEntries hrange]
  constructor
  · rintro ⟨destination, e', he', hcost, rfl⟩
    cases he.symm.trans he'
    exact ⟨hcost, rfl, rfl⟩
  · rintro ⟨hcost, hmask, hsays⟩
    exact ⟨entry.address, e, he, hcost, by rw [← hsays, ← hmask]⟩

/-- The entries as they were received are one short of the table. -/
theorem not_tellsTruth_received (hrange : Ranges table range) (hlearned : Learned table src updated)
    (hne : u.1 ≠ src) (hu : u.2 = updated) (hupdated : updated ≠ []) :
    ¬ TellsTruth range updated u := by
  intro htruth
  obtain ⟨entry, hentry⟩ := List.exists_mem_of_ne_nil updated hupdated
  obtain ⟨e, he, hhop, last, hlast, haddr, hcost⟩ := hlearned entry hentry
  rw [← haddr] at he
  have hmem := List.mem_of_mem_filter (htruth.mem_iff.mp (hu ▸ hlast))
  obtain ⟨-, -, hsays⟩ := (mem_specific_iff hrange last he).mp hmem
  rw [if_neg (fun hsrc => hne (hsrc.symm.trans hhop)), hcost] at hsays
  exact absurd hsays (by bv_omega)

/-- The poisoned list is right only for the sender. -/
theorem tellsTruth_poisoned_iff (hrange : Ranges table range) (hlearned : Learned table src updated)
    (hu : u.2 = updated.map RIPEntry.poisoned) (hupdated : updated ≠ []) :
    TellsTruth range updated u ↔
      u.1 = src ∧ (updated.map RIPEntry.address).Nodup ∧
        ∀ entry ∈ updated, entry.mask = fullMask ∧
          ∀ e, table.checkRoute entry.address = some e → e.cost ≠ infinity := by
  have haddrs : u.2.map RIPEntry.address = updated.map RIPEntry.address := by
    rw [hu, List.map_map]
    rfl
  constructor
  · intro htruth
    have hmem : ∀ entry ∈ updated, ∀ e, table.checkRoute entry.address = some e →
        e.cost ≠ infinity ∧ entry.mask = fullMask ∧
          infinity = if e.nextHop = u.1 then infinity else e.cost := by
      intro entry hentry e he
      have hspecific : entry.poisoned ∈ getSpecificEntries range u.1 :=
        List.mem_of_mem_filter (htruth.mem_iff.mp (hu ▸ List.mem_map_of_mem hentry))
      exact (mem_specific_iff hrange entry.poisoned he).mp hspecific
    refine ⟨?_, ?_, ?_⟩
    · obtain ⟨entry, hentry⟩ := List.exists_mem_of_ne_nil updated hupdated
      obtain ⟨e, he, hhop, -⟩ := hlearned entry hentry
      obtain ⟨hcost, -, hsays⟩ := hmem entry hentry e he
      by_contra hne
      rw [if_neg (fun hsrc => hne (hsrc.symm.trans hhop))] at hsays
      exact hcost hsays.symm
    · rw [← haddrs, (htruth.map RIPEntry.address).nodup_iff]
      exact (nodup_getSpecificEntries hrange).sublist (List.filter_sublist.map _)
    · intro entry hentry
      obtain ⟨e, he, -⟩ := hlearned entry hentry
      exact ⟨(hmem entry hentry e he).2.1, fun e he => (hmem entry hentry e he).1⟩
  · rintro ⟨hsrc, hnodup, hall⟩
    have hnodup₁ : u.2.Nodup := (haddrs ▸ hnodup).of_map
    have hnodup₂ : (getSpecificEntries range u.1).Nodup := (nodup_getSpecificEntries hrange).of_map
    refine (List.perm_ext_iff_of_nodup hnodup₁ (hnodup₂.filter _)).mpr ?_
    intro entry
    rw [hu, List.mem_filter, List.mem_map, List.contains_iff_mem, List.mem_map]
    constructor
    · rintro ⟨entry, hentry, rfl⟩
      obtain ⟨e, he, hhop, -⟩ := hlearned entry hentry
      refine ⟨(mem_specific_iff hrange entry.poisoned he).mpr ?_, entry, hentry, rfl⟩
      rw [hhop, if_pos hsrc.symm]
      exact ⟨(hall entry hentry).2 e he, (hall entry hentry).1, rfl⟩
    · rintro ⟨hspecific, entry', hentry', haddr⟩
      obtain ⟨e, he, hhop, -⟩ := hlearned entry' hentry'
      rw [haddr] at he
      obtain ⟨-, hmask, hsays⟩ := (mem_specific_iff hrange entry he).mp hspecific
      rw [hhop, if_pos hsrc.symm] at hsays
      refine ⟨entry', hentry', ?_⟩
      unfold RIPEntry.poisoned
      rw [← hsays, haddr, (hall entry' hentry').1, ← hmask]

/-- The list for a neighbour is right exactly when nothing changed, or the neighbour is the sender
of the message, no destination was changed twice, and all of them are usable and had the full
mask. -/
theorem tellsTruth_iff (own : List Addr) (now : ℕ) (r : Router) (src : Addr) (data : List U8)
    (neighbors : List Addr) (range : List (Σ _ : Addr, RoutingTableEntry))
    (u : Addr × List RIPEntry)
    (hrange : Ranges (r.receivePacket own now src data).router.table range)
    (hu : u ∈ sendTriggeredUpdates (r.receivePacket own now src data).router.table neighbors
      (r.receivePacket own now src data).updatedEntries) :
    let receipt := r.receivePacket own now src data
    TellsTruth range receipt.updatedEntries u ↔
      receipt.updatedEntries = [] ∨
        u.1 = src ∧ (receipt.updatedEntries.map RIPEntry.address).Nodup ∧
          ∀ entry ∈ receipt.updatedEntries, entry.mask = fullMask ∧
            ∀ e, receipt.router.table.checkRoute entry.address = some e → e.cost ≠ infinity := by
  intro receipt
  have hlearned : Learned receipt.router.table src receipt.updatedEntries :=
    learned_receiveEntries own now src r (decode data).entries
  have hthrough : ∀ entry ∈ receipt.updatedEntries,
      ∃ e, receipt.router.table.checkRoute entry.address = some e ∧ e.nextHop = src := by
    intro entry hentry
    obtain ⟨e, he, hhop, -⟩ := hlearned entry hentry
    exact ⟨e, he, hhop⟩
  have hcases := sendTriggeredUpdates_cases hthrough hu
  by_cases hupdated : receipt.updatedEntries = []
  · refine iff_of_true ?_ (Or.inl hupdated)
    have hnil : u.2 = [] := by
      rw [hupdated] at hcases
      rcases hcases with hpoisoned | ⟨-, hreceived⟩
      · exact hpoisoned
      · exact hreceived
    simp [TellsTruth, hupdated, hnil]
  · rw [or_iff_right hupdated]
    rcases hcases with hpoisoned | ⟨hne, hreceived⟩
    · exact tellsTruth_poisoned_iff hrange hlearned hpoisoned hupdated
    · exact iff_of_false (not_tellsTruth_received hrange hlearned hne hreceived hupdated)
        fun hright => hne hright.1

/-- Neighbour 2 tells node 1 of address 5, at cost 1. -/
def newsOfFive : Router.Receipt :=
  (initRoutingTable [1]).receivePacket [1] 0 2
    (stripAddress (sendUpdatesMessage 1 [⟨1, 5, fullMask⟩]))

theorem tellsTruth_iff_newsOfFive :
    (2, [⟨infinity, 5, fullMask⟩]) ∈
        sendTriggeredUpdates newsOfFive.router.table [4, 2] newsOfFive.updatedEntries ∧
      TellsTruth newsOfFive.router.table.entries newsOfFive.updatedEntries
        (2, [⟨infinity, 5, fullMask⟩]) := by
  have hmem : (2, [⟨infinity, 5, fullMask⟩]) ∈
      sendTriggeredUpdates newsOfFive.router.table [4, 2] newsOfFive.updatedEntries := by decide
  exact ⟨hmem, (tellsTruth_iff [1] 0 (initRoutingTable [1]) 2 _ [4, 2] _ _ Ranges.refl hmem).mpr
    (Or.inr ⟨rfl, by decide, by decide⟩)⟩

/-- The route to address 5 costs 2. Neighbour 4 is told 1 where it comes before the sender, and
infinity where it comes after it. -/
theorem triggered_updates_differ :
    newsOfFive.router.table.checkRoute 5 = some ⟨2, 2, 1⟩ ∧
      sendTriggeredUpdates newsOfFive.router.table [4, 2] newsOfFive.updatedEntries =
        [(4, [⟨1, 5, fullMask⟩]), (2, [⟨infinity, 5, fullMask⟩])] ∧
      sendTriggeredUpdates newsOfFive.router.table [2, 4] newsOfFive.updatedEntries =
        [(2, [⟨infinity, 5, fullMask⟩]), (4, [⟨infinity, 5, fullMask⟩])] ∧
      ¬ ∀ (own : List Addr) (now : ℕ) (r : Router) (src : Addr) (data : List U8)
        (neighbors : List Addr) (range : List (Σ _ : Addr, RoutingTableEntry))
        (u : Addr × List RIPEntry), Ranges (r.receivePacket own now src data).router.table range →
          u ∈ sendTriggeredUpdates (r.receivePacket own now src data).router.table neighbors
            (r.receivePacket own now src data).updatedEntries →
          TellsTruth range (r.receivePacket own now src data).updatedEntries u := by
  refine ⟨by decide, by decide, by decide, ?_⟩
  intro hall
  have htruth : TellsTruth newsOfFive.router.table.entries newsOfFive.updatedEntries
      (4, [⟨1, 5, fullMask⟩]) :=
    hall [1] 0 (initRoutingTable [1]) 2 _ [4, 2] _ _ Ranges.refl (by decide)
  exact absurd (htruth.mem_iff.mp (List.mem_singleton_self _)) (by decide)

end TcpIp.Ip
