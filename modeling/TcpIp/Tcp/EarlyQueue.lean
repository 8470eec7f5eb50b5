import TcpIp.Lib.Run
import TcpIp.Lib.Slice
import TcpIp.Tcp.Tcb

/-! The queue of early arrivals as the slice it is kept in, and the order of its entries. -/
namespace TcpIp

open Runs Slices

/-- `EarlyArrivalQueue`, with the memory that holds the array of its slice. -/
structure EarlyArrivals where
  mem : Store EarlyArrivalEntry
  slice : Slice

namespace EarlyArrivals

def entries (q : EarlyArrivals) : List EarlyArrivalEntry := q.slice.read q.mem

/-- `Init` makes a new array without a cell. -/
def init (mem : Store EarlyArrivalEntry) : EarlyArrivals :=
  ⟨{ mem with next := mem.next + 1 }, ⟨mem.next, 0, 0, 0, le_rfl⟩⟩

/-- `none` where the index panics. -/
def peek (q : EarlyArrivals) : Option EarlyArrivalEntry :=
  if 0 < q.slice.len then some (q.mem.cells q.slice.array q.slice.offset) else none

def pop (q : EarlyArrivals) : Option (EarlyArrivalEntry × EarlyArrivals) :=
  q.peek.bind fun poppedEntry =>
    (q.slice.sub 1 q.slice.len).map fun rest => (poppedEntry, { q with slice := rest })

/-- The search of `Push`: the first entry that starts where the new one has ended. -/
def insertIndex (q : EarlyArrivals) (newEntry : EarlyArrivalEntry) : Option ℕ :=
  q.entries.findIdx? fun e => newEntry.sequenceNum + newEntry.payloadLen ≤ e.sequenceNum

/-- The entries from the index on are appended to those up to and with it, over themselves where
the array has room. -/
def push (q : EarlyArrivals) (newEntry : EarlyArrivalEntry) (spare : ℕ) : Option EarlyArrivals :=
  match q.insertIndex newEntry with
  | some i =>
    (q.slice.sub 0 (i + 1)).bind fun beginning =>
      (q.slice.sub i q.slice.len).map fun rest =>
        let r := beginning.append q.mem (rest.read q.mem) spare
        ⟨r.2.set r.1 i newEntry, r.2⟩
  | none =>
    let r := q.slice.append q.mem [newEntry] spare
    some ⟨r.1, r.2⟩

end EarlyArrivals

section Refinement

variable {q q' : EarlyArrivals} {l : List EarlyArrivalEntry} {e newEntry : EarlyArrivalEntry}

@[simp] theorem entries_init (mem : Store EarlyArrivalEntry) :
    (EarlyArrivals.init mem).entries = [] := rfl

/-- The insertion by its index. -/
theorem push_eq (l : List EarlyArrivalEntry) (newEntry : EarlyArrivalEntry) :
    EarlyArrivalQueue.push l newEntry =
      match l.findIdx? fun e => newEntry.sequenceNum + newEntry.payloadLen ≤ e.sequenceNum with
      | some i => l.take i ++ newEntry :: l.drop i
      | none => l ++ [newEntry] := by
  induction l with
  | nil => rfl
  | cons a rest ih =>
    unfold EarlyArrivalQueue.push
    rw [List.findIdx?_cons]
    by_cases ha : newEntry.sequenceNum + newEntry.payloadLen ≤ a.sequenceNum
    · simp [ha]
    · simp only [if_neg ha, ih, decide_eq_true_eq]
      cases rest.findIdx? fun e => newEntry.sequenceNum + newEntry.payloadLen ≤ e.sequenceNum with
      | none => rfl
      | some i => rfl

/-- `Push` on the slice is the insertion into the list of its entries. -/
theorem push_entries (q : EarlyArrivals) (newEntry : EarlyArrivalEntry) (spare : ℕ) :
    ∃ q', q.push newEntry spare = some q' ∧
      q'.entries = EarlyArrivalQueue.push q.entries newEntry := by
  have hlen : q.entries.length = q.slice.len := Slice.length_read
  rw [push_eq]
  unfold EarlyArrivals.push EarlyArrivals.insertIndex
  cases hidx : q.entries.findIdx?
      fun e => newEntry.sequenceNum + newEntry.payloadLen ≤ e.sequenceNum with
  | none => exact ⟨_, rfl, Slice.read_append⟩
  | some i =>
    have hi : i < q.slice.len := by
      rw [← hlen]
      exact (List.findIdx?_eq_some_iff_getElem.mp hidx).1
    have hcap := q.slice.len_le
    have hsub := Slice.sub_eq (s := q.slice) (Nat.zero_le (i + 1)) (by omega)
    have hrest := Slice.sub_eq (s := q.slice) hi.le hcap
    refine ⟨_, by simp only [hsub, hrest, Option.bind_some, Option.map_some]; rfl, ?_⟩
    simp only [EarlyArrivals.entries]
    rw [Slice.read_set, Slice.read_append, Slice.read_sub hsub (by omega),
      Slice.read_sub hrest le_rfl]
    change (((q.entries.take (i + 1)).drop 0) ++ (q.entries.take q.slice.len).drop i).set i newEntry
      = q.entries.take i ++ newEntry :: q.entries.drop i
    -- index `i` is the last one of the first part
    rw [List.drop_zero, List.take_of_length_le hlen.le, List.set_append_left _ _ (by simp; omega),
      List.take_add_one, List.getElem?_eq_getElem (by omega), Option.toList_some,
      List.set_append_right _ _ (by simp)]
    simp [Nat.min_eq_left (hlen ▸ hi.le)]

theorem peek_eq (q : EarlyArrivals) : q.peek = q.entries.head? := by
  unfold EarlyArrivals.peek EarlyArrivals.entries Slice.read Ring.slots
  cases q.slice.len with
  | zero => rfl
  | succ n => simp [List.range_succ_eq_map]

/-- `Pop` takes the head of the entries. -/
theorem pop_entries (h : q.pop = some (e, q')) : q.entries = e :: q'.entries := by
  obtain ⟨e₁, hpeek, hmap⟩ := Option.bind_eq_some_iff.mp h
  obtain ⟨rest, hsub, heq⟩ := Option.map_eq_some_iff.mp hmap
  obtain ⟨rfl, rfl⟩ := Prod.mk.inj heq
  have htail : ({ q with slice := rest } : EarlyArrivals).entries = q.entries.tail := by
    unfold EarlyArrivals.entries
    rw [Slice.read_sub hsub le_rfl, List.take_of_length_le (by simp), List.drop_one]
  rw [peek_eq] at hpeek
  rw [htail]
  exact (List.cons_head?_tail hpeek).symm

end Refinement

/-- The starting sequence numbers do not go down. -/
def SortedByStart (l : List EarlyArrivalEntry) : Prop :=
  l.Pairwise fun e e' => e.sequenceNum ≤ e'.sequenceNum

/-- `e` starts behind the start of the new entry and before its end. -/
def StartsInside (newEntry e : EarlyArrivalEntry) : Prop :=
  newEntry.sequenceNum < e.sequenceNum ∧
    e.sequenceNum.toNat < newEntry.sequenceNum.toNat + newEntry.payloadLen.toNat

instance (newEntry e : EarlyArrivalEntry) : Decidable (StartsInside newEntry e) :=
  inferInstanceAs (Decidable (_ ∧ _))

section Order

variable {l : List EarlyArrivalEntry} {newEntry : EarlyArrivalEntry}

theorem push_perm (l : List EarlyArrivalEntry) (newEntry : EarlyArrivalEntry) :
    (EarlyArrivalQueue.push l newEntry).Perm (newEntry :: l) := by
  induction l with
  | nil => exact .refl _
  | cons a rest ih =>
    unfold EarlyArrivalQueue.push
    split
    · exact .refl _
    · exact (ih.cons a).trans (.swap newEntry a rest)

/-- The search compares the end of the new entry with the starts of the others, so a queue in order
stays so exactly if none of them starts inside it. -/
theorem sorted_push_iff (hsorted : SortedByStart l)
    (hsum : newEntry.sequenceNum.toNat + newEntry.payloadLen.toNat < 2 ^ 32) :
    SortedByStart (EarlyArrivalQueue.push l newEntry) ↔ ∀ e ∈ l, ¬ StartsInside newEntry e := by
  have hend : (newEntry.sequenceNum + newEntry.payloadLen).toNat =
      newEntry.sequenceNum.toNat + newEntry.payloadLen.toNat := by
    rw [BitVec.toNat_add]
    exact Nat.mod_eq_of_lt hsum
  induction l with
  | nil => simp [EarlyArrivalQueue.push, SortedByStart]
  | cons a rest ih =>
    obtain ⟨hall, hrest⟩ := List.pairwise_cons.mp hsorted
    unfold EarlyArrivalQueue.push
    split
    · rename_i hle
      rw [BitVec.le_def, hend] at hle
      -- everything from `a` on starts behind the end of the new entry
      have hbehind : ∀ e ∈ a :: rest, newEntry.sequenceNum.toNat + newEntry.payloadLen.toNat ≤
          e.sequenceNum.toNat := by
        intro e he
        rcases List.mem_cons.mp he with rfl | he
        · exact hle
        · exact hle.trans (BitVec.le_def.mp (hall e he))
      refine iff_of_true (List.pairwise_cons.mpr ⟨fun e he => ?_, hsorted⟩) fun e he hin => ?_
      · have := hbehind e he
        exact BitVec.le_def.mpr (by omega)
      · have := hbehind e he
        have := hin.2
        omega
    · rename_i hlt
      rw [BitVec.le_def, hend, Nat.not_le] at hlt
      have ha : ¬ StartsInside newEntry a ↔ a.sequenceNum ≤ newEntry.sequenceNum := by
        rw [StartsInside, not_and_or, BitVec.not_lt]
        exact or_iff_left (by omega)
      rw [List.forall_mem_cons, SortedByStart, List.pairwise_cons]
      refine and_congr ?_ (ih hrest)
      rw [ha]
      constructor
      · intro hle
        exact hle newEntry (EarlyArrivalQueue.mem_push.mpr (Or.inl rfl))
      · intro hle e he
        rcases EarlyArrivalQueue.mem_push.mp he with rfl | he
        · exact hle
        · exact hall e he

end Order

inductive QueueEvent
  | push (newEntry : EarlyArrivalEntry)
  | pop (poppedEntry : EarlyArrivalEntry)
  deriving DecidableEq

/-- One call, with the entry it is given or returns. -/
def QueueStep (q : EarlyArrivals) : QueueEvent → EarlyArrivals → Prop
  | .push newEntry, q' => ∃ spare, q.push newEntry spare = some q'
  | .pop poppedEntry, q' => q.pop = some (poppedEntry, q')

def QueueEvent.pushed : QueueEvent → Option EarlyArrivalEntry
  | .push newEntry => some newEntry
  | .pop _ => none

def QueueEvent.popped : QueueEvent → Option EarlyArrivalEntry
  | .push _ => none
  | .pop poppedEntry => some poppedEntry

def pushed (tr : List (Move EarlyArrivals QueueEvent)) : List EarlyArrivalEntry :=
  tr.filterMap fun x => x.ev.pushed

def popped (tr : List (Move EarlyArrivals QueueEvent)) : List EarlyArrivalEntry :=
  tr.filterMap fun x => x.ev.popped

/-- The entry pushed does not reach past the last sequence number. -/
def NoSumWraps (x : Move EarlyArrivals QueueEvent) : Prop :=
  ∀ newEntry ∈ x.ev.pushed, newEntry.sequenceNum.toNat + newEntry.payloadLen.toNat < 2 ^ 32

/-- No queued entry starts inside the one that is pushed. -/
def PushedApart (x : Move EarlyArrivals QueueEvent) : Prop :=
  ∀ newEntry ∈ x.ev.pushed, ∀ e ∈ x.src.entries, ¬ StartsInside newEntry e

instance : DecidablePred NoSumWraps := fun x =>
  inferInstanceAs (Decidable (∀ newEntry ∈ x.ev.pushed, _))

instance : DecidablePred PushedApart := fun x =>
  inferInstanceAs (Decidable (∀ newEntry ∈ x.ev.pushed, ∀ e ∈ x.src.entries, _))

/-- The queue is in order, holds what was pushed and not popped, and gives a least entry. -/
structure QueueRight (tr : List (Move EarlyArrivals QueueEvent)) (q : EarlyArrivals) : Prop where
  sorted : SortedByStart q.entries
  contents : (popped tr ++ q.entries).Perm (pushed tr)
  least : ∀ e, (q.peek = some e ∨ ∃ q', q.pop = some (e, q')) →
    ∀ e' ∈ q.entries, e.sequenceNum ≤ e'.sequenceNum

section Runs

variable {q q' : EarlyArrivals} {ev : QueueEvent} {tr : List (Move EarlyArrivals QueueEvent)}

theorem QueueStep.contents (hs : QueueStep q ev q')
    (h : (popped tr ++ q.entries).Perm (pushed tr)) :
    (popped (tr ++ [⟨q, ev, q'⟩]) ++ q'.entries).Perm (pushed (tr ++ [⟨q, ev, q'⟩])) := by
  cases ev with
  | push newEntry =>
    obtain ⟨spare, hs⟩ := hs
    obtain ⟨q₁, hpush, hentries⟩ := push_entries q newEntry spare
    cases hpush.symm.trans hs
    simp only [popped, pushed, QueueEvent.popped, QueueEvent.pushed, List.filterMap_append,
      List.filterMap_cons, List.filterMap_nil, List.append_nil, hentries]
    have hnew : (popped tr ++ EarlyArrivalQueue.push q.entries newEntry).Perm
        (newEntry :: (popped tr ++ q.entries)) :=
      ((push_perm _ _).append_left _).trans List.perm_middle
    exact hnew.trans ((h.cons newEntry).trans (List.perm_append_singleton _ _).symm)
  | pop poppedEntry =>
    have hq := pop_entries hs
    simpa [popped, pushed, QueueEvent.popped, QueueEvent.pushed, hq] using h

/-- The head of a queue in order is least. -/
theorem least_of_sorted (h : SortedByStart q.entries) {e : EarlyArrivalEntry}
    (he : q.peek = some e ∨ ∃ q', q.pop = some (e, q')) :
    ∀ e' ∈ q.entries, e.sequenceNum ≤ e'.sequenceNum := by
  have hhead : q.entries.head? = some e := by
    rcases he with he | ⟨q', he⟩
    · rwa [peek_eq] at he
    · rw [pop_entries he]
      rfl
  rw [← List.cons_head?_tail hhead] at h ⊢
  intro e' he'
  rcases List.mem_cons.mp he' with rfl | he'
  · exact BitVec.le_refl _
  · exact (List.pairwise_cons.mp h).1 e' he'

theorem QueueStep.sorted_iff (hs : QueueStep q ev q') (hsorted : SortedByStart q.entries)
    (hsum : NoSumWraps ⟨q, ev, q'⟩) : SortedByStart q'.entries ↔ PushedApart ⟨q, ev, q'⟩ := by
  cases ev with
  | push newEntry =>
    obtain ⟨spare, hs⟩ := hs
    obtain ⟨q₁, hpush, hentries⟩ := push_entries q newEntry spare
    cases hpush.symm.trans hs
    rw [hentries, sorted_push_iff hsorted (hsum newEntry rfl)]
    simp [PushedApart, QueueEvent.pushed]
  | pop poppedEntry =>
    rw [pop_entries hs] at hsorted
    exact iff_of_true (List.pairwise_cons.mp hsorted).2
      (by simp [PushedApart, QueueEvent.pushed])

/-- From an empty queue, the queue is right after every call exactly if no queued entry ever starts
inside one that is pushed. -/
theorem early_queue_ordered_iff (mem : Store EarlyArrivalEntry) {q : EarlyArrivals}
    {tr : List (Move EarlyArrivals QueueEvent)}
    (hr : Run QueueStep (EarlyArrivals.init mem) tr q) (hsum : ∀ x ∈ tr, NoSumWraps x) :
    Along (fun pre x => QueueRight (pre ++ [x]) x.dst) tr ↔ ∀ x ∈ tr, PushedApart x := by
  have hiff : Along (fun pre x => QueueRight (pre ++ [x]) x.dst) tr ↔
      Along (fun _ => PushedApart) tr := by
    refine hr.along_iff (H := fun _ => NoSumWraps)
      (I := fun tr q => SortedByStart q.entries ∧ (popped tr ++ q.entries).Perm (pushed tr))
      ⟨List.Pairwise.nil, .refl _⟩ (along_of_forall_mem hsum) ?_ ?_
    · intro tr q ev q' hI hs hx hC
      exact ⟨(hs.sorted_iff hI.1 hx).mpr hC, hs.contents hI.2⟩
    · intro tr q ev q' hI hs hx
      rw [← hs.sorted_iff hI.1 hx]
      exact ⟨QueueRight.sorted, fun h => ⟨h, hs.contents hI.2, fun e he => least_of_sorted h he⟩⟩
  exact hiff.trans ⟨forall_mem_of_along, along_of_forall_mem⟩

/-- A call on the queue: `Push` of an entry, or `Pop`. -/
def queueCall (q : EarlyArrivals) : Option EarlyArrivalEntry → Option (QueueEvent × EarlyArrivals)
  | some newEntry => (q.push newEntry 1).map fun q' => (.push newEntry, q')
  | none => q.pop.map fun r => (.pop r.1, r.2)

theorem queueCall_step {q q' : EarlyArrivals} {call : Option EarlyArrivalEntry} {ev : QueueEvent}
    (h : queueCall q call = some (ev, q')) : QueueStep q ev q' := by
  cases call with
  | none =>
    obtain ⟨⟨e, q₁⟩, hpop, heq⟩ := Option.map_eq_some_iff.mp h
    cases heq
    exact hpop
  | some newEntry =>
    obtain ⟨q₁, hpush, heq⟩ := Option.map_eq_some_iff.mp h
    cases heq
    exact ⟨1, hpush⟩

/-- Memory in which nothing is allocated. -/
def noArrays : Store EarlyArrivalEntry := ⟨0, fun _ _ => ⟨0, 0⟩⟩

/-- The calls on a new queue. -/
def queuePlay (calls : List (Option EarlyArrivalEntry)) :
    List (Move EarlyArrivals QueueEvent) × EarlyArrivals :=
  play queueCall (.init noArrays) calls

theorem queuePlay_run (calls : List (Option EarlyArrivalEntry)) :
    Run QueueStep (.init noArrays) (queuePlay calls).1 (queuePlay calls).2 := by
  apply play_run
  intro q call ev q' h
  exact queueCall_step h

/-- Entries that lie apart, pushed out of order. -/
theorem early_queue_ordered_iff_apart :
    let r := queuePlay [some ⟨10, 5⟩, some ⟨4, 3⟩, some ⟨7, 3⟩, none]
    r.2.entries = [⟨7, 3⟩, ⟨10, 5⟩] ∧ (∀ x ∈ r.1, NoSumWraps x) ∧
      Along (fun pre x => QueueRight (pre ++ [x]) x.dst) r.1 :=
  ⟨by decide, by decide,
    (early_queue_ordered_iff noArrays (queuePlay_run _) (by decide)).mpr (by decide)⟩

/-- Bytes 8 to 12 are put behind bytes 10 to 14, which they overlap, and 10 comes out first. -/
theorem overlapping_entry_misplaced :
    (queuePlay [some ⟨10, 5⟩, some ⟨8, 5⟩]).2.peek = some ⟨10, 5⟩ ∧
      ¬ ∀ (mem : Store EarlyArrivalEntry) (q : EarlyArrivals)
        (tr : List (Move EarlyArrivals QueueEvent)), Run QueueStep (.init mem) tr q →
        (∀ x ∈ tr, NoSumWraps x) → Along (fun pre x => QueueRight (pre ++ [x]) x.dst) tr := by
  have hpeek : (queuePlay [some ⟨10, 5⟩, some ⟨8, 5⟩]).2.peek = some ⟨10, 5⟩ := by decide
  refine ⟨hpeek, ?_⟩
  intro hall
  have hright := hall noArrays _ _ (queuePlay_run [some ⟨10, 5⟩, some ⟨8, 5⟩]) (by decide)
  have hlast := (hright.get ⟨1, by decide⟩).least ⟨10, 5⟩ (Or.inl hpeek) ⟨8, 5⟩ (by decide)
  exact absurd hlast (by decide)

end Runs

end TcpIp
