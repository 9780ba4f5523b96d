import MctraderData.RetryQueue.Durability

/-!
# mctrader-data — the retry queue as its callers see it

The uploader only appends to the queue and reads the answer. For it the queue is
a list of items with a floor: `Backlog`. This module states what an `enqueue` call
that is not interrupted does to the store, and that it is the `Backlog.enqueue`
of the store's items.

## Results

* `enqueue_refines_backlog` — from any reachable state with no `enqueue` running,
  the steps of one call refine `Backlog.enqueue`.
-/

namespace MctraderData.RetryQueue

open Lib

variable {C : Type} [Blob C]

/-- The items the queue holds, oldest first, and its floor. -/
structure Backlog (C : Type) [Blob C] where
  items : List (Item C)
  hardFloor : Nat

/-- `RetryQueue.enqueue` on the items: refuse at the floor, append below it. -/
def Backlog.enqueue (q : Backlog C) (item : Item C) : EnqueueStatus × Backlog C :=
  if q.hardFloor ≤ q.items.length then (.hardFloorBlocked, q)
  else (.ok, { q with items := q.items ++ [item] })

/-- The items of a store: its rows with the payloads they name. -/
def Store.items (S : Store C) : List (Item C) :=
  S.rows.filterMap fun r => (S.payloads.lookup r.payloadFile).map r.item

def Store.backlog (cfg : Config) (S : Store C) : Backlog C := ⟨S.items, cfg.hardFloor⟩

/-- The steps of one uninterrupted `enqueue` call. -/
def enqueueSteps (cfg : Config) (rows : List (Row C)) (item : Item C)
    (itemId : String) (ts : Nat) : List (Action C) :=
  match (enqueueEntry cfg rows item).2 with
  | .demote _ => [.enqueue item, .quarantineOldest, .savePayload itemId, .insertRow ts,
      .enqueueReturns]
  | .save _ => [.enqueue item, .savePayload itemId, .insertRow ts, .enqueueReturns]
  | _ => [.enqueue item]

/-! ## what each step does to the items -/

variable {S : Store C}

/-- A store in which every row has its payload has one item per row. -/
theorem Store.items_length (h : ∀ r ∈ S.rows, (S.payloads.lookup r.payloadFile).isSome) :
    S.items.length = S.rows.length := by
  refine List.filterMap_length_eq_length.mpr fun r hr => ?_
  rw [Option.isSome_map]
  exact h r hr

theorem Store.items_quarantineOldest (S : Store C) :
    ({ S with rows := quarantineOldestLocked S.rows } : Store C).items = S.items := by
  have hsame := quarantineOldestLocked_same S.rows
  -- an item does not read the `state` column
  have hread : ∀ rows : List (Row C),
      (rows.filterMap fun r => (S.payloads.lookup r.payloadFile).map r.item) =
        (rows.map fun r => { r with state := .pending }).filterMap
          fun r => (S.payloads.lookup r.payloadFile).map r.item := by
    intro rows
    rw [List.filterMap_map]
    rfl
  unfold Store.items
  rw [hread (quarantineOldestLocked S.rows), hsame, ← hread]

theorem Store.items_payloads {payloads : AList fun _ : String => C}
    (h : ∀ r ∈ S.rows, payloads.lookup r.payloadFile = S.payloads.lookup r.payloadFile) :
    ({ S with payloads := payloads } : Store C).items = S.items := by
  refine List.filterMap_congr fun r hr => ?_
  rw [h r hr]

variable {itemId : String}

theorem Store.items_insertRow {item : Item C} {ts : Nat}
    (h : S.payloads.lookup (payloadFilename itemId) = some item.data) :
    ({ S with rows := S.rows ++ [newRow item itemId ts] } : Store C).items =
      S.items ++ [item] := by
  unfold Store.items
  simp [newRow, h, Row.item]

/-! ## refinement -/

variable {cfg : Config} {s : St C}

/-- The part of the call after the threshold check: payload, row, return. -/
theorem run_saveSteps (item : Item C) (ts : Nat) (hsave : s.enq = .save item)
    (hOk : StoreOk cfg s) (hfresh : itemId ∉ s.issued) :
    ∃ s', (machine C cfg).run s [.savePayload itemId, .insertRow ts, .enqueueReturns] = some s' ∧
      s'.store.items = s.store.items ++ [item] ∧
      s'.store.rows = s.store.rows ++ [newRow item itemId ts] := by
  refine ⟨{ s with
    store :=
      { rows := s.store.rows ++ [newRow item itemId ts]
        payloads := s.store.payloads.insert (payloadFilename itemId) item.data }
    enq := .idle
    issued := itemId :: s.issued
    inserted := itemId :: s.inserted
    acked := (itemId, item) :: s.acked }, ?_, ?_, rfl⟩
  · simp [Machine.run, machine, step, stepEnqueue, hsave, hfresh]
  · have hpay : ∀ r ∈ s.store.rows,
        (s.store.payloads.insert (payloadFilename itemId) item.data).lookup r.payloadFile =
          s.store.payloads.lookup r.payloadFile := by
      intro r hr
      rw [hOk.rowFile r hr]
      exact AList.lookup_insert_ne
        (hOk.payloadFilename_ne (hOk.not_inserted_of_fresh hfresh) hr)
    rw [← Store.items_payloads hpay]
    exact Store.items_insertRow (S := { s.store with
      payloads := s.store.payloads.insert (payloadFilename itemId) item.data })
      (AList.lookup_insert _)

/-- A call below the hard floor, up to its return: on overflow the oldest pending row is
demoted, and the new row goes behind the others. -/
theorem run_enqueueSteps (hI : StoreOk cfg s) (hidle : s.enq = .idle) (item : Item C)
    (hfloor : ¬ cfg.hardFloor ≤ s.store.rows.length) (hfresh : itemId ∉ s.issued) (ts : Nat) :
    ∃ s', (machine C cfg).run s (enqueueSteps cfg s.store.rows item itemId ts) = some s' ∧
      (enqueueEntry cfg s.store.rows item).1 = .ok ∧
      s'.store.items = s.store.items ++ [item] ∧
      s'.store.rows = (if thresholdBreached cfg s.store.rows (Blob.size item.data) = true then
        quarantineOldestLocked s.store.rows else s.store.rows) ++ [newRow item itemId ts] := by
  by_cases hthr : thresholdBreached cfg s.store.rows (Blob.size item.data) = true
  · have hentry : enqueueEntry cfg s.store.rows item = (.ok, .demote item) := by
      rw [enqueueEntry, totalActive_eq_length, if_neg hfloor, if_pos hthr]
    have hOk := storeOk_quarantineOldest (e := .save item) hI
    obtain ⟨s', hrun, hitems, hrows⟩ := run_saveSteps item ts rfl hOk hfresh
    rw [Store.items_quarantineOldest] at hitems
    rw [if_pos hthr, hentry]
    refine ⟨s', ?_, rfl, hitems, hrows⟩
    simpa [enqueueSteps, hentry, Machine.run, machine, step, stepEnqueue, hidle] using hrun
  · have hentry : enqueueEntry cfg s.store.rows item = (.ok, .save item) := by
      rw [enqueueEntry, totalActive_eq_length, if_neg hfloor, if_neg hthr]
    have hOk : StoreOk cfg { s with enq := .save item } := hI.of_store_eq rfl rfl rfl
    obtain ⟨s', hrun, hitems, hrows⟩ := run_saveSteps item ts rfl hOk hfresh
    rw [if_neg hthr, hentry]
    refine ⟨s', ?_, rfl, hitems, hrows⟩
    simpa [enqueueSteps, hentry, Machine.run, machine, step, stepEnqueue, hidle] using hrun

/-- **An uninterrupted `enqueue` is `Backlog.enqueue`**: it gives the same answer,
and the store's items after it are the backlog's. -/
theorem enqueue_refines_backlog (h : (machine C cfg).Reaches Machine.anyStep s)
    (hidle : s.enq = .idle) (item : Item C) (hfresh : itemId ∉ s.issued) (ts : Nat) :
    ∃ s', (machine C cfg).run s (enqueueSteps cfg s.store.rows item itemId ts) = some s' ∧
      ((enqueueEntry cfg s.store.rows item).1, s'.store.backlog cfg) =
        (s.store.backlog cfg).enqueue item := by
  have hI := inv_of_reaches h
  have hlen : s.store.items.length = s.store.rows.length := by
    refine Store.items_length fun r hr => ?_
    rw [hI.store.rowFile r hr]
    exact hI.store.rowPayload r hr
  unfold Backlog.enqueue Store.backlog
  rw [hlen]
  by_cases hfloor : cfg.hardFloor ≤ s.store.rows.length
  · -- refused: the call returns before its first write
    have hentry : enqueueEntry cfg s.store.rows item = (.hardFloorBlocked, .idle) := by
      unfold enqueueEntry
      rw [totalActive_eq_length, if_pos hfloor]
    refine ⟨{ s with enq := .idle }, ?_, ?_⟩
    · simp [enqueueSteps, hentry, Machine.run, machine, step, stepEnqueue, hidle]
    · rw [hentry, if_pos hfloor]
  · obtain ⟨s', hrun, hok, hitems, -⟩ := run_enqueueSteps hI.store hidle item hfloor hfresh ts
    refine ⟨s', hrun, ?_⟩
    rw [if_neg hfloor, hok, hitems]

/-- Four of ten bytes are queued. -/
def oneQueued : St String :=
  ((machine String ⟨9, 10, 9⟩).run initial
    (enqueueSteps ⟨9, 10, 9⟩ [] ⟨["k"], "four", "h"⟩ "u1" 1)).getD initial

theorem reaches_oneQueued : (machine String ⟨9, 10, 9⟩).Reaches Machine.anyStep oneQueued :=
  Machine.reaches_of_run (.init rfl)
    (l := enqueueSteps ⟨9, 10, 9⟩ [] ⟨["k"], "four", "h"⟩ "u1" 1) rfl

/-- Eight more bytes do not fit: the first row is demoted and its item stays in the backlog. -/
theorem enqueue_refines_backlog_demoting :
    ∃ s', (machine String ⟨9, 10, 9⟩).run oneQueued
        (enqueueSteps ⟨9, 10, 9⟩ oneQueued.store.rows ⟨["l"], "eight by", "i"⟩ "u2" 2) = some s' ∧
      s'.store.rows.map (fun r => (r.id, r.state)) = [("u1", .quarantined), ("u2", .pending)] ∧
      (.ok, s'.store.backlog ⟨9, 10, 9⟩) =
        (oneQueued.store.backlog ⟨9, 10, 9⟩).enqueue ⟨["l"], "eight by", "i"⟩ := by
  obtain ⟨s', hrun, hbacklog⟩ := enqueue_refines_backlog reaches_oneQueued rfl
    ⟨["l"], "eight by", "i"⟩ (show "u2" ∉ oneQueued.issued by decide) 2
  refine ⟨s', hrun, ?_, hbacklog⟩
  cases hrun
  rfl

end MctraderData.RetryQueue
