import Mathlib.Algebra.Order.BigOperators.Group.List
import Mathlib.Algebra.Order.Group.Nat
import MctraderData.Lib.StableSort
import MctraderData.RetryQueue.Backlog

/-!
# mctrader-data — the retry queue's byte budget and its order

On overflow `enqueue` demotes one row, however large the new payload is, and it finds
that row as `drain` finds its work: by `ORDER BY enqueue_ts`, a column written from
`time.monotonic()`. So two things a bounded FIFO promises depend on what the queue is
given.

* The pending payloads stay within `max_bytes` as long as each new payload fits beside
  the pending ones *without the oldest*.
* The rows are served in the order they were enqueued as long as no clock reading is
  below one that is already in the table. The table survives a restart of the host, the
  clock does not.

Both are invariants over whole runs. `TableStep` says once what a step of the machine
does to the table and to the rows a running `drain` still has ahead.

## Results

* `pending_within_budget`, `enqueue_within_budget_iff` — the budget over a run, and for
  one call exactly when it is kept.
* `served_in_enqueue_order` — the order over a run.
-/

namespace MctraderData.RetryQueue

open Lib

variable {C : Type} [Blob C]

/-! ## one step, seen from the table -/

/-- The row the loop body works on. -/
def DrainStage.rows : DrainStage C → List (Row C)
  | .next => []
  | .put r _ | .delete r | .unlink r => [r]

/-- The rows a running `drain` has in hand and still before it in this cycle, in the
order it offers them to the uploader. -/
def DrainPc.ahead : DrainPc C → List (Row C)
  | .idle => []
  | .loop _ todo stage _ => stage.rows ++ todo

/-- No item of a running `enqueue` waits for its INSERT. -/
def EnqPc.Settled : EnqPc C → Prop
  | .idle | .cleanup _ | .ret _ _ => True
  | .demote _ | .save _ | .insert _ _ => False

/-- The payload directory changes under no row of the table. -/
def SamePayloads (S : Store C) (payloads : AList fun _ : String => C) : Prop :=
  ∀ r ∈ S.rows,
    payloads.lookup (payloadFilename r.id) = S.payloads.lookup (payloadFilename r.id)

/-- A step of the machine. What it does to payload files without a row, to the ids handed
out and to the put history is left open. -/
inductive TableStep (cfg : Config) (s : St C) : Action C → St C → Prop where
  | enters (item : Item C) :
      TableStep cfg s (.enqueue item) { s with enq := (enqueueEntry cfg s.store.rows item).2 }
  | demotes {item : Item C} (hpc : s.enq = .demote item) :
      TableStep cfg s .quarantineOldest { s with
        store := { s.store with rows := quarantineOldestLocked s.store.rows }
        enq := .save item }
  | saves {item : Item C} {itemId : String} {payloads : AList fun _ : String => C}
      {issued : List String} (hpc : s.enq = .save item) (hpay : SamePayloads s.store payloads) :
      TableStep cfg s (.savePayload itemId) { s with
        store := { s.store with payloads := payloads }
        enq := .insert item itemId
        issued := issued }
  | inserts {item : Item C} {itemId : String} {ts : Nat} (hpc : s.enq = .insert item itemId)
      (hlook : s.store.payloads.lookup (payloadFilename itemId) = some item.data) :
      TableStep cfg s (.insertRow ts) { s with
        store := { s.store with rows := s.store.rows ++ [newRow item itemId ts] }
        enq := .ret item itemId
        inserted := itemId :: s.inserted }
  | leaves {a : Action C} {payloads : AList fun _ : String => C} {e : EnqPc C}
      {issued : List String} {acked : List (String × Item C)} (he : e.Settled)
      (hpay : SamePayloads s.store payloads) :
      TableStep cfg s a { s with
        store := { s.store with payloads := payloads }
        enq := e
        issued := issued
        acked := acked }
  | deletes {cycle : RowState} {todo : List (Row C)} {r : Row C} {stats : DrainStats}
      (hpc : s.drn = .loop cycle todo (.delete r) stats) :
      TableStep cfg s .deleteCommits { s with
        store := { s.store with rows := deleteRow s.store.rows r.id }
        drn := .loop cycle todo (.unlink r) stats }
  | walks {a : Action C} {payloads : AList fun _ : String => C} {d : DrainPc C}
      {puts : List (String × Item C × PutStatus)} (hpay : SamePayloads s.store payloads)
      (hd : d.ahead.Sublist s.drn.ahead ∨ ∃ st, d.ahead = selectState s.store.rows st) :
      TableStep cfg s a { s with
        store := { s.store with payloads := payloads }
        drn := d
        puts := puts }
  | crashes : TableStep cfg s .crash { s with enq := .idle, drn := .idle }

theorem samePayloads_self (S : Store C) : SamePayloads S S.payloads := fun _ _ => rfl

theorem ahead_drainRow (store : Store C) (cycle : RowState) (r : Row C) (rest : List (Row C))
    (stats : DrainStats) : (drainRow store cycle r rest stats).ahead.Sublist (r :: rest) := by
  unfold drainRow
  split
  · exact List.sublist_cons_self r rest
  · exact List.Sublist.refl _

variable {cfg : Config} {s : St C} {s' : St C} {a : Action C}

/-- **Every step is a `TableStep`.** -/
theorem tableStep_of_step (hI : Inv cfg s) (h : step cfg s a = some s') : TableStep cfg s a s' := by
  have hEnq := hI.enq
  have hDrn := hI.drn
  unfold EnqOk at hEnq
  unfold DrainOk at hDrn
  cases queueStep_of_step h with
  | enqueue item hpc => exact .enters item
  | quarantineOldest hpc => exact .demotes hpc
  | @savePayload item itemId hpc hfresh =>
    exact .saves hpc fun r hr =>
      hI.store.lookup_insert_new (hI.store.not_inserted_of_fresh hfresh) item.data hr
  | savePayloadRaises partialData hpc hfresh =>
    exact .leaves trivial fun r hr =>
      hI.store.lookup_leftBehind (hI.store.not_inserted_of_fresh hfresh) partialData hr
  | insertRow ts hpc =>
    rw [hpc] at hEnq
    exact .inserts hpc hEnq.2.2.2
  | insertRaises hpc => exact .leaves trivial (samePayloads_self _)
  | cleanupPayload unlinked hpc =>
    rw [hpc] at hEnq
    exact .leaves trivial fun r hr => hI.store.lookup_cleanup hEnq.1 unlinked hr
  | enqueueReturns hpc => exact .leaves trivial (samePayloads_self _)
  | drain hpc => exact .walks (samePayloads_self _) (Or.inr ⟨.pending, rfl⟩)
  | drainRow hpc =>
    refine .walks (samePayloads_self _) (Or.inl ?_)
    rw [hpc]
    exact ahead_drainRow ..
  | secondCycle hpc => exact .walks (samePayloads_self _) (Or.inr ⟨.quarantined, rfl⟩)
  | drainEnds => exact .walks (samePayloads_self _) (Or.inl (List.nil_sublist _))
  | putReturns status hpc =>
    refine .walks (samePayloads_self _) (Or.inl ?_)
    rw [hpc]
    split
    · exact List.sublist_cons_self ..
    · exact List.Sublist.refl _
  | deleteCommits hpc => exact .deletes hpc
  | unlinkPayload hpc =>
    rw [hpc] at hDrn
    obtain ⟨-, hsnap, hgone⟩ := hDrn
    refine .walks (fun r' hr' => hsnap.lookup_unlink (hgone r' hr')) (Or.inl ?_)
    rw [hpc]
    exact List.sublist_cons_self ..
  | rowFails hpc =>
    refine .walks (samePayloads_self _) (Or.inl ?_)
    rw [hpc]
    exact List.sublist_append_right ..
  | crash => exact .crashes

/-- **Invariant rule**: a predicate kept by every `TableStep` out of a state that meets
`Inv` holds in every state of a guarded run. -/
theorem invariant_of_tableStep {g : St C → Action C → Prop} {I : St C → Prop} (hInit : I initial)
    (hStep : ∀ s a s', Inv cfg s → I s → g s a → TableStep cfg s a s' → I s')
    (h : (machine C cfg).Reaches g s) : Inv cfg s ∧ I s := by
  refine h.invariant (I := fun s => Inv cfg s ∧ I s) ?_ ?_
  · rintro s rfl
    exact ⟨initial_inv cfg, hInit⟩
  · rintro s a s' ⟨hI, hP⟩ hg hstep
    exact ⟨step_inv hI hstep, hStep s a s' hI hP hg (tableStep_of_step hI hstep)⟩

/-! ## the `payload_bytes` column -/

/-- The total size of the payloads of the pending rows, as they are on disk. -/
def Store.pendingBytes (S : Store C) : Nat :=
  ((S.rows.filter (·.state = .pending)).map fun r =>
    ((S.payloads.lookup r.payloadFile).map Blob.size).getD 0).sum

/-- `SELECT COALESCE(SUM(payload_bytes), 0) … WHERE state='pending'` -/
def pendingColumn (rows : List (Row C)) : Nat :=
  ((rows.filter (·.state = .pending)).map (·.payloadBytes)).sum

/-- The column holds the size of the payload file. -/
def SizesOk (S : Store C) : Prop :=
  ∀ r ∈ S.rows, ∃ data, S.payloads.lookup (payloadFilename r.id) = some data ∧
    Blob.size data = r.payloadBytes

theorem SizesOk.of_payloads {S : Store C} {payloads : AList fun _ : String => C}
    (h : SizesOk S) (hpay : SamePayloads S payloads) :
    SizesOk { S with payloads := payloads } := by
  intro r hr
  obtain ⟨data, hlook, hsize⟩ := h r hr
  exact ⟨data, (hpay r hr).trans hlook, hsize⟩

variable {rows : List (Row C)}

theorem SizesOk.of_rows {S : Store C} (h : SizesOk S)
    (hrows : ∀ r ∈ rows, ∃ r' ∈ S.rows, r'.id = r.id ∧ r'.payloadBytes = r.payloadBytes) :
    SizesOk { S with rows := rows } := by
  intro r hr
  obtain ⟨r', hr', hid, hbytes⟩ := hrows r hr
  rw [← hid, ← hbytes]
  exact h r' hr'

theorem tableStep_sizes (h : SizesOk s.store) (hstep : TableStep cfg s a s') :
    SizesOk s'.store := by
  cases hstep with
  | enters item => exact h
  | demotes hpc =>
    refine h.of_rows fun r hr => ?_
    have hsame := (quarantineOldestLocked_same s.store.rows).map_eq
      (fun r => (r.id, r.payloadBytes)) fun _ => rfl
    have hmem : (r.id, r.payloadBytes) ∈ s.store.rows.map fun r => (r.id, r.payloadBytes) := by
      rw [← hsame]
      exact List.mem_map_of_mem hr
    obtain ⟨r', hr', heq⟩ := List.mem_map.mp hmem
    exact ⟨r', hr', congrArg Prod.fst heq, congrArg Prod.snd heq⟩
  | saves hpc hpay => exact h.of_payloads hpay
  | inserts hpc hlook =>
    intro r hr
    rcases List.mem_append.mp hr with hr | hr
    · exact h r hr
    · rw [List.mem_singleton.mp hr]
      exact ⟨_, hlook, rfl⟩
  | leaves he hpay => exact h.of_payloads hpay
  | deletes hpc => exact h.of_rows fun r hr => ⟨r, List.mem_of_mem_filter hr, rfl, rfl⟩
  | walks hpay hd => exact h.of_payloads hpay
  | crashes => exact h

/-- The sum the code reads off the table is the size of the pending payloads. -/
theorem pendingBytes_eq_column (hI : Inv cfg s) (h : SizesOk s.store) :
    s.store.pendingBytes = pendingColumn s.store.rows := by
  unfold Store.pendingBytes pendingColumn
  congr 1
  refine List.map_congr_left fun r hr => ?_
  have hmem := List.mem_of_mem_filter hr
  obtain ⟨data, hlook, hsize⟩ := h r hmem
  rw [hI.store.rowFile r hmem, hlook]
  exact hsize

/-! ## the byte budget -/

/-- The bytes of the pending rows without the oldest: what is left beside a new payload
after an overflow. -/
def bytesBehindOldest (rows : List (Row C)) : Nat :=
  ((selectState rows .pending).tail.map (·.payloadBytes)).sum

section

variable (rows : List (Row C))

theorem selectState_perm (st : RowState) :
    (selectState rows st).Perm (rows.filter (·.state = st)) :=
  List.perm_insertionSort _ _

theorem pendingColumn_eq_select :
    pendingColumn rows = ((selectState rows .pending).map (·.payloadBytes)).sum :=
  (((selectState_perm rows .pending).map _).sum_eq).symm

theorem bytesBehindOldest_le : bytesBehindOldest rows ≤ pendingColumn rows := by
  rw [pendingColumn_eq_select]
  exact ((List.tail_sublist _).map _).sum_le_sum fun _ _ => Nat.zero_le _

/-- The pending rows after the UPDATE are those before it without the demoted id. -/
theorem filter_setQuarantined (i : String) :
    (setQuarantined rows i).filter (·.state = .pending) =
      (rows.filter (·.state = .pending)).filter (·.id ≠ i) := by
  induction rows with
  | nil => rfl
  | cons r rest ih =>
    unfold setQuarantined at ih ⊢
    rw [List.map_cons, List.filter_cons, List.filter_cons, ih]
    by_cases hid : r.id = i <;> by_cases hst : r.state = .pending <;> simp [hid, hst]

end

/-- Only the head of the SELECT has the head's id. -/
theorem filter_ne_head {l : List (Row C)} {r : Row C}
    (hnodup : ((r :: l).map Row.id).Nodup) : (r :: l).filter (·.id ≠ r.id) = l := by
  rw [List.map_cons, List.nodup_cons] at hnodup
  rw [List.filter_cons_of_neg (by simp)]
  refine List.filter_eq_self.mpr fun r' hr' => ?_
  have hne : r'.id ≠ r.id := fun heq => hnodup.1 (heq ▸ List.mem_map_of_mem hr')
  simpa using hne

/-- **What a demotion leaves.** -/
theorem pendingColumn_quarantineOldest (hnodup : (rows.map Row.id).Nodup) :
    pendingColumn (quarantineOldestLocked rows) = bytesBehindOldest rows := by
  have hperm := selectState_perm rows .pending
  unfold quarantineOldestLocked bytesBehindOldest
  cases hsel : selectState rows .pending with
  | nil =>
    rw [hsel] at hperm
    show pendingColumn rows = 0
    rw [pendingColumn, ← hperm.nil_eq]
    rfl
  | cons r rest =>
    rw [hsel] at hperm
    have hids : ((r :: rest).map Row.id).Nodup :=
      (hperm.map Row.id).nodup_iff.mpr (hnodup.sublist (List.filter_sublist.map _))
    show pendingColumn (setQuarantined rows r.id) = (rest.map (·.payloadBytes)).sum
    rw [pendingColumn, filter_setQuarantined, ← ((hperm.filter _).map _).sum_eq,
      filter_ne_head hids]

theorem selectState_deleteRow (rows : List (Row C)) (st : RowState) (i : String) :
    selectState (deleteRow rows i) st = (selectState rows st).filter (·.id ≠ i) := by
  unfold selectState deleteRow
  rw [filter_insertionSort, List.filter_comm]

/-- A DELETE frees bytes, whether it takes the oldest row or another. -/
theorem bytesBehindOldest_deleteRow_le (rows : List (Row C)) (i : String) :
    bytesBehindOldest (deleteRow rows i) ≤ bytesBehindOldest rows := by
  unfold bytesBehindOldest
  rw [selectState_deleteRow]
  exact (List.filter_sublist.tail.map _).sum_le_sum fun _ _ => Nat.zero_le _

theorem pendingColumn_deleteRow_le (rows : List (Row C)) (i : String) :
    pendingColumn (deleteRow rows i) ≤ pendingColumn rows := by
  rw [pendingColumn_eq_select, pendingColumn_eq_select, selectState_deleteRow]
  exact (List.filter_sublist.map _).sum_le_sum fun _ _ => Nat.zero_le _

theorem pendingColumn_append (rows : List (Row C)) (item : Item C) (itemId : String) (ts : Nat) :
    pendingColumn (rows ++ [newRow item itemId ts]) =
      pendingColumn rows + Blob.size item.data := by
  simp [pendingColumn, newRow]

/-- The room a running `enqueue` has made sure of: for the pending rows now, and for its
item once it is one of them. -/
def Room (cfg : Config) (rows : List (Row C)) : EnqPc C → Prop
  | .demote item => pendingColumn rows ≤ cfg.maxBytes ∧
      bytesBehindOldest rows + Blob.size item.data ≤ cfg.maxBytes
  | .save item | .insert item _ => pendingColumn rows + Blob.size item.data ≤ cfg.maxBytes
  | .idle | .cleanup _ | .ret _ _ => pendingColumn rows ≤ cfg.maxBytes

variable {e : EnqPc C}

theorem Room.pending (h : Room cfg rows e) : pendingColumn rows ≤ cfg.maxBytes := by
  cases e with
  | demote item => exact h.1
  | save item | insert item itemId => exact le_trans (Nat.le_add_right _ _) h
  | idle | cleanup itemId | ret item itemId => exact h

theorem Room.of_settled (he : e.Settled) (h : pendingColumn rows ≤ cfg.maxBytes) :
    Room cfg rows e := by
  cases e with
  | demote item | save item | insert item itemId => exact he.elim
  | idle | cleanup itemId | ret item itemId => exact h

theorem Room.deleteRow (h : Room cfg rows e) (i : String) : Room cfg (deleteRow rows i) e := by
  have hpending := pendingColumn_deleteRow_le rows i
  have hbehind := bytesBehindOldest_deleteRow_le rows i
  cases e with
  | demote item => exact ⟨hpending.trans h.1, (Nat.add_le_add_right hbehind _).trans h.2⟩
  | save item | insert item itemId => exact (Nat.add_le_add_right hpending _).trans h
  | idle | cleanup itemId | ret item itemId => exact hpending.trans h

/-- The call fits: its payload has room beside the pending ones without the oldest. -/
def FitsBudget (cfg : Config) (s : St C) : Action C → Prop
  | .enqueue item => bytesBehindOldest s.store.rows + Blob.size item.data ≤ cfg.maxBytes
  | _ => True

/-- The threshold test sends the item to the demotion exactly when it needs one. -/
theorem room_enqueueEntry (item : Item C) (hpending : pendingColumn rows ≤ cfg.maxBytes)
    (hfits : bytesBehindOldest rows + Blob.size item.data ≤ cfg.maxBytes) :
    Room cfg rows (enqueueEntry cfg rows item).2 := by
  unfold enqueueEntry
  by_cases hfloor : cfg.hardFloor ≤ totalActive rows
  · rw [if_pos hfloor]
    exact hpending
  · rw [if_neg hfloor]
    by_cases hthr : thresholdBreached cfg rows (Blob.size item.data) = true
    · rw [if_pos hthr]
      exact ⟨hpending, hfits⟩
    · rw [if_neg hthr]
      simp only [thresholdBreached, Bool.or_eq_true, decide_eq_true_eq, not_or, not_lt] at hthr
      exact hthr.2

theorem tableStep_room (hI : Inv cfg s) (h : Room cfg s.store.rows s.enq)
    (hfits : FitsBudget cfg s a) (hstep : TableStep cfg s a s') :
    Room cfg s'.store.rows s'.enq := by
  cases hstep with
  | enters item => exact room_enqueueEntry item h.pending hfits
  | demotes hpc =>
    rw [hpc] at h
    show pendingColumn (quarantineOldestLocked s.store.rows) + _ ≤ _
    rw [pendingColumn_quarantineOldest hI.store.idsNodup]
    exact h.2
  | saves hpc hpay =>
    rw [hpc] at h
    exact h
  | inserts hpc hlook =>
    rw [hpc] at h
    show pendingColumn (s.store.rows ++ _) ≤ _
    rw [pendingColumn_append]
    exact h
  | leaves he hpay => exact .of_settled he h.pending
  | deletes hpc => exact h.deleteRow _
  | walks hpay hd => exact h
  | crashes => exact h.pending

/-- **The pending payloads stay within the budget** in every state of a run of enqueue and
drain steps, uploader replies and crashes in which every `enqueue` is called with a
payload that fits beside the pending ones without the oldest. -/
theorem pending_within_budget (cfg : Config) {s : St C}
    (h : (machine C cfg).Reaches (FitsBudget cfg) s) : s.store.pendingBytes ≤ cfg.maxBytes := by
  obtain ⟨hI, hsizes, hroom⟩ := invariant_of_tableStep
    (I := fun s => SizesOk s.store ∧ Room cfg s.store.rows s.enq)
    ⟨by simp [SizesOk, initial], Nat.zero_le _⟩
    (fun s a s' hI hP hg hstep =>
      ⟨tableStep_sizes hP.1 hstep, tableStep_room hI hP.2 hg hstep⟩) h
  rw [pendingBytes_eq_column hI hsizes]
  exact hroom.pending

instance (cfg : Config) (s : St C) : DecidablePred (FitsBudget cfg s) := fun a =>
  match a with
  | .enqueue item =>
    inferInstanceAs (Decidable (bytesBehindOldest s.store.rows + Blob.size item.data ≤ _))
  | .quarantineOldest | .savePayload _ | .savePayloadRaises _ _ | .insertRow _ | .insertRaises
  | .cleanupPayload _ | .enqueueReturns | .drain | .drainNext | .readRaises | .putReturns _
  | .putRaises | .deleteCommits | .deleteRaises | .unlinkPayload | .unlinkRaises | .crash =>
    inferInstanceAs (Decidable True)

/-- A budget of ten bytes, four of them pending when a payload of eight arrives: the four
are demoted and the eight fit. -/
theorem pending_within_budget_after_overflow :
    ∃ s : St String,
      (machine String ⟨9, 10, 9⟩).guardedRun (FitsBudget ⟨9, 10, 9⟩) initial
        [.enqueue ⟨["k"], "four", "h"⟩, .savePayload "u1", .insertRow 1, .enqueueReturns,
          .enqueue ⟨["l"], "eight by", "i"⟩, .quarantineOldest, .savePayload "u2",
          .insertRow 2] = some s ∧
        s.store.rows.map (fun r => (r.id, r.state)) =
          [("u1", .quarantined), ("u2", .pending)] ∧
        s.store.pendingBytes ≤ 10 := by
  refine ⟨_, rfl, rfl, ?_⟩
  exact pending_within_budget ⟨9, 10, 9⟩ (Machine.reaches_of_guardedRun (.init rfl)
    (l := [.enqueue ⟨["k"], "four", "h"⟩, .savePayload "u1", .insertRow 1, .enqueueReturns,
      .enqueue ⟨["l"], "eight by", "i"⟩, .quarantineOldest, .savePayload "u2",
      .insertRow 2]) rfl)

/-- **One demotion may not be enough.** With a budget of ten bytes and payloads of one,
nine and ten bytes, the third call demotes the one byte and leaves nineteen pending. -/
theorem pending_over_budget :
    ∃ s : St String,
      (machine String ⟨9, 10, 9⟩).run initial
        [.enqueue ⟨["k"], "1", "h"⟩, .savePayload "u1", .insertRow 1, .enqueueReturns,
          .enqueue ⟨["l"], "nine byte", "i"⟩, .savePayload "u2", .insertRow 2,
          .enqueueReturns, .enqueue ⟨["m"], "ten bytes!", "j"⟩, .quarantineOldest,
          .savePayload "u3", .insertRow 3, .enqueueReturns] = some s ∧
        (∀ p ∈ s.acked, Blob.size p.2.data ≤ 10) ∧ s.acked.length = 3 ∧
        s.store.pendingBytes = 19 := by
  refine ⟨_, rfl, ?_, rfl, rfl⟩
  decide

theorem sizesOk_of_reaches (h : (machine C cfg).Reaches Machine.anyStep s) :
    Inv cfg s ∧ SizesOk s.store :=
  invariant_of_tableStep (I := fun s => SizesOk s.store) (by simp [SizesOk, initial])
    (fun _ _ _ _ hP _ hstep => tableStep_sizes hP hstep) h

/-- **The condition is exact**: an accepted call from any reachable state leaves the
pending payloads within the budget iff its payload fits beside the pending ones without
the oldest. -/
theorem enqueue_within_budget_iff (h : (machine C cfg).Reaches Machine.anyStep s)
    (hidle : s.enq = .idle) (item : Item C) (hfloor : ¬ cfg.hardFloor ≤ s.store.rows.length)
    {itemId : String} (hfresh : itemId ∉ s.issued) (ts : Nat) :
    ∃ s', (machine C cfg).run s (enqueueSteps cfg s.store.rows item itemId ts) = some s' ∧
      (s'.store.pendingBytes ≤ cfg.maxBytes ↔ FitsBudget cfg s (.enqueue item)) := by
  have hI := inv_of_reaches h
  obtain ⟨s', hrun, -, -, hrows⟩ := run_enqueueSteps hI.store hidle item hfloor hfresh ts
  obtain ⟨hI', hsizes⟩ := sizesOk_of_reaches (Machine.reaches_of_run h hrun)
  refine ⟨s', hrun, ?_⟩
  rw [pendingBytes_eq_column hI' hsizes, hrows, pendingColumn_append]
  by_cases hthr : thresholdBreached cfg s.store.rows (Blob.size item.data) = true
  · rw [if_pos hthr, pendingColumn_quarantineOldest hI.store.idsNodup]
    exact Iff.rfl
  · -- below the threshold both sides hold
    have hle : pendingColumn s.store.rows + Blob.size item.data ≤ cfg.maxBytes := by
      simp only [thresholdBreached, Bool.or_eq_true, decide_eq_true_eq, not_or, not_lt] at hthr
      exact hthr.2
    rw [if_neg hthr]
    exact ⟨fun _ => (Nat.add_le_add_right (bytesBehindOldest_le _) _).trans hle, fun _ => hle⟩

/-- With four of ten bytes queued, eight more fit once the four are demoted, and eleven do not. -/
theorem enqueue_within_budget_demoting :
    (∃ s', (machine String ⟨9, 10, 9⟩).run oneQueued
        (enqueueSteps ⟨9, 10, 9⟩ oneQueued.store.rows ⟨["l"], "eight by", "i"⟩ "u2" 2) = some s' ∧
      s'.store.pendingBytes ≤ 10) ∧
    ∃ s', (machine String ⟨9, 10, 9⟩).run oneQueued
        (enqueueSteps ⟨9, 10, 9⟩ oneQueued.store.rows ⟨["l"], "eleven byte", "i"⟩ "u2" 2) =
          some s' ∧
      ¬ s'.store.pendingBytes ≤ 10 := by
  constructor
  · obtain ⟨s', hrun, hiff⟩ := enqueue_within_budget_iff reaches_oneQueued rfl
      ⟨["l"], "eight by", "i"⟩ (by decide) (show "u2" ∉ oneQueued.issued by decide) 2
    exact ⟨s', hrun, hiff.mpr (by decide)⟩
  · obtain ⟨s', hrun, hiff⟩ := enqueue_within_budget_iff reaches_oneQueued rfl
      ⟨["l"], "eleven byte", "i"⟩ (by decide) (show "u2" ∉ oneQueued.issued by decide) 2
    exact ⟨s', hrun, fun h => absurd (hiff.mp h) (by decide)⟩

/-! ## the order -/

/-- The row of `i` was committed before the row of `j`. -/
def St.EnqueuedBefore (s : St C) (i j : String) : Prop :=
  [i, j].Sublist s.inserted.reverse

/-- First enqueued, first served. -/
structure ServedInOrder (cfg : Config) (s : St C) : Prop where
  /-- A running `drain` offers what it has in hand and what is still before it in the
  order of enqueueing. -/
  offered : s.drn.ahead.Pairwise fun r r' => s.EnqueuedBefore r.id r'.id
  /-- A demotion takes a pending row that was enqueued before all other pending ones. -/
  demoted : ∀ s', step cfg s .quarantineOldest = some s' →
    ∀ r ∈ s.store.rows, r.state = .pending →
      (∃ r₁ ∈ s'.store.rows, r₁.id = r.id ∧ r₁.state = .quarantined) →
      ∀ r' ∈ s.store.rows, r'.state = .pending → r'.id ≠ r.id → s.EnqueuedBefore r.id r'.id

/-- The clock has not fallen behind a stamp of the table. -/
def ClockAhead (s : St C) : Action C → Prop
  | .insertRow ts => ∀ r ∈ s.store.rows, r.enqueueTs ≤ ts
  | _ => True

/-- The stamps agree with the order of the table, and the table and the rows ahead of a
running `drain` with the order of enqueueing. -/
structure OrderOk (s : St C) : Prop where
  stamps : (s.store.rows.map Row.enqueueTs).Pairwise (· ≤ ·)
  table : (s.store.rows.map Row.id).Sublist s.inserted.reverse
  ahead : (s.drn.ahead.map Row.id).Sublist s.inserted.reverse

/-- With stamps in the order of the table a SELECT keeps that order. -/
theorem selectState_eq_filter (h : (rows.map Row.enqueueTs).Pairwise (· ≤ ·)) (st : RowState) :
    selectState rows st = rows.filter (·.state = st) :=
  ((List.pairwise_map.mp h).sublist List.filter_sublist).insertionSort_eq

theorem tableStep_order (h : OrderOk s) (hclock : ClockAhead s a) (hstep : TableStep cfg s a s') :
    OrderOk s' := by
  cases hstep with
  | enters item => exact ⟨h.stamps, h.table, h.ahead⟩
  | demotes hpc =>
    have hsame := quarantineOldestLocked_same s.store.rows
    refine ⟨?_, ?_, h.ahead⟩
    · rw [hsame.map_eq Row.enqueueTs fun _ => rfl]
      exact h.stamps
    · rw [hsame.ids]
      exact h.table
  | saves hpc hpay => exact ⟨h.stamps, h.table, h.ahead⟩
  | @inserts item itemId ts hpc hlook =>
    have hreverse : (itemId :: s.inserted).reverse = s.inserted.reverse ++ [itemId] :=
      List.reverse_cons
    refine ⟨?_, ?_, ?_⟩
    · rw [List.map_append, List.pairwise_append]
      refine ⟨h.stamps, List.pairwise_singleton _ _, ?_⟩
      intro t ht t' ht'
      obtain ⟨r, hr, rfl⟩ := List.mem_map.mp ht
      rw [List.mem_singleton.mp ht']
      exact hclock r hr
    · rw [List.map_append, hreverse]
      exact h.table.append (List.Sublist.refl _)
    · rw [hreverse]
      exact h.ahead.trans (List.sublist_append_left _ _)
  | leaves he hpay => exact ⟨h.stamps, h.table, h.ahead⟩
  | @deletes _ _ r _ hpc =>
    have hsub : (deleteRow s.store.rows r.id).Sublist s.store.rows := List.filter_sublist
    refine ⟨h.stamps.sublist (hsub.map _), (hsub.map _).trans h.table, ?_⟩
    have hahead := h.ahead
    rw [hpc] at hahead
    exact hahead
  | walks hpay hd =>
    refine ⟨h.stamps, h.table, ?_⟩
    rcases hd with hd | ⟨st, hd⟩
    · exact (hd.map _).trans h.ahead
    · -- a fresh snapshot
      rw [hd, selectState_eq_filter h.stamps]
      exact (List.filter_sublist.map _).trans h.table
  | crashes => exact ⟨h.stamps, h.table, List.nil_sublist _⟩

/-- The demoted row is the head of the SELECT. -/
theorem demoted_eq_head (hnodup : (rows.map Row.id).Nodup) {r : Row C} (hr : r ∈ rows)
    (hpending : r.state = .pending)
    (hgone : ∃ r₁ ∈ quarantineOldestLocked rows, r₁.id = r.id ∧ r₁.state = .quarantined) :
    (selectState rows .pending).head? = some r := by
  obtain ⟨r₁, hr₁, hid, hst⟩ := hgone
  unfold quarantineOldestLocked at hr₁
  cases hsel : selectState rows .pending with
  | nil =>
    rw [hsel] at hr₁
    rw [List.inj_on_of_nodup_map hnodup hr₁ hr hid, hpending] at hst
    cases hst
  | cons o rest =>
    rw [hsel] at hr₁
    obtain ⟨r₂, hr₂, rfl⟩ := List.mem_map.mp hr₁
    have ho : o ∈ rows := mem_selectState (hsel ▸ List.mem_cons_self ..)
    by_cases heq : r₂.id = o.id
    · rw [if_pos heq] at hid
      have hor : o.id = r.id := heq.symm.trans hid
      rw [List.inj_on_of_nodup_map hnodup ho hr hor]
      rfl
    · rw [if_neg heq] at hid hst
      rw [List.inj_on_of_nodup_map hnodup hr₂ hr hid, hpending] at hst
      cases hst

theorem OrderOk.served (hI : Inv cfg s) (h : OrderOk s) :
    ServedInOrder cfg s where
  offered := by
    rw [List.pairwise_iff_forall_sublist]
    intro r r' hsub
    exact (hsub.map Row.id).trans h.ahead
  demoted s' hstep r hr hpending hgone r' hr' hpending' hne := by
    have hrows : s'.store.rows = quarantineOldestLocked s.store.rows := by
      simp only [step, stepEnqueue, stepDrain] at hstep
      split at hstep <;> cases hstep
      rfl
    rw [hrows] at hgone
    have hhead := demoted_eq_head hI.store.idsNodup hr hpending hgone
    rw [selectState_eq_filter h.stamps] at hhead
    obtain ⟨rest, hfilter⟩ := List.head?_eq_some_iff.mp hhead
    -- every other pending row stands behind the head
    have hmem : r' ∈ rest := by
      have : r' ∈ r :: rest := hfilter ▸ List.mem_filter.mpr ⟨hr', by simpa using hpending'⟩
      rcases List.mem_cons.mp this with rfl | hrest
      · exact absurd rfl hne
      · exact hrest
    have hsub : [r, r'].Sublist s.store.rows := by
      refine List.Sublist.trans ?_ (List.filter_sublist (p := fun r => r.state = .pending))
      rw [hfilter]
      exact (List.singleton_sublist.mpr hmem).cons_cons r
    exact (hsub.map Row.id).trans h.table

/-- **First enqueued, first served**, in every state of a run of enqueue and drain steps,
uploader replies and crashes in which no row is stamped below a row of the table. -/
theorem served_in_enqueue_order (cfg : Config) {s : St C}
    (h : (machine C cfg).Reaches ClockAhead s) : ServedInOrder cfg s := by
  obtain ⟨hI, hOrder⟩ := invariant_of_tableStep (I := OrderOk)
    ⟨List.Pairwise.nil, List.nil_sublist _, List.nil_sublist _⟩
    (fun s a s' _ hP hg hstep => tableStep_order hP hg hstep) h
  exact hOrder.served hI

instance (s : St C) : DecidablePred (ClockAhead s) := fun a =>
  match a with
  | .insertRow ts => inferInstanceAs (Decidable (∀ r ∈ s.store.rows, r.enqueueTs ≤ ts))
  | .enqueue _ | .quarantineOldest | .savePayload _ | .savePayloadRaises _ _ | .insertRaises
  | .cleanupPayload _ | .enqueueReturns | .drain | .drainNext | .readRaises | .putReturns _
  | .putRaises | .deleteCommits | .deleteRaises | .unlinkPayload | .unlinkRaises | .crash =>
    inferInstanceAs (Decidable True)

/-- Two rows, a crash between them, a clock that went on: `drain` has the first in hand
and the second before it. -/
theorem served_in_enqueue_order_after_crash :
    ∃ s : St String,
      (machine String ⟨9, 99, 9⟩).guardedRun ClockAhead initial
        [.enqueue ⟨["k"], "a", "h"⟩, .savePayload "u1", .insertRow 5, .enqueueReturns, .crash,
          .enqueue ⟨["l"], "b", "i"⟩, .savePayload "u2", .insertRow 7, .enqueueReturns,
          .drain, .drainNext] = some s ∧
        s.drn.ahead.map Row.id = ["u1", "u2"] ∧ ServedInOrder ⟨9, 99, 9⟩ s := by
  refine ⟨_, rfl, rfl, ?_⟩
  exact served_in_enqueue_order ⟨9, 99, 9⟩ (Machine.reaches_of_guardedRun (.init rfl)
    (l := [.enqueue ⟨["k"], "a", "h"⟩, .savePayload "u1", .insertRow 5, .enqueueReturns, .crash,
      .enqueue ⟨["l"], "b", "i"⟩, .savePayload "u2", .insertRow 7, .enqueueReturns,
      .drain, .drainNext]) rfl)

/-- **A restart of the host reverses the order.** The first item is stamped 100; after the
restart the clock reads 5 and 6. The third call overflows and demotes the item enqueued
second, and the next `drain` offers the one enqueued third before the first. -/
theorem restart_reverses_order :
    ∃ s s' : St String,
      (machine String ⟨2, 99, 9⟩).run initial
        [.enqueue ⟨["k"], "a", "h"⟩, .savePayload "u1", .insertRow 100, .enqueueReturns, .crash,
          .enqueue ⟨["l"], "b", "i"⟩, .savePayload "u2", .insertRow 5, .enqueueReturns,
          .enqueue ⟨["m"], "c", "j"⟩, .quarantineOldest, .savePayload "u3", .insertRow 6,
          .enqueueReturns] = some s ∧
        s.inserted.reverse = ["u1", "u2", "u3"] ∧
        s.store.rows.map Row.state = [.pending, .quarantined, .pending] ∧
        (machine String ⟨2, 99, 9⟩).run s [.drain, .drainNext] = some s' ∧
        s'.drn.ahead.map Row.id = ["u3", "u1"] ∧ ¬ ServedInOrder ⟨2, 99, 9⟩ s' := by
  refine ⟨_, _, rfl, rfl, rfl, rfl, rfl, fun h => ?_⟩
  have hbefore : ["u3", "u1"].Sublist ["u1", "u2", "u3"] :=
    List.rel_of_pairwise_cons h.offered (List.mem_cons_self ..)
  revert hbefore
  decide

end MctraderData.RetryQueue
