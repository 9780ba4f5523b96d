import Mathlib.Algebra.Order.Ring.Rat
import Mathlib.Data.List.AList
import MctraderData.Lib.Replicas

/-!
# mctrader-data — dedup of rows from several nodes

Model of the four functions of `dedup.py`, with their counts and quarantine records. Three of
them keep one row for each logical key, in one loop: they differ in the key, in which of two
rows stays and in what they count as a mismatch. `deduplicate_ticks_v1_1` has a second dict,
from which it takes entries out again.

Rows are seen through their attributes (`RowView`); an attribute that may be missing is an
option. The optional sink, which is told the two counts, is left out.

* `dedup_conserves` — every row is emitted, skipped or quarantined
-/

namespace MctraderData.Dedup

open Lib

/-- The attributes of a row that `dedup.py` reads. -/
structure RowView (R : Type) where
  exchange : R → String
  symbol : R → String
  timeframe : R → String
  tsUtc : R → Int
  price : R → ℚ
  quantity : R → ℚ
  side : R → String
  eventType : R → String
  level : R → Int
  receivedAt : R → Option Int
  nodeId : R → Option String
  rawJson : R → Option String
  payloadHash : R → Option String
  ingestSeq : R → Option Int

/-- `node_priority` -/
def nodePriority (nodeId : Option String) : String :=
  match nodeId with
  | none => "zzz_DEFAULT"
  | some node => if node = "" then "zzz_DEFAULT" else node

structure QuarantineRecord (R K : Type) where
  reason : String := "ACTIVE_ACTIVE_MISMATCH"
  tier : String
  logicalKey : K
  rows : List R
  detectedAt : Int

/-- `_BackpressureLimiter` -/
structure Limiter (Q : Type) where
  cap : Nat := 100
  windowStart : ℚ
  windowCount : Nat := 0
  batch : List Q := []
  artifactCount : Nat := 0

/-- `admit`: the records to emit now, if any. -/
def Limiter.admit {Q : Type} (l : Limiter Q) (now : ℚ) (record : Q) : List Q × Limiter Q :=
  let rolled := 1 ≤ now - l.windowStart
  let l := if rolled then { l with windowStart := now, windowCount := 0 } else l
  if rolled ∧ l.batch ≠ [] then
    (l.batch, { l with batch := [record], artifactCount := l.artifactCount + 1 })
  else
    let l := { l with windowCount := l.windowCount + 1 }
    if l.windowCount ≤ l.cap then ([record], { l with artifactCount := l.artifactCount + 1 })
    else ([], { l with batch := l.batch ++ [record] })

structure DedupResult (R K : Type) where
  emitted : List R
  dupSkipCount : Nat
  quarantineCount : Nat
  quarantineRecords : List (QuarantineRecord R K) := []

/-- The two counts, and the records on their way through the limiter. -/
structure Tally (R K : Type) where
  dupSkip : Nat := 0
  quarantineCount : Nat := 0
  records : List (QuarantineRecord R K) := []
  limiter : Limiter (QuarantineRecord R K)

/-- What a call reads from the clocks: `datetime.now()`, and `time.monotonic()` when the limiter
is made and at each record. -/
structure Clocks where
  detectedAt : Int
  made : ℚ
  admitted : Nat → ℚ

section

variable {R K : Type} (v : RowView R) (clocks : Clocks)

def Tally.skip (t : Tally R K) : Tally R K := { t with dupSkip := t.dupSkip + 1 }

def Tally.quarantine (t : Tally R K) (tier : String) (key : K) (rows : List R) : Tally R K :=
  let (batch, limiter) := t.limiter.admit (clocks.admitted t.quarantineCount)
    { tier := tier, logicalKey := key, rows := rows, detectedAt := clocks.detectedAt }
  { t with
    quarantineCount := t.quarantineCount + 1
    records := t.records ++ batch
    limiter := limiter }

/-- The result of a loop: the rows by `ts_utc`, and what is left in the limiter. -/
def finish (rows : List R) (t : Tally R K) : DedupResult R K where
  emitted := rows.insertionSort fun a b => v.tsUtc a ≤ v.tsUtc b
  dupSkipCount := t.dupSkip
  quarantineCount := t.quarantineCount
  quarantineRecords := t.records ++ t.limiter.batch

def Tally.new : Tally R K := { limiter := { windowStart := clocks.made } }

/-- `multi_node=False` -/
def passThrough (rows : List R) : DedupResult R K := finish v rows (Tally.new ⟨0, 0, fun _ => 0⟩)

/-- A node that is first in the alphabet. -/
def outranks (existing row : R) : Bool :=
  decide ((nodePriority (v.nodeId row)).toList < (nodePriority (v.nodeId existing)).toList)

/-! ## One row for each key -/

/-- How a function deals with a second row of a key. -/
structure Policy (R K : Type) where
  tier : String
  key : R → K
  mismatch : R → R → Bool
  wins : R → R → Bool

variable [DecidableEq K]

/-- One turn of the loop. -/
def Policy.step (p : Policy R K) (st : List (K × R) × Tally R K) (row : R) :
    List (K × R) × Tally R K :=
  (keepStep p.key p.wins st.1 row,
    match st.1.find? fun e => decide (e.1 = p.key row) with
    | none => st.2
    | some (_, existing) =>
      if p.mismatch existing row then st.2.quarantine clocks p.tier (p.key row) [existing, row]
      else st.2.skip)

def Policy.deduplicate (p : Policy R K) (multiNode : Bool) (rows : List R) : DedupResult R K :=
  if multiNode then
    let st := rows.foldl (p.step clocks) ([], Tally.new clocks)
    finish v (st.1.map Prod.snd) st.2
  else passThrough v rows

end

section

variable {R : Type} (v : RowView R) (clocks : Clocks)

/-- `candle_logical_key` -/
def candleLogicalKey (row : R) : String × String × String × Int :=
  (v.exchange row, v.symbol row, v.timeframe row, v.tsUtc row)

/-- `tick_logical_key` -/
def tickLogicalKey (row : R) : String × String × Int × ℚ × ℚ × String :=
  (v.exchange row, v.symbol row, v.tsUtc row, v.price row, v.quantity row, v.side row)

structure OrderbookKey where
  exchange : String
  symbol : String
  tsUtc : Int
  eventType : String
  side : String
  level : Int
  price : ℚ
  quantity : ℚ
deriving DecidableEq

/-- `orderbook_logical_key` -/
def orderbookLogicalKey (row : R) : OrderbookKey :=
  ⟨v.exchange row, v.symbol row, v.tsUtc row, v.eventType row, v.side row, v.level row,
    v.price row, v.quantity row⟩

/-- `received_at`, or `ts_utc` without it. -/
def seenAt (row : R) : Int := (v.receivedAt row).getD (v.tsUtc row)

/-- The last view of a candle stays; no difference is a mismatch. -/
def candlePolicy : Policy R (String × String × String × Int) where
  tier := "candle"
  key := candleLogicalKey v
  mismatch _ _ := false
  wins existing row :=
    if seenAt v existing < seenAt v row then true
    else if seenAt v row < seenAt v existing then false
    else outranks v existing row

/-- Two texts that are there and differ. -/
def differ (a b : Option String) : Bool :=
  match a, b with
  | some a, some b => decide (a ≠ b)
  | _, _ => false

/-- The policy of ticks and orderbook events: the first row stays, unless one with another
`raw_json` comes from a node of higher priority. -/
def rawPolicy {K : Type} (tier : String) (key : R → K) : Policy R K where
  tier := tier
  key := key
  mismatch existing row := differ (v.rawJson existing) (v.rawJson row)
  wins existing row := differ (v.rawJson existing) (v.rawJson row) && outranks v existing row

/-- `deduplicate_candles` -/
def deduplicateCandles (multiNode : Bool) (rows : List R) :
    DedupResult R (String × String × String × Int) :=
  (candlePolicy v).deduplicate v clocks multiNode rows

/-- `deduplicate_ticks` -/
def deduplicateTicks (multiNode : Bool) (rows : List R) :
    DedupResult R (String × String × Int × ℚ × ℚ × String) :=
  (rawPolicy v "tick" (tickLogicalKey v)).deduplicate v clocks multiNode rows

/-- `deduplicate_orderbook_events` -/
def deduplicateOrderbookEvents (multiNode : Bool) (rows : List R) :
    DedupResult R OrderbookKey :=
  (rawPolicy v "orderbook" (orderbookLogicalKey v)).deduplicate v clocks multiNode rows

/-! ## Ticks of version 1.1 -/

/-- The six fields of a trade. -/
abbrev Body := String × String × Int × ℚ × ℚ × String

/-- The key has the body, `payload_hash` and `ingest_seq`. -/
structure FullKey where
  body : Body
  payloadHash : Option String
  ingestSeq : Option Int
deriving DecidableEq

/-- `tick_v1_1_logical_key` -/
def tickV11LogicalKey (row : R) : FullKey :=
  ⟨tickLogicalKey v row, v.payloadHash row, v.ingestSeq row⟩

/-- A `del` of a key that is not there. -/
inductive KeyError where
  | keyError (key : FullKey)

structure V11State (R : Type) where
  byFullKey : List (FullKey × R) := []
  byBody : AList fun _ : Body => List (FullKey × R) := ∅
  tally : Tally R Body

/-- One turn of the loop of `deduplicate_ticks_v1_1`. -/
def v11Step (st : V11State R) (row : R) : Except KeyError (V11State R) :=
  let fullKey := tickV11LogicalKey v row
  let body := tickLogicalKey v row
  if fullKey ∈ st.byFullKey.map Prod.fst then .ok { st with tally := st.tally.skip }
  else
    let priorRows := (st.byBody.lookup body).getD []
    match priorRows.find? fun prior => differ prior.1.payloadHash (v.payloadHash row) with
    | none => .ok { st with
        byFullKey := st.byFullKey ++ [(fullKey, row)]
        byBody := st.byBody.insert body (priorRows ++ [(fullKey, row)]) }
    | some (priorFull, priorRow) =>
      let tally := st.tally.quarantine clocks "tick" body [priorRow, row]
      if outranks v priorRow row then
        if priorFull ∈ st.byFullKey.map Prod.fst then .ok
          { byFullKey :=
              (st.byFullKey.filter fun e => decide (e.1 ≠ priorFull)) ++ [(fullKey, row)]
            byBody := st.byBody.insert body [(fullKey, row)]
            tally := tally }
        else .error (.keyError priorFull)
      else .ok { st with tally := tally }

/-- `deduplicate_ticks_v1_1` -/
def deduplicateTicksV11 (multiNode : Bool) (rows : List R) :
    Except KeyError (DedupResult R Body) :=
  if multiNode then do
    let st ← rows.foldlM (v11Step v clocks) { tally := Tally.new clocks }
    pure (finish v (st.byFullKey.map Prod.snd) st.tally)
  else .ok (passThrough v rows)

end

/-! ## Conservation -/

/-- Every row is emitted or counted; what is emitted is part of the input, in order of time, with
distinct keys. -/
structure Conserves {R K L : Type} (v : RowView R) (key : R → L) (rows : List R)
    (r : DedupResult R K) : Prop where
  total : r.emitted.length + r.dupSkipCount + r.quarantineCount = rows.length
  part : r.emitted.Subperm rows
  sorted : r.emitted.Pairwise fun a b => v.tsUtc a ≤ v.tsUtc b
  distinct : (r.emitted.map key).Nodup

/-- Every key of the input is emitted. -/
def EmitsAll {R K L : Type} (key : R → L) (rows : List R) (r : DedupResult R K) : Prop :=
  ∀ row ∈ rows, ∃ e ∈ r.emitted, key e = key row

section

variable {R K L : Type} {v : RowView R} {rows kept : List R} {t : Tally R K}

/-- It is enough that the rows kept have distinct keys. -/
theorem conserves_finish {key : R → L} (htotal : kept.length + t.dupSkip + t.quarantineCount =
    rows.length) (hpart : kept ⊆ rows) (hdistinct : (kept.map key).Nodup) :
    Conserves v key rows (finish v kept t) := by
  have hperm : (finish v kept t).emitted.Perm kept := List.perm_insertionSort _ _
  refine ⟨?_, ?_, List.pairwise_insertionSort _ _, ?_⟩
  · rw [hperm.length_eq]
    exact htotal
  · exact hperm.subperm.trans (List.subperm_of_subset hdistinct.of_map hpart)
  · exact (hperm.map key).nodup_iff.mpr hdistinct

variable [DecidableEq K]

section

variable (p : Policy R K) (clocks : Clocks)

theorem foldl_step_fst (rows : List R) (st : List (K × R) × Tally R K) :
    (rows.foldl (p.step clocks) st).1 = rows.foldl (keepStep p.key p.wins) st.1 := by
  induction rows generalizing st with
  | nil => rfl
  | cons row rest ih => exact ih _

/-- A row is kept beside the others, or it is counted. -/
theorem step_total (st : List (K × R) × Tally R K) (row : R) :
    let st' := p.step clocks st row
    st'.1.length + st'.2.dupSkip + st'.2.quarantineCount =
      st.1.length + st.2.dupSkip + st.2.quarantineCount + 1 := by
  simp only [Policy.step, keepStep]
  cases st.1.find? fun e => decide (e.1 = p.key row) with
  | none =>
    dsimp only
    rw [List.length_append, List.length_singleton]
    omega
  | some found =>
    have hlength : (if p.wins found.2 row then
        st.1.map fun e => if e.1 = p.key row then (p.key row, row) else e else st.1).length =
        st.1.length := by
      split
      · exact List.length_map _
      · rfl
    dsimp only
    rw [hlength]
    split
    · show st.1.length + st.2.dupSkip + (st.2.quarantineCount + 1) = _
      omega
    · show st.1.length + (st.2.dupSkip + 1) + st.2.quarantineCount = _
      omega

theorem foldl_step_total (rows : List R) (st : List (K × R) × Tally R K) :
    let st' := rows.foldl (p.step clocks) st
    st'.1.length + st'.2.dupSkip + st'.2.quarantineCount =
      st.1.length + st.2.dupSkip + st.2.quarantineCount + rows.length := by
  induction rows generalizing st with
  | nil => rfl
  | cons row rest ih =>
    have hrest := ih (p.step clocks st row)
    have hrow := step_total p clocks st row
    rw [List.foldl_cons, List.length_cons]
    omega

/-- What is kept under each key has that key. -/
theorem map_key_kept (rows : List R) :
    ((rows.foldl (p.step clocks) ([], Tally.new clocks)).1.map Prod.snd).map p.key =
      firstSeen (rows.map p.key) := by
  obtain ⟨hown, hkeys⟩ := foldl_keepStep_keys p.key p.wins rows
  rw [foldl_step_fst, ← hkeys, List.map_map]
  exact List.map_congr_left hown

end

theorem Policy.conserves (p : Policy R K) (v : RowView R) (clocks : Clocks) (rows : List R) :
    Conserves v p.key rows (p.deduplicate v clocks true rows) := by
  refine conserves_finish ?_ ?_ ?_
  · rw [List.length_map]
    exact (foldl_step_total p clocks rows ([], Tally.new clocks)).trans (Nat.zero_add _)
  · rw [foldl_step_fst]
    exact foldl_keepStep_subset p.key p.wins rows
  · rw [map_key_kept]
    exact nodup_firstSeen _

theorem Policy.emitsAll (p : Policy R K) (v : RowView R) (clocks : Clocks) (rows : List R) :
    EmitsAll p.key rows (p.deduplicate v clocks true rows) := by
  intro row hrow
  have hkey : p.key row ∈ firstSeen (rows.map p.key) :=
    mem_firstSeen.mpr (List.mem_map_of_mem hrow)
  rw [← map_key_kept p clocks rows] at hkey
  obtain ⟨e, he, heq⟩ := List.mem_map.mp hkey
  exact ⟨e, (List.mem_insertionSort _).mpr he, heq⟩

/-- The function returns the rows as they are, and counts nothing. -/
structure Unchanged (rows : List R) (dedup : List R → DedupResult R K) : Prop where
  emitted : (dedup rows).emitted = rows
  dupSkipCount : (dedup rows).dupSkipCount = 0
  quarantineCount : (dedup rows).quarantineCount = 0

/-- What was emitted is in order of time and has distinct keys, and is left as it is. -/
theorem Policy.unchanged (p : Policy R K) (later : Clocks) {r : DedupResult R K}
    (h : Conserves v p.key rows r) : Unchanged r.emitted (p.deduplicate v later true) := by
  have hkept : (r.emitted.foldl (p.step later) ([], Tally.new later)).1.map Prod.snd =
      r.emitted := by
    rw [foldl_step_fst, foldl_keepStep_of_nodup p.key p.wins h.distinct, List.map_map]
    exact List.map_id r.emitted
  have hemitted : (p.deduplicate v later true r.emitted).emitted = r.emitted := by
    show List.insertionSort _ ((r.emitted.foldl (p.step later) ([], Tally.new later)).1.map
      Prod.snd) = r.emitted
    rw [hkept]
    exact h.sorted.insertionSort_eq
  have htotal := (p.conserves v later r.emitted).total
  rw [hemitted] at htotal
  exact ⟨hemitted, by omega, by omega⟩

end

/-! ## Conservation for ticks of version 1.1 -/

section

variable {R : Type} {v : RowView R} {st : V11State R}

/-- After the rows `seen`: the first dict has one row for each key, and every prior row of the
second one is in it, under its body. A row may give up its key, but only to a row of its
body. -/
structure V11Inv (v : RowView R) (seen : List R) (st : V11State R) : Prop where
  distinct : (st.byFullKey.map Prod.fst).Nodup
  own : ∀ e ∈ st.byFullKey, tickV11LogicalKey v e.2 = e.1
  part : ∀ e ∈ st.byFullKey, e.2 ∈ seen
  listed : ∀ body priors, st.byBody.lookup body = some priors → ∀ e ∈ priors,
    e ∈ st.byFullKey ∧ e.1.body = body
  covered : ∀ row ∈ seen, ∃ e ∈ st.byFullKey, e.1.body = tickLogicalKey v row
  total : st.byFullKey.length + st.tally.dupSkip + st.tally.quarantineCount = seen.length

variable {seen : List R} {tally : Tally R Body}

section

variable (h : V11Inv v seen st)
include h

/-- A new row beside the entries kept, of which only such of its own body may be missing. -/
theorem V11Inv.extend (row : R) (hnew : tickV11LogicalKey v row ∉ st.byFullKey.map Prod.fst)
    {kept : List (FullKey × R)} (priors : List (FullKey × R)) (hkept : kept.Sublist st.byFullKey)
    (hothers : ∀ e ∈ st.byFullKey, e.1.body ≠ tickLogicalKey v row → e ∈ kept)
    (hpriors : ∀ e ∈ priors, e ∈ kept ∧ e.1.body = tickLogicalKey v row)
    (htotal : kept.length + tally.dupSkip + tally.quarantineCount = seen.length) :
    V11Inv v (seen ++ [row])
      { byFullKey := kept ++ [(tickV11LogicalKey v row, row)]
        byBody := st.byBody.insert (tickLogicalKey v row)
          (priors ++ [(tickV11LogicalKey v row, row)])
        tally := tally } := by
  refine ⟨?_, ?_, ?_, ?_, ?_, ?_⟩
  · rw [List.map_append]
    refine ((hkept.map _).nodup h.distinct).append (List.nodup_singleton _) ?_
    exact List.disjoint_singleton.mpr fun hmem => hnew ((hkept.map _).subset hmem)
  · intro e he
    obtain he | he := List.mem_append.mp he
    · exact h.own e (hkept.subset he)
    · rw [List.mem_singleton.mp he]
  · intro e he
    obtain he | he := List.mem_append.mp he
    · exact List.mem_append_left _ (h.part e (hkept.subset he))
    · rw [List.mem_singleton.mp he]
      exact List.mem_append_right _ (List.mem_singleton_self _)
  · intro body listed hlisted e he
    by_cases hbody : body = tickLogicalKey v row
    · subst hbody
      rw [AList.lookup_insert] at hlisted
      obtain rfl := Option.some.inj hlisted
      obtain he | he := List.mem_append.mp he
      · exact ⟨List.mem_append_left _ (hpriors e he).1, (hpriors e he).2⟩
      · rw [List.mem_singleton.mp he]
        exact ⟨List.mem_append_right _ (List.mem_singleton_self _), rfl⟩
    · rw [AList.lookup_insert_ne hbody] at hlisted
      obtain ⟨hin, hb⟩ := h.listed _ _ hlisted e he
      exact ⟨List.mem_append_left _ (hothers e hin (hb.trans_ne hbody)), hb⟩
  · intro old hold
    -- an entry of another body is never taken out
    by_cases hbody : tickLogicalKey v old = tickLogicalKey v row
    · exact ⟨_, List.mem_append_right _ (List.mem_singleton_self _), hbody.symm⟩
    · obtain hold | hold := List.mem_append.mp hold
      · obtain ⟨e, he, hb⟩ := h.covered old hold
        exact ⟨e, List.mem_append_left _ (hothers e he (hb.trans_ne hbody)), hb⟩
      · exact absurd (congrArg _ (List.mem_singleton.mp hold)) hbody
  · simp only [List.length_append, List.length_singleton]
    omega

theorem V11Inv.counted (row : R)
    (hcovered : ∃ e ∈ st.byFullKey, e.1.body = tickLogicalKey v row)
    (htally : tally.dupSkip + tally.quarantineCount =
      st.tally.dupSkip + st.tally.quarantineCount + 1) :
    V11Inv v (seen ++ [row]) { st with tally := tally } where
  distinct := h.distinct
  own := h.own
  part e he := List.mem_append_left _ (h.part e he)
  listed := h.listed
  covered old hold := by
    obtain hold | hold := List.mem_append.mp hold
    · exact h.covered old hold
    · rw [List.mem_singleton.mp hold]
      exact hcovered
  total := by
    have htotal := h.total
    rw [List.length_append, List.length_singleton]
    dsimp only
    omega

theorem V11Inv.mem_of_prior {body : Body} {prior : FullKey × R}
    (hprior : prior ∈ (st.byBody.lookup body).getD []) :
    prior ∈ st.byFullKey ∧ prior.1.body = body := by
  cases hlook : st.byBody.lookup body with
  | none =>
    rw [hlook] at hprior
    exact absurd hprior List.not_mem_nil
  | some priors =>
    rw [hlook] at hprior
    exact h.listed _ _ hlook prior hprior

/-- `del by_full_key[prior_full]` takes out one entry. -/
theorem V11Inv.length_del {prior : FullKey × R} (hprior : prior ∈ st.byFullKey) :
    (st.byFullKey.filter fun e => decide (e.1 ≠ prior.1)).length + 1 = st.byFullKey.length := by
  have hmem : prior.1 ∈ st.byFullKey.map Prod.fst := List.mem_map_of_mem hprior
  have herase : (st.byFullKey.filter fun e => decide (e.1 ≠ prior.1)).map Prod.fst =
      (st.byFullKey.map Prod.fst).erase prior.1 := by
    rw [h.distinct.erase_eq_filter, List.filter_map]
    refine congrArg _ (List.filter_congr fun e _ => ?_)
    by_cases he : e.1 = prior.1 <;> simp [he]
  rw [← List.length_map Prod.fst, herase, List.length_erase_add_one hmem, List.length_map]

theorem V11Inv.step (clocks : Clocks) (row : R) :
    ∃ st', v11Step v clocks st row = .ok st' ∧ V11Inv v (seen ++ [row]) st' := by
  rw [v11Step]
  dsimp only
  by_cases hseen : tickV11LogicalKey v row ∈ st.byFullKey.map Prod.fst
  · rw [if_pos hseen]
    obtain ⟨e, he, hkey⟩ := List.mem_map.mp hseen
    exact ⟨_, rfl, h.counted row ⟨e, he, congrArg _ hkey⟩ (Nat.add_right_comm _ _ _)⟩
  rw [if_neg hseen]
  cases hfind : ((st.byBody.lookup (tickLogicalKey v row)).getD []).find? fun prior =>
    differ prior.1.payloadHash (v.payloadHash row) with
  | none =>
    refine ⟨_, rfl, h.extend row hseen _ (List.Sublist.refl _) (fun e he _ => he) ?_ h.total⟩
    exact fun e he => h.mem_of_prior he
  | some prior =>
    obtain ⟨hprior, hbody⟩ := h.mem_of_prior (List.mem_of_find?_eq_some hfind)
    dsimp only
    by_cases hout : outranks v prior.2 row = true
    · -- a prior row is in the first dict, so its key is there to delete
      rw [if_pos hout, if_pos (List.mem_map_of_mem hprior)]
      refine ⟨_, rfl, h.extend row hseen [] List.filter_sublist ?_ (by simp) ?_⟩
      · intro e he hother
        refine List.mem_filter.mpr ⟨he, decide_eq_true fun heq => hother ?_⟩
        rw [heq]
        exact hbody
      · have hlength := h.length_del hprior
        have htotal := h.total
        show _ + st.tally.dupSkip + (st.tally.quarantineCount + 1) = _
        omega
    · rw [if_neg hout]
      exact ⟨_, rfl, h.counted row ⟨prior, hprior, hbody⟩ (Nat.add_assoc _ _ _).symm⟩

theorem V11Inv.foldlM (clocks : Clocks) (rows : List R) :
    ∃ st', rows.foldlM (v11Step v clocks) st = .ok st' ∧ V11Inv v (seen ++ rows) st' := by
  induction rows generalizing seen st with
  | nil => exact ⟨st, rfl, by rwa [List.append_nil]⟩
  | cons row rest ih =>
    obtain ⟨st', hstep, hinv⟩ := h.step clocks row
    obtain ⟨st'', hrest, hfinal⟩ := ih hinv
    refine ⟨st'', ?_, by rwa [List.append_assoc] at hfinal⟩
    rw [List.foldlM_cons, hstep]
    exact hrest

end

theorem ticksV11_conserves (v : RowView R) (clocks : Clocks) (rows : List R) :
    ∃ r, deduplicateTicksV11 v clocks true rows = .ok r ∧
      Conserves v (tickV11LogicalKey v) rows r ∧ EmitsAll (tickLogicalKey v) rows r := by
  have hempty : V11Inv v [] { tally := Tally.new clocks } :=
    ⟨List.nodup_nil, by simp, by simp, by simp, by simp, rfl⟩
  obtain ⟨st, hrun, hinv⟩ := hempty.foldlM clocks rows
  refine ⟨finish v (st.byFullKey.map Prod.snd) st.tally, ?_, conserves_finish ?_ ?_ ?_, ?_⟩
  · rw [deduplicateTicksV11, if_pos rfl, hrun]
    rfl
  · rw [List.length_map]
    exact hinv.total
  · rintro row hrow
    obtain ⟨e, he, rfl⟩ := List.mem_map.mp hrow
    exact hinv.part e he
  · have hkeys : (st.byFullKey.map Prod.snd).map (tickV11LogicalKey v) =
        st.byFullKey.map Prod.fst := by
      rw [List.map_map]
      exact List.map_congr_left hinv.own
    rw [hkeys]
    exact hinv.distinct
  · intro row hrow
    obtain ⟨e, he, hbody⟩ := hinv.covered row hrow
    refine ⟨e.2, (List.mem_insertionSort _).mpr (List.mem_map_of_mem he), ?_⟩
    rw [← hbody, ← hinv.own e he]
    rfl

end

/-- **Conservation.** In multi-node mode the four functions return, and every row is emitted,
skipped or quarantined. Every logical key of the input is emitted; of the ticks of version 1.1,
which may drop a key for another of its body, every body is. Deduplicating candles, ticks or
orderbook events again changes and counts nothing. -/
theorem dedup_conserves {R : Type} (v : RowView R) (clocks : Clocks) (rows : List R) :
    Conserves v (candleLogicalKey v) rows (deduplicateCandles v clocks true rows) ∧
      Conserves v (tickLogicalKey v) rows (deduplicateTicks v clocks true rows) ∧
      Conserves v (orderbookLogicalKey v) rows (deduplicateOrderbookEvents v clocks true rows) ∧
      (∃ r, deduplicateTicksV11 v clocks true rows = .ok r ∧
        Conserves v (tickV11LogicalKey v) rows r ∧ EmitsAll (tickLogicalKey v) rows r) ∧
      EmitsAll (candleLogicalKey v) rows (deduplicateCandles v clocks true rows) ∧
      EmitsAll (tickLogicalKey v) rows (deduplicateTicks v clocks true rows) ∧
      EmitsAll (orderbookLogicalKey v) rows (deduplicateOrderbookEvents v clocks true rows) ∧
      ∀ later : Clocks,
        Unchanged (deduplicateCandles v clocks true rows).emitted
          (deduplicateCandles v later true) ∧
        Unchanged (deduplicateTicks v clocks true rows).emitted (deduplicateTicks v later true) ∧
        Unchanged (deduplicateOrderbookEvents v clocks true rows).emitted
          (deduplicateOrderbookEvents v later true) := by
  have hcandles := (candlePolicy v).conserves v clocks rows
  have hticks := (rawPolicy v "tick" (tickLogicalKey v)).conserves v clocks rows
  have hbook := (rawPolicy v "orderbook" (orderbookLogicalKey v)).conserves v clocks rows
  refine ⟨hcandles, hticks, hbook, ticksV11_conserves v clocks rows,
    (candlePolicy v).emitsAll v clocks rows, (rawPolicy v "tick" _).emitsAll v clocks rows,
    (rawPolicy v "orderbook" _).emitsAll v clocks rows, fun later => ⟨?_, ?_, ?_⟩⟩
  · exact (candlePolicy v).unchanged later hcandles
  · exact (rawPolicy v "tick" (tickLogicalKey v)).unchanged later hticks
  · exact (rawPolicy v "orderbook" (orderbookLogicalKey v)).unchanged later hbook

end MctraderData.Dedup
