import MctraderData.Storage.Candles

/-!
# mctrader-data — writing paper candles back

Model of `post_reverse_write_paper_candles` of `api/routes_v1.py` with `write_paper_candles` of
`paper_storage.py`. A lineage file beside the candles marks a snapshot as written and has the
hash of its payload: the same payload is skipped, another one is refused.

The handler hands `write_paper_candles` plain objects. A candle has the text of its timeframe,
where `derive_partition_path` asks a `Timeframe` for its `value`; it has no `value` of its own,
which `_candles_to_arrow` reads; and the lineage has no `model_dump`. The first of these raises
before anything is written, so every new snapshot is answered with status 500.

The search for the lineage file and the hash of a request are parameters.

## Results

* `reverseWrite_never_writes` — what any requests are answered, and what they leave.
-/

namespace MctraderData.Api

open Lib Eff
open Cold (Timeframe)
open Storage

/-! ## write_paper_candles -/

inductive PaperError where
  | valueError
  | attributeError
deriving DecidableEq, Repr

/-- `CandleSchema` -/
structure CandleSchema where
  exchange : String
  symbol : String
  timeframe : String
  tsUtc : Int
  openPrice : ℚ
  high : ℚ
  low : ℚ
  close : ℚ
  volume : ℚ
deriving DecidableEq

/-- A `CandleLike`: `member` is the `Timeframe`, or `none` for its text, and `value` is `none`
when there is no such attribute. -/
structure CandleLike extends CandleSchema where
  member : Option Timeframe
  value : Option (Option ℚ)

/-- The lineage; `json` is `none` when there is no `model_dump`. -/
structure Lineage where
  runId : String
  snapshotId : String
  json : Option String

/-- A stored file. -/
inductive PaperFile where
  | parquet (rows : List Candle)
  | sidecar (lineage : String) (canonicalSha256 : Option String)
deriving DecidableEq

abbrev PaperStore := AList fun _ : Path => PaperFile

abbrev PaperProg := Eff PaperStore PaperError

/-- An attribute that may be missing. -/
def readAttribute {α : Type} : Option α → PaperProg α
  | some a => pure a
  | none => throw .attributeError

/-- A candle of a known timeframe. -/
def CandleSchema.toCandle (c : CandleSchema) (timeframe : Timeframe) (value : Option ℚ) : Candle :=
  ⟨c.tsUtc, c.exchange, c.symbol, timeframe, c.openPrice, c.high, c.low, c.close, c.volume, value,
    none⟩

/-- One row of `_candles_to_arrow` -/
def candleRow (c : CandleLike) : PaperProg Candle := do
  let timeframe ← readAttribute c.member
  let value ← readAttribute c.value
  pure (c.toCandle timeframe value)

def putFile (path : Path) (file : PaperFile) : PaperProg Unit :=
  modify fun store => store.insert path file

/-- `write_paper_candles` -/
def writePaperCandles (candles : List CandleLike) (runId snapshotId : String)
    (lineage : Lineage) : PaperProg Path :=
  match candles with
  | [] => throw .valueError
  | head :: _ =>
    if lineage.runId ≠ runId ∨ lineage.snapshotId ≠ snapshotId then throw .valueError
    else do
      let timeframe ← readAttribute head.member
      let partition := derivePartitionPath (head.toCandle timeframe none) (some .paper) none
      let rows ← candles.mapM candleRow
      putFile (partition ++ ["part-" ++ snapshotId ++ ".parquet"]) (.parquet rows)
      let sidecar := partition ++ ["_paper_lineage_" ++ snapshotId ++ ".json"]
      putFile sidecar (.sidecar "" none)
      let json ← readAttribute lineage.json
      putFile sidecar (.sidecar json none)
      pure partition

/-! ## the handler -/

/-- `PaperCandlesRequest`, with its `PaperLineageSchema`. -/
structure PaperCandlesRequest where
  candles : List CandleSchema
  runId : String
  snapshotId : String
  lineageRunId : String
  lineageSnapshotId : String
  strategyId : String
  createdAt : String
deriving DecidableEq

/-- What the schema asks of a request. -/
def PaperCandlesRequest.valid (body : PaperCandlesRequest) : Bool :=
  decide (body.candles.length ≤ 1000) && decide (body.createdAt.length ≤ 32) &&
    [body.runId, body.snapshotId, body.lineageRunId, body.lineageSnapshotId,
      body.strategyId].all (fun text => decide (text.length ≤ 128)) &&
    body.candles.all fun c => decide (c.exchange.length ≤ 32) && decide (c.symbol.length ≤ 32) &&
      decide (c.timeframe.length ≤ 16) && !c.symbol.isEmpty &&
      c.symbol.toList.all fun x => x.isUpper || x.isDigit || x ∈ ['_', '-']

inductive Response where
  | written (path : Path)
  | idempotentSkip (path : Path)
  | conflict
  | unprocessable
  | writeError (e : PaperError)
deriving DecidableEq

structure ApiEnv where
  /-- `_find_sidecar`: the first file below the root that matches -/
  findSidecar : PaperStore → String → Option Path
  canonicalSha256 : PaperCandlesRequest → String

/-- `_build_candles`, one candle -/
def buildCandle (c : CandleSchema) : CandleLike := ⟨c, none, none⟩

/-- `_read_sidecar_sha256` -/
def readSidecarSha256 (store : PaperStore) (path : Path) : Option String :=
  match store.lookup path with
  | some (.sidecar _ sha256) => sha256
  | _ => none

/-- `_persist_sidecar_sha256` -/
def persistSidecarSha256 (store : PaperStore) (sha256 : String) (path : Path) : PaperStore :=
  match store.lookup path with
  | some (.sidecar lineage _) => store.insert path (.sidecar lineage (some sha256))
  | _ => store.insert path (.sidecar "" (some sha256))

/-- `post_reverse_write_paper_candles`, behind the schema. -/
def postPaperCandles (env : ApiEnv) (store : PaperStore) (body : PaperCandlesRequest) :
    Response × PaperStore :=
  let pattern := "_paper_lineage_" ++ body.snapshotId ++ ".json"
  let sha256 := env.canonicalSha256 body
  if !body.valid then (.unprocessable, store)
  else match env.findSidecar store pattern with
    | some sidecar =>
      if readSidecarSha256 store sidecar = some sha256 then
        (.idempotentSkip sidecar.dropLast, store)
      else (.conflict, store)
    | none =>
      if body.candles.isEmpty then (.unprocessable, store)
      else match writePaperCandles (body.candles.map buildCandle) body.runId
          body.snapshotId ⟨body.lineageRunId, body.lineageSnapshotId, none⟩ store with
        | (.error e, store') => (.writeError e, store')
        | (.ok path, store') => (.written path,
            (env.findSidecar store' pattern).elim store' (persistSidecarSha256 store' sha256))

/-- The answers to some requests, and the store after them. -/
def postAll (env : ApiEnv) (store : PaperStore) :
    List PaperCandlesRequest → List Response × PaperStore
  | [] => ([], store)
  | body :: rest =>
    let (response, store') := postPaperCandles env store body
    let (responses, store'') := postAll env store' rest
    (response :: responses, store'')

/-- No candle of the handler is written. -/
theorem writePaperCandles_eq {candles : List CandleSchema}
    (hcandles : candles ≠ []) (runId snapshotId : String) (lineage : Lineage)
    (store : PaperStore) :
    writePaperCandles (candles.map buildCandle) runId snapshotId lineage store =
      (.error (if lineage.runId = runId ∧ lineage.snapshotId = snapshotId then .attributeError
        else .valueError), store) := by
  obtain ⟨head, rest, rfl⟩ := List.exists_cons_of_ne_nil hcandles
  by_cases hids : lineage.runId = runId ∧ lineage.snapshotId = snapshotId
  · simp only [writePaperCandles, List.map_cons, hids, not_true, ne_eq, or_self, if_false]
    rfl
  · rw [if_neg hids]
    rw [not_and_or] at hids
    simp only [writePaperCandles, List.map_cons, ne_eq, hids, if_true]
    rfl

theorem postPaperCandles_writes_nothing (env : ApiEnv) (store : PaperStore)
    (body : PaperCandlesRequest) :
    (postPaperCandles env store body).2 = store ∧
      ∀ path, (postPaperCandles env store body).1 ≠ .written path := by
  simp only [postPaperCandles]
  cases body.valid with
  | false => simp
  | true =>
    cases env.findSidecar store ("_paper_lineage_" ++ body.snapshotId ++ ".json") with
    | some sidecar =>
      simp only [Bool.not_true, Bool.false_eq_true, if_false]
      split <;> simp
    | none =>
      cases body.candles with
      | nil => simp
      | cons c rest =>
        simp [writePaperCandles_eq (List.cons_ne_nil c rest), -List.map_cons]

/-- A valid request of a new snapshot, with its ids in order, is answered with an error. Nothing
that is posted changes the store, and nothing is answered `written`. -/
theorem reverseWrite_never_writes (env : ApiEnv) (store : PaperStore) :
    (∀ body : PaperCandlesRequest, body.valid = true → body.candles ≠ [] →
      body.lineageRunId = body.runId → body.lineageSnapshotId = body.snapshotId →
      env.findSidecar store ("_paper_lineage_" ++ body.snapshotId ++ ".json") = none →
      postPaperCandles env store body = (.writeError .attributeError, store)) ∧
    ∀ requests, (postAll env store requests).2 = store ∧
      ∀ path, Response.written path ∉ (postAll env store requests).1 := by
  refine ⟨fun body hvalid hcandles hrun hsnapshot hnew => ?_, fun requests => ?_⟩
  · unfold postPaperCandles
    simp only [hvalid, hnew, List.isEmpty_eq_false_iff.mpr hcandles,
      writePaperCandles_eq hcandles, hrun, hsnapshot, Bool.not_true, Bool.false_eq_true,
      if_false, and_self, if_true]
  · induction requests with
    | nil => exact ⟨rfl, fun path => List.not_mem_nil⟩
    | cons body rest ih =>
      obtain ⟨hstore, hresponse⟩ := postPaperCandles_writes_nothing env store body
      simp only [postAll, hstore, List.mem_cons, not_or]
      exact ⟨ih.1, fun path => ⟨(hresponse path).symm, ih.2 path⟩⟩

/-- One candle, posted to an empty store. -/
theorem first_post_fails :
    let body : PaperCandlesRequest := ⟨[⟨"upbit", "KRW-BTC", "1m", 0, 1, 1, 1, 1, 1⟩], "r", "s",
      "r", "s", "x", "2026-01-01"⟩
    body.valid = true ∧
      postPaperCandles ⟨fun _ _ => none, fun _ => ""⟩ ∅ body =
        (.writeError .attributeError, ∅) :=
  ⟨by decide +kernel, rfl⟩

end MctraderData.Api
