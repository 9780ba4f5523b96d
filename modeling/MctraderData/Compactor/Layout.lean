import MctraderData.Nas.DualWriter

/-!
# mctrader-data — files and directories of the compactor

What the data root holds: WAL segments (newline-delimited records), parquet files and
small text files (markers, lineage). A parquet file is a schema and the record
batches a reader gets from it; of a row the compactor looks at `ts_utc` only, so rows
are a parameter with a timestamp.

The libraries the compactor calls are parameters with the law it relies on (`Env`):
`hashlib.sha256(...)[:16]` for run ids, `date.isoformat`/`fromisoformat`, and
pyarrow's `iter_batches`, which splits a file's rows into batches.
-/

namespace MctraderData.Compactor

open Lib
open Nas

/-- A row with its `ts_utc`, in microseconds since the epoch. -/
class Timed (R : Type) where
  tsUtc : R → Int

export Timed (tsUtc)

/-- A parquet file: its arrow schema, the batches `iter_batches` yields, and whether
every row group carries min/max statistics. -/
structure Table (R : Type) where
  schema : String
  batches : List (List R)
  hasStats : Bool
deriving DecidableEq

def Table.rows {R : Type} (t : Table R) : List R := t.batches.flatten

/-- What a file holds. -/
inductive Content (W R : Type) where
  | ndjson (records : List W)
  | parquet (table : Table R)
  | text (body : String)
deriving DecidableEq

/-- Contents that stand for their own hash, on which concrete runs are evaluated. -/
instance {W R : Type} [DecidableEq W] [DecidableEq R] : Blob (Content W R) where
  Digest := Content W R
  size
    | .ndjson records => records.length
    | .parquet table => table.rows.length
    | .text body => body.length
  sha256 := id
  sha256_injective := Function.injective_id

/-- `pq.ParquetFile`; `none` is the `ArrowInvalid` of a file that is not parquet. -/
def Content.asTable {W R : Type} : Content W R → Option (Table R)
  | .parquet table => some table
  | _ => none

/-- The libraries around the compactor. -/
structure Env (R : Type) where
  /-- `sha256("|".join(names))[:16]` -/
  runId : List Path → String
  /-- `os.getpid()` -/
  pid : String
  /-- The batches in which rows written together are read back. -/
  iterBatches : List R → List (List R)
  iterBatches_flatten : ∀ rows, (iterBatches rows).flatten = rows
  /-- `date.isoformat`, on days since the epoch. -/
  isoformat : Int → String
  fromisoformat : String → Option Int
  fromisoformat_isoformat : ∀ day, fromisoformat (isoformat day) = some day

/-- Rows that are their timestamp, on which concrete runs are evaluated. -/
instance : Timed Int := ⟨id⟩

/-- An environment for concrete runs: one run id, one batch per file, and dates
written as tally marks. -/
def tallyEnv : Env Int where
  runId _ := "0123456789abcdef"
  pid := "1"
  iterBatches rows := [rows]
  iterBatches_flatten rows := by simp
  isoformat day := String.ofList <| match day with
    | .ofNat n => List.replicate n '1'
    | .negSucc n => '-' :: List.replicate n '1'
  fromisoformat text := some <| match text.toList with
    | '-' :: marks => .negSucc marks.length
    | marks => .ofNat marks.length
  fromisoformat_isoformat day := by
    cases day with
    | ofNat n => cases n <;> simp [List.replicate_succ]
    | negSucc n => simp

/-! ## names -/

def hasPrefix (pre name : String) : Bool := pre.toList.isPrefixOf name.toList

def hasSuffix (suffix name : String) : Bool := suffix.toList.isSuffixOf name.toList

/-- The glob `part-*.parquet` -/
def isPart (name : String) : Bool := hasPrefix "part-" name && hasSuffix ".parquet" name

/-- `dir.rglob("part-*.parquet")`, in the order of the directory walk. -/
def rglobParts {C : Type} [Blob C] (w : World C) (dir : Path) : List Path :=
  w.files.keys.filter fun p => dir.isPrefixOf p.dropLast && isPart (p.getLastD "")

theorem hasSuffix_append (stem suffix : String) : hasSuffix suffix (stem ++ suffix) = true := by
  unfold hasSuffix
  rw [String.toList_append]
  exact List.isSuffixOf_iff_suffix.mpr (List.suffix_append _ _)

theorem isPart_name (stem : String) : isPart ("part-" ++ stem ++ ".parquet") = true := by
  have hsuffix : ".parquet".toList <:+ ("part-" ++ stem ++ ".parquet").toList := by
    rw [String.toList_append]
    exact List.suffix_append _ _
  simp only [isPart, hasPrefix, hasSuffix, List.isSuffixOf_iff_suffix.mpr hsuffix]
  simp

theorem mem_rglobParts {C : Type} [Blob C] {w : World C} {path dir : Path} :
    path ∈ rglobParts w dir ↔
      (∃ c, w.files.lookup path = some c) ∧ dir <+: path.dropLast ∧ isPart (path.getLastD "") := by
  unfold rglobParts
  rw [List.mem_filter, Bool.and_eq_true, List.isPrefixOf_iff_prefix, ← AList.mem_keys,
    ← AList.lookup_isSome, Option.isSome_iff_exists]

/-- Files outside a directory do not change the glob in it. -/
theorem rglobParts_of_agreeOff {C : Type} [Blob C] {w w' : World C} {dir : Path}
    {S : Path → Prop} (h : AgreeOff S w.files w'.files) (hS : ∀ k, S k → ¬ dir <+: k.dropLast) :
    rglobParts w' dir = rglobParts w dir := by
  refine h.keys _ fun k hk => ?_
  rw [Bool.and_eq_false_iff]
  exact Or.inl (Bool.eq_false_iff.mpr fun hpre => hS k hk (List.isPrefixOf_iff_prefix.mp hpre))

theorem rglobParts_insert_of_not {C : Type} [Blob C] {w w' : World C} {path dir : Path} {c : C}
    (hfiles : w'.files = w.files.insert path c) (h : ¬ dir <+: path.dropLast) :
    rglobParts w' dir = rglobParts w dir := by
  refine rglobParts_of_agreeOff (S := (· = path)) ?_ fun k hk => hk ▸ h
  rw [hfiles]
  exact AgreeOff.insert (S := (· = path)) rfl c w.files

/-- `_CHANNEL_SCHEMA_VERSION` and `_schema_version`; `none` is the
`NotImplementedError`. -/
def schemaVersion (channel : String) : Option String :=
  if channel = "transaction" then some "tick.v1"
  else if channel = "orderbooksnapshot" then some "orderbook_snapshot.v1"
  else if channel = "orderbookdepth" then some "orderbook_depth.v1"
  else none

theorem schemaVersion_channel {channel v : String} (h : schemaVersion channel = some v) :
    channel ∈ ["transaction", "orderbooksnapshot", "orderbookdepth"] := by
  unfold schemaVersion at h
  split_ifs at h <;> simp_all

/-- One exchange, symbol, channel and day. -/
structure Partition where
  exchange : String
  symbol : String
  channel : String
  dateUtc : Int
deriving DecidableEq

/-- The date directory of a partition in one tier. -/
def tierDir (schemaVer tier exchange symbol channel dateStr : String) : Path :=
  ["market", channel, "schema_version=" ++ schemaVer, "tier=" ++ tier,
    "exchange=" ++ exchange, "symbol=" ++ symbol, "date=" ++ dateStr]

theorem tierDir_prefix_iff {v t e s c d v' t' e' s' c' d' : String} {rest : Path} :
    tierDir v t e s c d <+: tierDir v' t' e' s' c' d' ++ rest ↔
      c = c' ∧ v = v' ∧ t = t' ∧ e = e' ∧ s = s' ∧ d = d' := by
  simp [tierDir, List.cons_prefix_cons]

/-- The key of a file in a tier is its path, whichever way the tier is given. -/
theorem buildNasKey_tierDir {schemaVer tier exchange symbol channel dateStr : String}
    (hv : schemaVersion channel = some schemaVer) (rest : Path) :
    buildNasKey (tierDir schemaVer tier exchange symbol channel dateStr ++ rest) (some tier) =
      some (tierDir schemaVer tier exchange symbol channel dateStr ++ rest) := by
  have hmarket : hiveValue "tier" "market" = none := by decide
  have hchannel : hiveValue "tier" channel = none := by
    have h := schemaVersion_channel hv
    simp only [List.mem_cons, List.not_mem_nil, or_false] at h
    rcases h with rfl | rfl | rfl <;> decide
  have hversion : hiveValue "tier" ("schema_version=" ++ schemaVer) = none := by
    simp [hiveValue]
  have htier : hiveValue "tier" ("tier=" ++ tier) = some tier := by
    simp [hiveValue]
  unfold buildNasKey extractTier tierDir
  simp only [List.cons_append, List.findSome?_cons, hmarket, hchannel, hversion, htier]
  simp

/-- The keys of files are told apart by their text, the legacy key of an L1 file leads to its
flat key, and a file below a date directory is in the listing of its own components only. -/
theorem nas_key_laws :
    (∀ path path' tier tier' key key', Slashless path → Slashless path' →
      buildNasKey path tier = some key → buildNasKey path' tier' = some key' →
        keyText key = keyText key' → path = path') ∧
    (∀ path, extractTier path = some "L1" →
      (buildLegacyNasKey path).map legacyKeyToCanonical = buildNasKey path none) ∧
    ∀ v t e s c d rest v' t' e' s' c' d' pfx, rest ≠ [] → Slashless (tierDir v t e s c d ++ rest) →
      buildNasPrefix t' c' v' e' s' d' = some pfx → Slashless pfx →
        (keyText pfx ++ ['/'] <+: keyText (tierDir v t e s c d ++ rest) ↔
          c' = c ∧ v' = v ∧ t' = t ∧ e' = e ∧ s' = s ∧ d' = d) := by
  refine ⟨?_, ?_, ?_⟩
  · intro path path' tier tier' key key' hpath hpath' hkey hkey' htext
    obtain ⟨hne, rfl⟩ := buildNasKey_eq_some hkey
    obtain ⟨hne', rfl⟩ := buildNasKey_eq_some hkey'
    have hsplit := congrArg (List.splitOn '/') htext
    rw [splitOn_keyText hpath hne, splitOn_keyText hpath' hne'] at hsplit
    exact List.map_injective_iff.mpr (fun _ _ => String.toList_inj.mp) hsplit
  · intro path htier
    cases path with
    | nil => cases htier
    | cons x rest => simp [buildLegacyNasKey, buildNasKey, htier, legacyKeyToCanonical]
  · intro v t e s c d rest v' t' e' s' c' d' pfx hrest hpath hpfx hslash
    have hdir : pfx = tierDir v' t' e' s' c' d' := by
      unfold buildNasPrefix at hpfx
      split_ifs at hpfx
      exact (Option.some.inj hpfx).symm
    subst hdir
    have hlt : (tierDir v' t' e' s' c' d').length < (tierDir v t e s c d ++ rest).length := by
      have hpos := List.length_pos_of_ne_nil hrest
      simp only [tierDir, List.length_append, List.length_cons, List.length_nil]
      omega
    rw [keyText_prefix_iff hslash hpath (List.cons_ne_nil _ _) hlt, tierDir_prefix_iff]

/-- A symbol that is the beginning of another has a listing of its own. -/
theorem nas_key_laws_symbol_prefix :
    ¬ keyText (tierDir "tick.v1" "L1" "bithumb" "BTC" "transaction" "2024-01-01") ++ ['/'] <+:
      keyText (tierDir "tick.v1" "L1" "bithumb" "BTC-KRW" "transaction" "2024-01-01" ++
        ["part-a.parquet"]) := by
  intro h
  have hiff := nas_key_laws.2.2 "tick.v1" "L1" "bithumb" "BTC-KRW" "transaction" "2024-01-01"
    ["part-a.parquet"] "tick.v1" "L1" "bithumb" "BTC" "transaction" "2024-01-01" _
    (List.cons_ne_nil _ _) (by decide) rfl (by decide)
  exact absurd (hiff.mp h) (by decide)

/-- A date with a slash in it is not refused, and lists an hour of the day before the slash. -/
theorem nas_prefix_of_slashed_date :
    (buildNasPrefix "L2" "transaction" "tick.v1" "bithumb" "BTC" "2024-01-01/hour=01").any
      fun pfx => decide (keyText pfx ++ ['/'] <+:
        keyText (tierDir "tick.v1" "L2" "bithumb" "BTC" "transaction" "2024-01-01" ++
          ["hour=01", "node=MERGED", "part-a.parquet"])) := by
  decide

end MctraderData.Compactor
