import Mathlib.Data.List.Dedup
import MctraderData.Compactor.Tiers

/-!
# mctrader-data — partition discovery

Model of `_discover_partitions_in_range` of `compactor/runner.py`: the date directories
of a channel and tier, under whatever schema version, that hold a part file. It looks
at the local disk only.

## Results

* `mem_discover_iff_hasLocal` — a partition is found exactly when a date directory
  with its name has a part file on the local disk, and its date is in the range.
-/

namespace MctraderData.Compactor

open Lib
open Nas

variable {C R : Type} [Blob C] {env : Env R} {w : World C}

/-- The date directory a directory lies in, if it matches
`schema_version=*/tier=<tier>/exchange=*/symbol=*/date=*`. -/
def dateDirOf (channel tier : String) : Path → Option Path
  | market :: c :: v :: t :: e :: s :: d :: _ =>
    if market = "market" ∧ c = channel ∧ hasPrefix "schema_version=" v ∧ t = "tier=" ++ tier ∧
        hasPrefix "exchange=" e ∧ hasPrefix "symbol=" s ∧ hasPrefix "date=" d then
      some [market, c, v, t, e, s, d]
    else none
  | _ => none

/-- `channel_root.glob("schema_version=*/tier=<tier>/exchange=*/symbol=*/date=*")` -/
def dateDirs (w : World C) (channel tier : String) : List Path :=
  ((w.dirs ++ w.files.keys.map List.dropLast).filterMap (dateDirOf channel tier)).dedup

/-- The exchange, symbol and date a date directory names. -/
def parseDateDir (env : Env R) (dir : Path) : Option (String × String × Int) := do
  let exchange ← dir.findSome? (hiveValue "exchange")
  let symbol ← dir.findSome? (hiveValue "symbol")
  let dateStr ← dir.findSome? (hiveValue "date")
  let d ← env.fromisoformat dateStr
  pure (exchange, symbol, d)

/-- The order of Python tuples. -/
def partitionLe (a b : String × String × Int) : Bool :=
  decide (a.1.toList < b.1.toList ∨ a.1 = b.1 ∧
    (a.2.1.toList < b.2.1.toList ∨ a.2.1 = b.2.1 ∧ a.2.2 ≤ b.2.2))

/-- The filters of the discovery loop on one date directory. -/
def selectDateDir (env : Env R) (w : World C) (startDate endDate : Int)
    (exchange : Option String) (dir : Path) : Option (String × String × Int) := do
  let found ← parseDateDir env dir
  if (∀ e ∈ exchange, found.1 = e) ∧ startDate ≤ found.2.2 ∧ found.2.2 ≤ endDate ∧
      rglobParts w dir ≠ [] then
    some found
  else none

/-- `_discover_partitions_in_range` -/
def discoverPartitionsInRange (env : Env R) (w : World C) (channel : String)
    (startDate endDate : Int) (exchange : Option String) (tier : String) :
    List (String × String × Int) :=
  ((dateDirs w channel tier).filterMap
    (selectDateDir env w startDate endDate exchange)).insertionSort (partitionLe · ·)

/-! ## what is found -/

variable {channel tier : String} {dir : Path}

theorem dateDirOf_eq_some {path : Path} (h : dateDirOf channel tier path = some dir) :
    dir <+: path ∧ ∃ v e s d, dir = ["market", channel, v, "tier=" ++ tier, e, s, d] := by
  unfold dateDirOf at h
  split at h
  · rename_i market c v t e s d rest
    split at h
    · rename_i hmatch
      obtain ⟨rfl, rfl, -, rfl, -⟩ := hmatch
      cases h
      exact ⟨⟨rest, rfl⟩, v, e, s, d, rfl⟩
    · cases h
  · cases h

theorem dateDirOf_tierDir {exchange symbol dateStr v tier' : String} (tier : String) (rest : Path) :
    dateDirOf channel tier (tierDir v tier' exchange symbol channel dateStr ++ rest) =
      if tier' = tier then some (tierDir v tier' exchange symbol channel dateStr) else none := by
  simp [tierDir, dateDirOf, hasPrefix]

theorem mem_dateDirs :
    dir ∈ dateDirs w channel tier ↔
      ∃ path, (path ∈ w.dirs ∨ ∃ file ∈ w.files.keys, file.dropLast = path) ∧
        dateDirOf channel tier path = some dir := by
  unfold dateDirs
  simp only [List.mem_dedup, List.mem_filterMap, List.mem_append, List.mem_map]

variable {p : Partition}

/-- The date directory of a partition names it. -/
theorem parseDateDir_tierDir {v : String} (hv : schemaVersion p.channel = some v) (tier : String) :
    parseDateDir env (p.tierDir env v tier) = some (p.exchange, p.symbol, p.dateUtc) := by
  have hchannel : ∀ label ∈ ["exchange", "symbol", "date"], hiveValue label p.channel = none := by
    have h := schemaVersion_channel hv
    simp only [List.mem_cons, List.not_mem_nil, or_false] at h
    rcases h with h | h | h <;> rw [h] <;> decide
  have hmarket : ∀ label ∈ ["exchange", "symbol", "date"], hiveValue label "market" = none := by
    decide
  have hother : ∀ label ∈ ["exchange", "symbol", "date"],
      hiveValue label ("schema_version=" ++ v) = none ∧
        hiveValue label ("tier=" ++ tier) = none := by
    simp [hiveValue]
  have hexchange : ∀ x, hiveValue "exchange" ("exchange=" ++ x) = some x ∧
      hiveValue "symbol" ("exchange=" ++ x) = none ∧
        hiveValue "date" ("exchange=" ++ x) = none := by
    simp [hiveValue]
  have hsymbol : ∀ x, hiveValue "symbol" ("symbol=" ++ x) = some x ∧
      hiveValue "date" ("symbol=" ++ x) = none := by
    simp [hiveValue]
  have hdate : ∀ x, hiveValue "date" ("date=" ++ x) = some x := by simp [hiveValue]
  unfold parseDateDir Partition.tierDir tierDir
  simp [hmarket, hchannel, hother, hexchange, hsymbol, hdate,
    env.fromisoformat_isoformat]

/-- A date directory is found from every path below it. -/
theorem dateDirOf_of_prefix {path path' : Path} (h : dateDirOf channel tier path = some dir)
    (hpre : dir <+: path') : dateDirOf channel tier path' = some dir := by
  unfold dateDirOf at h
  split at h
  · split at h
    · rename_i hmatch
      cases h
      obtain ⟨rest, rfl⟩ := hpre
      simp only [List.cons_append, List.nil_append, dateDirOf]
      rw [if_pos hmatch]
    · cases h
  · cases h

variable {found : String × String × Int} {startDate : Int} {exchange : Option String}

theorem selectDateDir_eq_some {endDate : Int} :
    selectDateDir env w startDate endDate exchange dir = some found ↔
      parseDateDir env dir = some found ∧ (∀ e ∈ exchange, found.1 = e) ∧
        startDate ≤ found.2.2 ∧ found.2.2 ≤ endDate ∧ rglobParts w dir ≠ [] := by
  unfold selectDateDir
  cases parseDateDir env dir with
  | none => simp
  | some f =>
    simp only [Option.bind_eq_bind, Option.bind_some, Option.ite_none_right_eq_some,
      Option.some.injEq]
    constructor
    · rintro ⟨h, rfl⟩
      exact ⟨rfl, h⟩
    · rintro ⟨rfl, h⟩
      exact ⟨h, rfl⟩

theorem mem_discoverPartitionsInRange {endDate : Int} :
    found ∈ discoverPartitionsInRange env w channel startDate endDate exchange tier ↔
      ∃ dir ∈ dateDirs w channel tier, parseDateDir env dir = some found ∧
        (∀ e ∈ exchange, found.1 = e) ∧ startDate ≤ found.2.2 ∧ found.2.2 ≤ endDate ∧
        rglobParts w dir ≠ [] := by
  unfold discoverPartitionsInRange
  rw [List.mem_insertionSort, List.mem_filterMap]
  simp only [selectDateDir_eq_some]

/-- A local part file in a date directory of the tier that names the partition. -/
def HasLocal (env : Env R) (w : World C) (tier : String) (p : Partition) : Prop :=
  ∃ path c dir, w.files.lookup path = some c ∧ isPart (path.getLastD "") ∧
    dateDirOf p.channel tier path.dropLast = some dir ∧
    parseDateDir env dir = some (p.exchange, p.symbol, p.dateUtc)

/-- **What the discovery finds**: the partitions of the range with a local part file. -/
theorem mem_discover_iff_hasLocal {endDate : Int} :
    (p.exchange, p.symbol, p.dateUtc) ∈
        discoverPartitionsInRange env w p.channel startDate endDate none tier ↔
      HasLocal env w tier p ∧ startDate ≤ p.dateUtc ∧ p.dateUtc ≤ endDate := by
  rw [mem_discoverPartitionsInRange]
  constructor
  · rintro ⟨dir, hdir, hparse, -, hstart, hend, hparts⟩
    obtain ⟨path, hpath⟩ := List.exists_mem_of_ne_nil _ hparts
    obtain ⟨⟨c, hc⟩, hpre, hpart⟩ := mem_rglobParts.mp hpath
    obtain ⟨path', -, hof⟩ := mem_dateDirs.mp hdir
    exact ⟨⟨path, c, dir, hc, hpart, dateDirOf_of_prefix hof hpre, hparse⟩, hstart, hend⟩
  · rintro ⟨⟨path, c, dir, hc, hpart, hof, hparse⟩, hstart, hend⟩
    have hkey : path ∈ w.files.keys := by
      rw [← AList.mem_keys, ← AList.lookup_isSome, hc]
      rfl
    refine ⟨dir, mem_dateDirs.mpr ⟨_, Or.inr ⟨path, hkey, rfl⟩, hof⟩, hparse, nofun,
      hstart, hend, ?_⟩
    exact List.ne_nil_of_mem (mem_rglobParts.mpr ⟨⟨c, hc⟩, (dateDirOf_eq_some hof).1, hpart⟩)

/-- The part files of the canonical directory are such files. -/
theorem hasLocal_of_rglob {v : String} (hv : schemaVersion p.channel = some v)
    (h : rglobParts w (p.tierDir env v tier) ≠ []) : HasLocal env w tier p := by
  obtain ⟨path, hpath⟩ := List.exists_mem_of_ne_nil _ h
  obtain ⟨⟨c, hc⟩, ⟨rest, hrest⟩, hpart⟩ := mem_rglobParts.mp hpath
  refine ⟨path, c, p.tierDir env v tier, hc, hpart, ?_, parseDateDir_tierDir hv tier⟩
  rw [← hrest]
  unfold Partition.tierDir
  rw [dateDirOf_tierDir, if_pos rfl]

end MctraderData.Compactor
