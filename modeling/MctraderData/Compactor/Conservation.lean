import MctraderData.Compactor.Tiers

/-!
# mctrader-data — which rows the L2 and L3 files have

`compact_hour` is called for every hour of a date, and every call merges all L1 rows of
the date: each hour file is a copy of the whole day, and the day file merged from the
hour files has every row once per hour.

## Results

* `compactHour_isolated_iff` — the hour file has exactly the rows of its hour when the
  L1 rows of the date all lie in that hour, or cannot be merged.
* `compactDay_never_conserves` — the day file never has each L1 row exactly once.
-/

namespace MctraderData.Compactor

open Lib Eff
open Nas

variable {W R : Type} [Timed R] [Blob (Content W R)] {env : Env R} {w : World (Content W R)}
  {p : Partition}

/-! ## the rows of a finished merge -/

section

variable {κ : Type} {content : κ → Option (Table R)} {total : Prop} {candidates : List κ}
  {runId : List κ → String} {out : MergeOutput} {w' : World (Content W R)} {path : Path}
  {r : Except Exn (Option Path)}

/-- A merge that returns a path has copied all rows of its sources. -/
theorem MergePost.written
    (h : MergePost env content total candidates runId out w (.ok (some path)) w') :
    Mergeable content candidates ∧ ∃ t, w'.files.lookup path = some (.parquet t) ∧
      t.rows = sourceRows content (mergeOrder content candidates) := by
  cases h with
  | merged _ _ last hread hsome hdone hpath hfiles hdirs hstores =>
    refine ⟨mergeable_iff.mpr ⟨hread, hsome, last, hdone⟩, mergedTable content env candidates, ?_,
      mergedTable_rows env hdone⟩
    simp [hfiles]

/-- Sources that can be merged are, if every fetch succeeds. -/
theorem MergePost.of_mergeable (h : MergePost env content total candidates runId out w r w')
    (htotal : total) (hm : Mergeable content candidates) : ∃ path, r = .ok (some path) := by
  obtain ⟨hread, hsome, last, hdone⟩ := mergeable_iff.mp hm
  cases h with
  | empty _ _ hempty => exact absurd hempty hsome
  | merged _ path => exact ⟨path, rfl⟩
  | quarantined _ _ _ hviol => simp [hdone] at hviol
  | raised e _ hwhy => simp [hread, hdone, htotal] at hwhy

end

/-! ## hour isolation -/

/-- `ts_utc` lies in `[h:00, h+1:00)` of the day. -/
def inHour (dateUtc : Int) (hourUtc : Nat) (r : R) : Bool :=
  decide ((dateUtc * 24 + hourUtc) * 3600000000 ≤ tsUtc r ∧
    tsUtc r < (dateUtc * 24 + hourUtc + 1) * 3600000000)

/-- If the call returns a path, the file there has exactly the given rows. -/
def WritesExactly (m : Prog (Content W R) (Option Path)) (rows : List R)
    (w : World (Content W R)) : Prop :=
  ∀ path, m.result w = .ok (some path) →
    ∃ t, (m.after w).files.lookup path = some (.parquet t) ∧ t.rows.Perm rows

omit [Timed R] in
/-- A selection keeps all rows exactly when it selects every one. -/
theorem perm_filter_iff {rows : List R} {q : R → Bool} :
    rows.Perm (rows.filter q) ↔ ∀ r ∈ rows, q r := by
  exact ⟨fun h => List.length_filter_eq_length_iff.mp h.length_eq.symm,
    fun h => by rw [List.filter_eq_self.mpr h]⟩

variable {m : Prog (Content W R) (Option Path)}

theorem not_mergeable_nil {κ : Type} {content : κ → Option (Table R)} :
    ¬ Mergeable content [] :=
  fun h => h.nonempty rfl

section

variable {nas : Bool} {span : Span} {w' : World (Content W R)}

/-- A call that returns a path has copied all rows of its inputs. -/
theorem CallPost.written {path : Path} (h : CallPost env nas p span w (.ok (some path)) w') :
    Mergeable (inputTable w nas) (span.inputs env w nas p) ∧
      ∃ t, w'.files.lookup path = some (.parquet t) ∧ t.rows = sourceRows (inputTable w nas)
        (mergeOrder (inputTable w nas) (span.inputs env w nas p)) := by
  cases h with
  | merge _ _ v _ hpost => exact hpost.written

/-- Which path that is, and the file written there. -/
theorem CallPost.returned {path : Path} (h : CallPost env nas p span w (.ok (some path)) w') :
    ∃ v, schemaVersion p.channel = some v ∧ path = (span.output env p v).dir ++ ["part-" ++
        span.runId env nas (mergeOrder (inputTable w nas) (span.inputs env w nas p)) ++
          ".parquet"] ∧
      w'.files = w.files.insert path
        (.parquet (mergedTable (inputTable w nas) env (span.inputs env w nas p))) := by
  cases h with
  | merge _ _ v hv hpost =>
    cases hpost with
    | merged _ _ _ _ _ _ hpath hfiles => exact ⟨v, hv, hpath, hfiles⟩

/-- A call whose inputs can be merged returns a path, if the NAS answers. -/
theorem CallPost.of_mergeable {r : Except Exn (Option Path)} (h : CallPost env nas p span w r w')
    (hans : nas = true → Answering w.replies)
    (hm : Mergeable (inputTable w nas) (span.inputs env w nas p)) :
    ∃ path, r = .ok (some path) := by
  cases h with
  | refused e hinputs =>
    rw [hinputs] at hm
    exact absurd hm not_mergeable_nil
  | unlisted _ _ hnas hno => exact absurd (hans hnas) hno
  | merge _ _ v _ hpost => exact hpost.of_mergeable hans hm

variable (hpost : CallPost env nas p span w (m.result w) (m.after w)) {q : R → Bool}

include hpost

/-- A call writes a selection of the rows of its inputs if the selection is everything, or there
is nothing to merge. -/
theorem writesExactly_of_call (h : Mergeable (inputTable w nas) (span.inputs env w nas p) →
      ∀ r ∈ sourceRows (inputTable w nas) (span.inputs env w nas p), q r) :
    WritesExactly m ((sourceRows (inputTable w nas) (span.inputs env w nas p)).filter q) w := by
  intro path hpath
  rw [hpath] at hpost
  obtain ⟨hm, t, ht, hrows⟩ := hpost.written
  refine ⟨t, ht, ?_⟩
  rw [hrows, List.filter_eq_self.mpr (h hm)]
  exact sourceRows_mergeOrder_perm _ _

theorem all_of_writesExactly (hans : nas = true → Answering w.replies)
    (h : WritesExactly m ((sourceRows (inputTable w nas) (span.inputs env w nas p)).filter q) w)
    (hm : Mergeable (inputTable w nas) (span.inputs env w nas p)) :
    ∀ r ∈ sourceRows (inputTable w nas) (span.inputs env w nas p), q r := by
  obtain ⟨path, hpath⟩ := hpost.of_mergeable hans hm
  obtain ⟨t, ht, hperm⟩ := h path hpath
  rw [hpath] at hpost
  obtain ⟨-, t', ht', hrows⟩ := hpost.written
  cases ht.symm.trans ht'
  rw [hrows] at hperm
  exact perm_filter_iff.mp ((sourceRows_mergeOrder_perm _ _).symm.trans hperm)

end

/-- **Hour isolation.** From the local disk, and from NAS whatever it answers: if
`compact_hour` returns a path, the file has exactly the L1 rows of the date that lie in
the hour. This is so exactly when all of them lie in that hour, or they cannot be
merged at all. -/
theorem compactHour_isolated_iff (env : Env R) (w : World (Content W R)) (p : Partition)
    (hourUtc : Nat) :
    (WritesExactly (compactHour env false p hourUtc)
        ((sourceRows (localTable w) (localL1 env w p)).filter (inHour p.dateUtc hourUtc)) w ↔
      (Mergeable (localTable w) (localL1 env w p) →
        ∀ r ∈ sourceRows (localTable w) (localL1 env w p), inHour p.dateUtc hourUtc r)) ∧
    ((∀ replies, WritesExactly (compactHour env true p hourUtc)
        ((sourceRows (nasTable w) (nasL1 env w p)).filter (inHour p.dateUtc hourUtc))
        { w with replies := replies }) ↔
      (Mergeable (nasTable w) (nasL1 env w p) →
        ∀ r ∈ sourceRows (nasTable w) (nasL1 env w p), inHour p.dateUtc hourUtc r)) := by
  have hcall := fun nas w => Span.compact_post env nas p (.hour hourUtc) (W := W) w
  refine ⟨⟨all_of_writesExactly (hcall false w) nofun, writesExactly_of_call (hcall false w)⟩,
    ⟨fun h => ?_, fun h replies => writesExactly_of_call (hcall true { w with replies }) h⟩⟩
  -- a NAS that answers every request merges what can be merged
  exact all_of_writesExactly (hcall true { w with replies := Stream'.const (.ok "etag" none) })
    (fun _ => Answering.const "etag" none) (h _)

/-! ## from L1 to L3 -/

/-- `compact_hour` for the 24 hours, an exception of one hour not ending the loop. -/
def compactHours (env : Env R) (p : Partition) : Prog (Content W R) Unit :=
  forEach (List.range 24) fun hourUtc =>
    tryCatch (do
      let _ ← compactHour env false p hourUtc
      pure ()) fun _ => pure ()

/-- After all 24 hours, `compact_day` returns a path, and the file has each L1 row of
the date exactly once, in non-decreasing order. -/
def ConservesDay (env : Env R) (w : World (Content W R)) (p : Partition) : Prop :=
  ∃ path t, (compactDay env false p).result ((compactHours env p).after w) = .ok (some path) ∧
    ((compactDay env false p).after ((compactHours env p).after w)).files.lookup path =
      some (.parquet t) ∧
    t.rows.Perm (sourceRows (localTable w) (localL1 env w p)) ∧
    (t.rows.map tsUtc).IsChain (· ≤ ·)

variable {v : String} {hourUtc : Nat}

/-- Where the hour file goes. -/
def hourPath (env : Env R) (w : World (Content W R)) (p : Partition) (v : String)
    (hourUtc : Nat) : Path :=
  (p.hourOutput env v hourUtc).dir ++
    ["part-" ++ env.runId (mergeOrder (localTable w) (localL1 env w p)) ++ ".parquet"]

theorem hourPath_dropLast : (hourPath env w p v hourUtc).dropLast =
    (p.hourOutput env v hourUtc).dir := by
  simp [hourPath]

theorem hourPath_isPart : isPart ((hourPath env w p v hourUtc).getLastD "") = true := by
  exact isPart_name _

theorem tier_prefix_hourPath {tier : String} :
    p.tierDir env v tier <+: (hourPath env w p v hourUtc).dropLast ↔ tier = "L2" := by
  rw [hourPath_dropLast]
  unfold Partition.hourOutput Partition.tierDir
  rw [tierDir_prefix_iff]
  simp

/-- The table every hour writes, if the L1 files can be merged. -/
def dayCopy (env : Env R) (w : World (Content W R)) (p : Partition) : Table R :=
  mergedTable (localTable w) env (localL1 env w p)

/-- What holds after the hours `done`: the L1 files are as they were; if they can be
merged, each hour has a copy of all their rows; if not, no L2 file was added. -/
structure HoursInv (env : Env R) (w : World (Content W R)) (p : Partition) (v : String)
    (done : List Nat) (w' : World (Content W R)) : Prop where
  sources : rglobParts w' (p.tierDir env v "L1") = localL1 env w p
  tables : ∀ path ∈ localL1 env w p, localTable w' path = localTable w path
  copies : Mergeable (localTable w) (localL1 env w p) →
    ∀ h ∈ done, localTable w' (hourPath env w p v h) = some (dayCopy env w p)
  none : ¬ Mergeable (localTable w) (localL1 env w p) →
    rglobParts w' (p.tierDir env v "L2") = rglobParts w (p.tierDir env v "L2")

variable {w' : World (Content W R)} {done : List Nat}

/-- A call that writes no file and cannot merge keeps the invariant. -/
theorem HoursInv.skip {w'' : World (Content W R)} (h : HoursInv env w p v done w')
    (hfiles : w''.files = w'.files) (hno : ¬ Mergeable (localTable w) (localL1 env w p)) (x : Nat) :
    HoursInv env w p v (done ++ [x]) w'' where
  sources := by rw [← h.sources, rglobParts, hfiles, rglobParts]
  tables := localTable_congr hfiles ▸ h.tables
  copies hm := absurd hm hno
  none hno := by rw [← h.none hno, rglobParts, hfiles, rglobParts]

/-- One hour. -/
theorem compactHour_step (hv : schemaVersion p.channel = some v) (h : HoursInv env w p v done w')
    (x : Nat) :
    wp (compactHourLocal env p x) (fun _ w'' => HoursInv env w p v (done ++ [x]) w'') w' := by
  refine wp_mono (compactHourLocal_post hv x) fun r w'' hpost => ?_
  rw [h.sources] at hpost
  replace hpost := hpost.congr h.tables
  have hno : (∀ path, r ≠ .ok (some path)) → ¬ Mergeable (localTable w) (localL1 env w p) :=
    fun hr hm => (hpost.of_mergeable trivial hm).elim hr
  -- a file outside the L1 directory leaves the sources alone
  have hkeep : ∀ path c, w''.files = w'.files.insert path c →
      ¬ p.tierDir env v "L1" <+: path.dropLast →
      rglobParts w'' (p.tierDir env v "L1") = localL1 env w p ∧
        ∀ path ∈ localL1 env w p, localTable w'' path = localTable w path := by
    intro path c hfiles hnot
    refine ⟨(rglobParts_insert_of_not hfiles hnot).trans h.sources, fun path' hpath' => ?_⟩
    rw [← h.tables path' hpath']
    refine localTable_insert_of_ne hfiles fun heq => hnot ?_
    rw [← h.sources, mem_rglobParts, heq] at hpath'
    exact hpath'.2.1
  cases hpost with
  | empty _ _ _ hfiles | raised _ _ _ hfiles => exact h.skip hfiles (hno nofun) x
  | quarantined _ hread hsome hviol hfiles =>
    obtain ⟨hsources, htables⟩ := hkeep _ _ hfiles (not_tier_prefix_quarantine env rfl)
    refine ⟨hsources, htables, fun hm => absurd hm (hno nofun), fun hm => ?_⟩
    rw [← h.none hm]
    exact rglobParts_insert_of_not hfiles (not_tier_prefix_quarantine env rfl)
  | merged _ path last hread hsome hdone hpath hfiles =>
    have hm : Mergeable (localTable w) (localL1 env w p) :=
      mergeable_iff.mpr ⟨hread, hsome, last, hdone⟩
    have hnotL1 : ¬ p.tierDir env v "L1" <+: path.dropLast := by
      rw [hpath]
      exact fun hpre => absurd (tier_prefix_hourPath.mp hpre) (by decide)
    obtain ⟨hsources, htables⟩ := hkeep _ _ hfiles hnotL1
    refine ⟨hsources, htables, fun _ h' hh' => ?_, fun hno => absurd hm hno⟩
    by_cases heq : hourPath env w p v h' = path
    · rw [heq, localTable, hfiles, AList.lookup_insert]
      rfl
    · rw [localTable_insert_of_ne hfiles heq]
      refine h.copies hm h' ((List.mem_append.mp hh').resolve_right fun hx => ?_)
      rw [List.mem_singleton.mp hx] at heq
      exact heq hpath.symm

theorem compactHours_inv (hv : schemaVersion p.channel = some v) (w : World (Content W R)) :
    HoursInv env w p v (List.range 24) ((compactHours env p).after w) := by
  have hstart : HoursInv env w p v [] w := by
    exact ⟨by simp [localL1, hv], fun _ _ => rfl, (fun _ _ hh => nomatch hh), fun _ => rfl⟩
  refine (wp_forEach_done (I := HoursInv env w p v) ?_ [] hstart).2
  intro done x w' h
  refine wp_catch (P := fun _ w'' => HoursInv env w p v (done ++ [x]) w'') ?_
    (fun _ _ h' => ⟨rfl, h'⟩) fun _ _ h' => ⟨rfl, h'⟩
  exact wp_seq (compactHour_step hv h x) (fun _ _ h' => h') fun _ _ h' => h'

theorem length_flatMap_le_of_subperm {α β : Type} {l₁ l₂ : List α} (f : α → List β)
    (h : l₁.Subperm l₂) : (l₁.flatMap f).length ≤ (l₂.flatMap f).length := by
  obtain ⟨l, hperm, hsub⟩ := h
  obtain ⟨rest, hrest⟩ := hsub.exists_perm_append
  have hlen := (hrest.flatMap_right f).length_eq
  rw [List.flatMap_append, List.length_append, (hperm.flatMap_right f).length_eq] at hlen
  omega

/-- The 24 hour files have 24 different names. -/
theorem hourPath_nodup : ((List.range 24).map (hourPath env w p v)).Nodup := by
  have hdigits : ∀ h ∈ List.range 24, ∀ h' ∈ List.range 24,
      twoDigits h = twoDigits h' → h = h' := by decide
  refine List.Nodup.map_on (fun h hh h' hh' heq => hdigits h hh h' hh' ?_) List.nodup_range
  have hdir := congrArg List.dropLast heq
  rw [hourPath_dropLast, hourPath_dropLast] at hdir
  simpa [Partition.hourOutput] using hdir

/-- Each hour file is a source of the day file, so the day has the rows of one hour
file at least once per hour. -/
theorem day_rows_of_copies (hnodup : (done.map (hourPath env w p v)).Nodup)
    (h : HoursInv env w p v done w') (hm : Mergeable (localTable w) (localL1 env w p)) :
    done.length * (dayCopy env w p).rows.length ≤
      (sourceRows (localTable w') (rglobParts w' (p.tierDir env v "L2"))).length := by
  have hcopies := h.copies hm
  have hsub : done.map (hourPath env w p v) ⊆ rglobParts w' (p.tierDir env v "L2") := by
    intro path hpath
    obtain ⟨x, hx, rfl⟩ := List.mem_map.mp hpath
    refine mem_rglobParts.mpr ⟨?_, tier_prefix_hourPath.mpr rfl, hourPath_isPart⟩
    obtain ⟨c, hc, -⟩ := Option.bind_eq_some_iff.mp (hcopies x hx)
    exact ⟨c, hc⟩
  have hle := length_flatMap_le_of_subperm (rowsOf (localTable w'))
    (List.subperm_of_subset hnodup hsub)
  have hrows : ∀ x ∈ done,
      (rowsOf (localTable w') (hourPath env w p v x)).length = (dayCopy env w p).rows.length := by
    intro x hx
    simp [rowsOf, hcopies x hx]
  have hmap : done.map ((fun path => (rowsOf (localTable w') path).length) ∘
      hourPath env w p v) = done.map fun _ => (dayCopy env w p).rows.length :=
    List.map_congr_left hrows
  rw [List.length_flatMap, List.map_map, hmap, List.map_const',
    List.sum_replicate_nat] at hle
  exact hle

/-- A day file that is written has every row of mergeable L1 files at least 24 times. -/
theorem day_rows_ge {path : Path} {t : Table R} (hv : schemaVersion p.channel = some v)
    (hm : Mergeable (localTable w) (localL1 env w p))
    (hresult : (compactDay env false p).result ((compactHours env p).after w) = .ok (some path))
    (hfile : ((compactDay env false p).after ((compactHours env p).after w)).files.lookup path =
      some (.parquet t)) :
    24 * (sourceRows (localTable w) (localL1 env w p)).length ≤ t.rows.length := by
  have hinv : HoursInv env w p v (List.range 24) _ := compactHours_inv hv w
  have hpost : wp (compactDay env false p) _ ((compactHours env p).after w) :=
    compactDayLocal_post hv
  unfold wp at hpost
  rw [show ((compactDay env false p) ((compactHours env p).after w)).1 = _ from hresult] at hpost
  obtain ⟨-, t', ht', hrows⟩ := hpost.written
  cases hfile.symm.trans ht'
  obtain ⟨-, -, last, hdone⟩ := mergeable_iff.mp hm
  have hcopy : (dayCopy env w p).rows.length =
      (sourceRows (localTable w) (localL1 env w p)).length := by
    rw [dayCopy, mergedTable_rows env hdone]
    exact (sourceRows_mergeOrder_perm _ _).length_eq
  have hmany := day_rows_of_copies hourPath_nodup hinv hm
  rw [List.length_range, hcopy] at hmany
  rw [hrows, (sourceRows_mergeOrder_perm _ _).length_eq]
  exact hmany

/-- **The day file never has each L1 row exactly once.** For L1 files that can be
merged, and for any L1 files if there is no L2 file of the date yet. -/
theorem compactDay_never_conserves (env : Env R) (w : World (Content W R)) (p : Partition)
    (h : Mergeable (localTable w) (localL1 env w p) ∨ localL2 env w p = []) :
    ¬ ConservesDay env w p := by
  rintro ⟨path, t, hresult, hfile, hperm, -⟩
  cases hv : schemaVersion p.channel with
  | none =>
    have hraise : (compactDay env false p).result ((compactHours env p).after w) =
        .error .notImplementedError := by
      show (compactDayLocal env p).result _ = _
      unfold compactDayLocal
      rw [hv]
      rfl
    cases hraise.symm.trans hresult
  | some v =>
    by_cases hm : Mergeable (localTable w) (localL1 env w p)
    · -- 24 copies are more rows than one
      have hmany := day_rows_ge hv hm hresult hfile
      have hlen := hperm.length_eq
      have hpos : 0 < (sourceRows (localTable w) (localL1 env w p)).length :=
        List.length_pos_iff.mpr hm.nonempty
      omega
    · -- without L2 files there is nothing to merge
      have hinv : HoursInv env w p v (List.range 24) _ := compactHours_inv hv w
      have hpost : wp (compactDay env false p) _ ((compactHours env p).after w) :=
        compactDayLocal_post hv
      unfold wp at hpost
      rw [show ((compactDay env false p) ((compactHours env p).after w)).1 = _ from hresult]
        at hpost
      have hday := hpost.written.1
      have hempty : localL2 env w p = [] := h.resolve_left hm
      have hnone : rglobParts ((compactHours env p).after w) (p.tierDir env v "L2") = [] := by
        rw [hinv.none hm, ← hempty]
        simp [localL2, hv]
      exact not_mergeable_nil (hnone ▸ hday)

/-! ## a day with one L1 file -/

/-- Trades of one market, one day after the epoch. -/
def partitionA : Partition := ⟨"bithumb", "BTC", "transaction", 1⟩

/-- The L1 directory of the day, with one file in it. -/
def l1DayDir : Path :=
  ["market", "transaction", "schema_version=tick.v1", "tier=L1", "exchange=bithumb", "symbol=BTC",
    "date=1"]

/-- One L1 file with the given rows, on disk and on NAS. -/
def dayWorld (rows : List Int) : World (Content Int Int) where
  files := AList.singleton (l1DayDir ++ ["node=n1", "part-a.parquet"])
    (.parquet ⟨"tick", [rows], true⟩)
  dirs := []
  nas := AList.singleton (l1DayDir ++ ["node=n1", "part-a.parquet"])
    ⟨.parquet ⟨"tick", [rows], true⟩, none, "etag", none⟩
  retryQueue := none
  replies := Stream'.const (.ok "etag" none)
  unlinkFaults := Stream'.const false

def l2DayDir : Path :=
  ["market", "transaction", "schema_version=tick.v1", "tier=L2", "exchange=bithumb", "symbol=BTC",
    "date=1"]

/-- A row of 00:00 and a row of 01:00: the file of hour 0 gets both, from either
source. -/
theorem compactHour_mixes_hours :
    ¬ WritesExactly (compactHour tallyEnv false partitionA 0)
        ((sourceRows (localTable (dayWorld [86400000000, 90000000000]))
          (localL1 tallyEnv (dayWorld [86400000000, 90000000000]) partitionA)).filter (inHour 1 0))
        (dayWorld [86400000000, 90000000000]) ∧
      ¬ WritesExactly (compactHour tallyEnv true partitionA 0)
        ((sourceRows (nasTable (dayWorld [86400000000, 90000000000]))
          (nasL1 tallyEnv (dayWorld [86400000000, 90000000000]) partitionA)).filter (inHour 1 0))
        (dayWorld [86400000000, 90000000000]) := by
  constructor <;>
  · intro h
    obtain ⟨t, ht, hperm⟩ := h (l2DayDir ++ ["hour=00", "node=MERGED",
      "part-0123456789abcdef.parquet"]) rfl
    cases ht
    exact absurd hperm.length_eq (by decide)

/-- No L2 file is there yet: the general result applies. -/
theorem compactDay_never_conserves_fresh :
    localL2 tallyEnv (dayWorld [86400000000, 90000000000]) partitionA = [] ∧
      ¬ ConservesDay tallyEnv (dayWorld [86400000000, 90000000000]) partitionA :=
  ⟨by decide, compactDay_never_conserves _ _ _ (Or.inr (by decide))⟩

/-- One row: the day file has it 24 times. -/
theorem compactDay_repeats_row : ¬ ConservesDay tallyEnv (dayWorld [86400000000]) partitionA := by
  rintro ⟨path, t, hresult, hfile, hperm, -⟩
  have hm : Mergeable (localTable (dayWorld [86400000000]))
      (localL1 tallyEnv (dayWorld [86400000000]) partitionA) :=
    mergeable_iff.mpr ⟨by unfold Readable; decide, by decide, _, rfl⟩
  have hmany := day_rows_ge rfl hm hresult hfile
  rw [hperm.length_eq] at hmany
  exact absurd hmany (by decide)

end MctraderData.Compactor
