import MctraderData.Compactor.Naming

/-!
# mctrader-data — what repeated calls leave behind

`compact_hour` is called again and again for one hour, as L1 files arrive, and every
call may write another part file into the directory of the hour: its name is a hash of
the inputs. Calls that find a timestamp out of order move their temporary file to the
quarantine, under a name made of the channel, the date and the process id.

Both are properties of a whole run, stated on transition systems whose steps are
calls and what happens to the files between them.

## Results

* `recompaction_exact` — no L1 row twice in the parts of an hour, in every run in which
  no row arrives after the first part file.
* `quarantine_keeps_files` — every quarantined file is still there, in every run in
  which a violation finds its quarantine path free.
-/

namespace MctraderData.Compactor

open Lib
open Nas

/-! ## files listed first -/

section

variable {W R : Type} [Blob (Content W R)]

/-- The directory walk now comes to this file first. -/
def relist (w : World (Content W R)) (path : Path) : World (Content W R) :=
  match w.files.lookup path with
  | none => w
  | some c => { w with files := w.files.insert path c }

variable {w : World (Content W R)} {path : Path}

theorem lookup_relist (path' : Path) :
    (relist w path).files.lookup path' = w.files.lookup path' := by
  unfold relist
  cases hc : w.files.lookup path with
  | none => rfl
  | some c =>
    rcases eq_or_ne path' path with rfl | hne <;> simp [*]

theorem localTable_relist : localTable (relist w path) = localTable w := by
  funext path'
  rw [localTable, localTable, lookup_relist]

theorem rglobParts_relist (dir : Path) :
    (rglobParts (relist w path) dir).Perm (rglobParts w dir) := by
  unfold relist
  cases hc : w.files.lookup path with
  | none => exact .refl _
  | some c =>
    have hmem : path ∈ w.files.keys := AList.mem_keys.mp (AList.lookup_isSome.mp (by rw [hc]; rfl))
    exact (keys_insert_perm hmem c).filter _

/-- A part file written where no other is listed is the only one. -/
theorem rglobParts_insert {w' : World (Content W R)} {dir : Path} {c : Content W R}
    (hfiles : w'.files = w.files.insert path c) (hdir : dir <+: path.dropLast)
    (hpart : isPart (path.getLastD "") = true) (honly : ∀ k ∈ rglobParts w dir, k = path) :
    rglobParts w' dir = [path] := by
  have hglob : (dir.isPrefixOf path.dropLast && isPart (path.getLastD "")) = true := by
    rw [hpart, Bool.and_true, List.isPrefixOf_iff_prefix]
    exact hdir
  unfold rglobParts
  rw [hfiles]
  exact filter_keys_insert
    (f := fun q : Path => dir.isPrefixOf q.dropLast && isPart (q.getLastD "")) hglob honly c

end

/-! ## the parts of one hour -/

section

variable {W R : Type} [Timed R] [Blob (Content W R)]

/-- The L2 directory of one hour. -/
def Partition.hourDir (env : Env R) (p : Partition) (v : String) (hourUtc : Nat) : Path :=
  p.tierDir env v "L2" ++ ["hour=" ++ twoDigits hourUtc]

/-- The part files of the hour have each L1 row of the date exactly once. -/
def HourExact (env : Env R) (p : Partition) (v : String) (hourUtc : Nat)
    (w : World (Content W R)) : Prop :=
  (sourceRows (localTable w) (rglobParts w (p.hourDir env v hourUtc))).Perm
    (sourceRows (localTable w) (localL1 env w p))

/-- The files, and whether the last step was a call. -/
structure HourState (W R : Type) [Blob (Content W R)] where
  world : World (Content W R)
  called : Bool

/-- What happens to one hour: an L1 file arrives, the listing order changes, or
`compact_hour` is called. -/
inductive HourAction (R : Type) where
  | arrive (path : Path) (table : Table R)
  | relist (path : Path)
  | compact

variable (env : Env R) (p : Partition) (v : String) (hourUtc : Nat)

/-- An L1 file arrives under a new name, with rows of the hour only. -/
def mayArrive (w : World (Content W R)) (path : Path) (table : Table R) : Bool :=
  (p.tierDir env v "L1").isPrefixOf path.dropLast && isPart (path.getLastD "") &&
    (w.files.lookup path).isNone && table.rows.all (inHour p.dateUtc hourUtc)

/-- The L1 rows of the date, in the order of copying, do not decrease. -/
def Monotone (w : World (Content W R)) : Prop :=
  ((sourceRows (localTable w) (mergeOrder (localTable w) (localL1 env w p))).map
    tsUtc).IsChain (· ≤ ·)

instance (w : World (Content W R)) : Decidable (Monotone env p w) :=
  inferInstanceAs (Decidable (List.IsChain _ _))

/-- The hour, from an empty date directory on; a call is only made while the L1 files
can be put in order. -/
def hourMachine : Machine (HourState W R) (HourAction R) where
  init s := s.called = false ∧ rglobParts s.world (p.tierDir env v "L1") = [] ∧
    rglobParts s.world (p.hourDir env v hourUtc) = []
  step s
    | .arrive path table =>
      if mayArrive env p v hourUtc s.world path table then
        some ⟨{ s.world with files := s.world.files.insert path (.parquet table) }, false⟩
      else none
    | .relist path => some ⟨relist s.world path, false⟩
    | .compact =>
      if Monotone env p s.world then
        some ⟨(compactHour env false p hourUtc).after s.world, true⟩
      else none

/-- The condition on a step: rows arrive only before the hour has a part file; after
that, the listing order changes only if no two files have one sort timestamp; and a
call finds L1 files of one schema. -/
def quietHour (s : HourState W R) : HourAction R → Prop
  | .arrive _ table =>
    table.rows = [] ∨ rglobParts s.world (p.hourDir env v hourUtc) = []
  | .relist _ => DistinctTs (localTable s.world) (localL1 env s.world p) ∨
      rglobParts s.world (p.hourDir env v hourUtc) = []
  | .compact => OneSchema ((localL1 env s.world p).filterMap (localTable s.world))

/-- What holds along a quiet run: the L1 files are parquet; the hour has no part file,
or the one of all L1 rows; and after a call it has one if there are rows. -/
structure HourInv (s : HourState W R) : Prop where
  readable : Readable (localTable s.world) (localL1 env s.world p)
  parts : rglobParts s.world (p.hourDir env v hourUtc) = [] ∨
    rglobParts s.world (p.hourDir env v hourUtc) = [hourPath env s.world p v hourUtc] ∧
      rowsOf (localTable s.world) (hourPath env s.world p v hourUtc) =
        sourceRows (localTable s.world)
          (mergeOrder (localTable s.world) (localL1 env s.world p))
  called : s.called = true → rglobParts s.world (p.hourDir env v hourUtc) = [] →
    sourceRows (localTable s.world) (localL1 env s.world p) = []

variable {env p v hourUtc} {w w' : World (Content W R)}

omit [Timed R] in
theorem localL1_eq (hv : schemaVersion p.channel = some v) :
    localL1 env w p = rglobParts w (p.tierDir env v "L1") := by
  simp [localL1, hv]

theorem hourDir_prefix_hourPath :
    p.hourDir env v hourUtc <+: (hourPath env w p v hourUtc).dropLast := by
  rw [hourPath_dropLast]
  exact ⟨["node=MERGED"], by simp [Partition.hourDir, Partition.hourOutput]⟩

variable {path : Path}

omit [Timed R] [Blob (Content W R)] in
/-- The directory of the hour lies outside L1. -/
theorem not_hourDir_of_l1 (h : p.tierDir env v "L1" <+: path.dropLast) :
    ¬ p.hourDir env v hourUtc <+: path.dropLast := by
  intro hhour
  obtain ⟨rest, hrest⟩ := h
  rw [← hrest] at hhour
  have hpre : p.tierDir env v "L2" <+: p.tierDir env v "L1" ++ rest :=
    (List.prefix_append _ _).trans hhour
  unfold Partition.tierDir at hpre
  rw [tierDir_prefix_iff] at hpre
  exact absurd hpre.2.2.1 (by decide)

/-- The invariant speaks of the L1 files through their copying order only. -/
theorem hourPath_congr (horder : mergeOrder (localTable w') (localL1 env w' p) =
    mergeOrder (localTable w) (localL1 env w p)) :
    hourPath env w' p v hourUtc = hourPath env w p v hourUtc := by
  unfold hourPath
  rw [horder]

variable {s : HourState W R}

/-- The invariant is about the files. -/
theorem HourInv.of_files {called : Bool} (h : HourInv env p v hourUtc ⟨w, called⟩)
    (hfiles : w'.files = w.files) : HourInv env p v hourUtc ⟨w', called⟩ := by
  cases w
  cases w'
  cases hfiles
  exact ⟨h.readable, h.parts, h.called⟩

theorem HourInv.hourExact (h : HourInv env p v hourUtc s) (hcalled : s.called = true) :
    HourExact env p v hourUtc s.world := by
  unfold HourExact
  rcases h.parts with hnone | ⟨hone, hrows⟩
  · rw [hnone, h.called hcalled hnone]
    exact .refl _
  · rw [hone, sourceRows, List.flatMap_singleton, hrows]
    exact sourceRows_mergeOrder_perm _ _

/-- A file without rows changes neither the order of copying nor the rows. -/
theorem keyedBy_cons_empty {content : Path → Option (Table R)} {t : Table R}
    (ht : content path = some t) (hrows : t.rows = []) (rest : List Path) :
    keyedBy content (path :: rest) = keyedBy content rest := by
  rw [keyedBy_cons, ht, Option.bind_some, extractMinTs_eq_none.mpr hrows]
  rfl

/-- An L1 file arrives. -/
theorem HourInv.arrive (hv : schemaVersion p.channel = some v) (h : HourInv env p v hourUtc s)
    {table : Table R} (hmay : mayArrive env p v hourUtc s.world path table = true)
    (hquiet : table.rows = [] ∨ rglobParts s.world (p.hourDir env v hourUtc) = []) :
    HourInv env p v hourUtc
      ⟨{ s.world with files := s.world.files.insert path (.parquet table) }, false⟩ := by
  simp only [mayArrive, Bool.and_eq_true, List.isPrefixOf_iff_prefix] at hmay
  obtain ⟨⟨⟨hdir, hpart⟩, hfresh⟩, -⟩ := hmay
  have habsent : path ∉ s.world.files.keys := by
    rw [← AList.mem_keys, ← AList.lookup_eq_none]
    exact Option.isNone_iff_eq_none.mp hfresh
  let w' : World (Content W R) :=
    { s.world with files := s.world.files.insert path (.parquet table) }
  have hinputs : localL1 env w' p = path :: localL1 env s.world p := by
    have hglob : ((p.tierDir env v "L1").isPrefixOf path.dropLast &&
        isPart (path.getLastD "")) = true := by
      rw [hpart, Bool.and_true, List.isPrefixOf_iff_prefix]
      exact hdir
    rw [localL1_eq hv, localL1_eq hv, rglobParts, rglobParts]
    show List.filter _ (s.world.files.insert path (.parquet table)).keys = _
    rw [keys_insert_of_not_mem habsent]
    exact List.filter_cons_of_pos hglob
  have htable : localTable w' path = some table := by
    simp [w', localTable, Content.asTable]
  have hfiles : w'.files = s.world.files.insert path (.parquet table) := rfl
  have htables : ∀ path' ∈ localL1 env s.world p, localTable w' path' =
      localTable s.world path' := by
    intro path' hpath'
    refine localTable_insert_of_ne hfiles fun heq => habsent ?_
    rw [← heq]
    rw [localL1_eq hv] at hpath'
    exact (List.mem_filter.mp hpath').1
  have hparts : rglobParts w' (p.hourDir env v hourUtc) =
      rglobParts s.world (p.hourDir env v hourUtc) :=
    rglobParts_insert_of_not hfiles (not_hourDir_of_l1 hdir)
  refine ⟨?_, ?_, fun hcalled => by cases hcalled⟩
  · show Readable (localTable w') (localL1 env w' p)
    rw [hinputs]
    refine List.forall_mem_cons.mpr ⟨by rw [htable]; rfl, fun path' hpath' => ?_⟩
    rw [htables path' hpath']
    exact h.readable path' hpath'
  · show rglobParts w' _ = [] ∨ rglobParts w' _ = [hourPath env w' p v hourUtc] ∧
      rowsOf (localTable w') (hourPath env w' p v hourUtc) =
        sourceRows (localTable w') (mergeOrder (localTable w') (localL1 env w' p))
    rw [hparts]
    rcases hquiet with hrows | hnone
    · -- the part file, if there is one, is still that of all rows
      refine h.parts.imp id fun hpart => ?_
      obtain ⟨hone, hpartRows⟩ := hpart
      have horder : mergeOrder (localTable w') (localL1 env w' p) =
          mergeOrder (localTable s.world) (localL1 env s.world p) := by
        rw [hinputs, ← mergeOrder_congr htables]
        unfold mergeOrder
        rw [keyedBy_cons_empty htable hrows]
      have hne : hourPath env s.world p v hourUtc ≠ path := by
        intro heq
        exact not_hourDir_of_l1 hdir (heq ▸ hourDir_prefix_hourPath)
      have hrowsOf : rowsOf (localTable w') (hourPath env s.world p v hourUtc) =
          rowsOf (localTable s.world) (hourPath env s.world p v hourUtc) := by
        unfold rowsOf
        rw [localTable_insert_of_ne hfiles hne]
      refine ⟨by rw [hourPath_congr horder]; exact hone, ?_⟩
      rw [hourPath_congr horder, hrowsOf, hpartRows, horder]
      refine List.flatMap_congr fun k hk => ?_
      rw [rowsOf, rowsOf, htables k (mem_mergeOrder hk)]
    · exact Or.inl hnone

/-- The listing order changes. -/
theorem HourInv.relist (hv : schemaVersion p.channel = some v)
    (h : HourInv env p v hourUtc s) (path : Path)
    (hquiet : DistinctTs (localTable s.world) (localL1 env s.world p) ∨
      rglobParts s.world (p.hourDir env v hourUtc) = []) :
    HourInv env p v hourUtc ⟨Compactor.relist s.world path, false⟩ := by
  have hinputs : (localL1 env (Compactor.relist s.world path) p).Perm
      (localL1 env s.world p) := by
    rw [localL1_eq hv, localL1_eq hv]
    exact rglobParts_relist _
  refine ⟨?_, ?_, nofun⟩
  · intro path' hpath'
    show (localTable (Compactor.relist s.world path) path').isSome
    rw [localTable_relist]
    exact h.readable path' (hinputs.mem_iff.mp hpath')
  · show rglobParts (Compactor.relist s.world path) _ = [] ∨ _
    have hparts : (rglobParts (Compactor.relist s.world path) (p.hourDir env v hourUtc)).Perm _ :=
      rglobParts_relist _
    rcases h.parts with hnone | ⟨hone, hrows⟩
    · rw [hnone, List.perm_nil] at hparts
      exact Or.inl hparts
    · rcases hquiet with hd | hnone
      · rw [hone, List.perm_singleton] at hparts
        have horder : mergeOrder (localTable (Compactor.relist s.world path))
            (localL1 env (Compactor.relist s.world path) p) =
            mergeOrder (localTable s.world) (localL1 env s.world p) := by
          rw [localTable_relist, mergeOrder_eq_of_perm hinputs.symm hd]
        refine Or.inr ⟨by rw [hourPath_congr horder]; exact hparts, ?_⟩
        show rowsOf (localTable (Compactor.relist s.world path)) (hourPath env _ p v hourUtc) =
          sourceRows (localTable (Compactor.relist s.world path)) _
        rw [hourPath_congr horder, horder, localTable_relist, hrows]
      · cases hnone.symm.trans hone

/-- L1 files that can be put in order and have one schema are merged, if they have
rows. -/
theorem mergeable_of_monotone (hread : Readable (localTable w) (localL1 env w p))
    (hmono : Monotone env p w) (hone : OneSchema ((localL1 env w p).filterMap (localTable w)))
    (hrows : sourceRows (localTable w) (localL1 env w p) ≠ []) :
    Mergeable (localTable w) (localL1 env w p) := by
  refine ⟨hread, hrows, fun k hk t ht => ?_, hmono⟩
  cases horder : mergeOrder (localTable w) (localL1 env w p) with
  | nil => simp [horder] at hk
  | cons k₀ ks =>
    have hk₀ : k₀ ∈ mergeOrder (localTable w) (localL1 env w p) := horder ▸ List.mem_cons_self
    obtain ⟨t₀, ht₀, hrows₀⟩ := mem_mergeOrder_rows hk₀
    obtain ⟨t', ht', hrows'⟩ := mem_mergeOrder_rows hk
    cases ht.symm.trans ht'
    rw [hone t (List.mem_filterMap.mpr ⟨k, mem_mergeOrder hk, ht⟩) t₀
      (List.mem_filterMap.mpr ⟨k₀, mem_mergeOrder hk₀, ht₀⟩) hrows' hrows₀]
    simp [mergeSchema, ht₀]

/-- A call without rows to merge writes nothing. -/
theorem files_of_no_rows {r : Except Exn (Option Path)}
    (hrows : sourceRows (localTable w) (localL1 env w p) = [])
    (hpost : MergePost env (localTable w) True (localL1 env w p) env.runId
      (p.hourOutput env v hourUtc) w r w') : w'.files = w.files := by
  have hnil := mergeOrder_eq_nil.mpr hrows
  cases hpost with
  | empty _ _ _ hfiles => exact hfiles
  | merged _ _ _ _ hsome => exact absurd hnil hsome
  | quarantined _ _ hsome => exact absurd hnil hsome
  | raised _ _ _ hfiles => exact hfiles

/-- `compact_hour` is called. -/
theorem HourInv.compact (hv : schemaVersion p.channel = some v) (h : HourInv env p v hourUtc s)
    (hmono : Monotone env p s.world)
    (hone : OneSchema ((localL1 env s.world p).filterMap (localTable s.world))) :
    HourInv env p v hourUtc ⟨(compactHour env false p hourUtc).after s.world, true⟩ := by
  have hpost : MergePost env (localTable s.world) True (localL1 env s.world p) env.runId
      (p.hourOutput env v hourUtc) s.world ((compactHour env false p hourUtc).result s.world)
      ((compactHour env false p hourUtc).after s.world) := by
    rw [localL1_eq hv]
    exact compactHourLocal_post hv hourUtc
  generalize (compactHour env false p hourUtc).result s.world = r at hpost
  generalize (compactHour env false p hourUtc).after s.world = w' at hpost ⊢
  by_cases hrows : sourceRows (localTable s.world) (localL1 env s.world p) = []
  · have hnone : HourInv env p v hourUtc ⟨s.world, true⟩ :=
      ⟨h.readable, h.parts, fun _ _ => hrows⟩
    exact hnone.of_files (files_of_no_rows hrows hpost)
  · obtain ⟨path, rfl⟩ := hpost.of_mergeable trivial
      (mergeable_of_monotone h.readable hmono hone hrows)
    cases hpost with
    | merged _ _ last hread hsome hdone hpath hfiles =>
      have hpath' : path = hourPath env s.world p v hourUtc := hpath
      have hnotL1 : ¬ p.tierDir env v "L1" <+: path.dropLast := by
        rw [hpath']
        exact fun hpre => absurd (tier_prefix_hourPath.mp hpre) (by decide)
      have hinputs : localL1 env w' p = localL1 env s.world p := by
        rw [localL1_eq hv, localL1_eq hv]
        exact rglobParts_insert_of_not hfiles hnotL1
      have htables : ∀ k ∈ localL1 env s.world p, localTable w' k = localTable s.world k := by
        intro k hk
        refine localTable_insert_of_ne hfiles fun heq => hnotL1 ?_
        rw [localL1_eq hv, mem_rglobParts] at hk
        exact heq ▸ hk.2.1
      have horder : mergeOrder (localTable w') (localL1 env w' p) =
          mergeOrder (localTable s.world) (localL1 env s.world p) := by
        rw [hinputs]
        exact mergeOrder_congr htables
      have hparts : rglobParts w' (p.hourDir env v hourUtc) = [path] := by
        refine rglobParts_insert hfiles (hpath' ▸ hourDir_prefix_hourPath)
          (hpath' ▸ hourPath_isPart) fun k hk => ?_
        rcases h.parts with hnone | ⟨honly, -⟩
        · simp [hnone] at hk
        · rw [honly] at hk
          exact (List.mem_singleton.mp hk).trans hpath'.symm
      have hfile : localTable w' path =
          some (mergedTable (localTable s.world) env (localL1 env s.world p)) := by
        simp [localTable, hfiles, Content.asTable]
      refine ⟨?_, Or.inr ⟨?_, ?_⟩, fun _ hnone => ?_⟩
      · show Readable (localTable w') (localL1 env w' p)
        rw [hinputs]
        intro k hk
        rw [htables k hk]
        exact h.readable k hk
      · show rglobParts w' _ = [hourPath env w' p v hourUtc]
        rw [hparts, hourPath_congr horder, hpath']
      · show rowsOf (localTable w') (hourPath env w' p v hourUtc) =
          sourceRows (localTable w') (mergeOrder (localTable w') (localL1 env w' p))
        rw [hourPath_congr horder, ← hpath', rowsOf, hfile, horder, Option.map_some,
          Option.getD_some, mergedTable_rows env hdone]
        refine List.flatMap_congr fun k hk => ?_
        rw [rowsOf, rowsOf, htables k (mem_mergeOrder hk)]
      · cases hparts.symm.trans hnone

/-- **Re-compaction without duplicates.** In every run in which no L1 row arrives once
the hour has a part file (and listing order and schemas do not interfere), the part
files of the hour have each L1 row of the date exactly once after every call. -/
theorem recompaction_exact (hv : schemaVersion p.channel = some v) {s : HourState W R}
    (h : (hourMachine env p v hourUtc).Reaches (quietHour env p v hourUtc) s)
    (hcalled : s.called = true) : HourExact env p v hourUtc s.world := by
  refine HourInv.hourExact (h.invariant (I := HourInv env p v hourUtc) ?_ ?_) hcalled
  · rintro s ⟨hcalled, hinputs, hparts⟩
    exact ⟨by simp [localL1_eq hv, hinputs, Readable], Or.inl hparts, by simp [hcalled]⟩
  · intro s a s' hinv hquiet hstep
    cases a with
    | arrive path table =>
      simp only [hourMachine, Option.ite_none_right_eq_some, Option.some.injEq] at hstep
      obtain ⟨hmay, rfl⟩ := hstep
      exact hinv.arrive hv hmay hquiet
    | relist path =>
      cases Option.some.inj hstep
      exact hinv.relist hv path hquiet
    | compact =>
      simp only [hourMachine, Option.ite_none_right_eq_some, Option.some.injEq] at hstep
      obtain ⟨hmono, rfl⟩ := hstep
      exact hinv.compact hv hmono hquiet

/-- A data root without files. -/
def emptyRoot : World (Content Int Int) where
  files := ∅
  dirs := []
  nas := ∅
  retryQueue := none
  replies := Stream'.const (.ok "etag" none)
  unlinkFaults := Stream'.const false

/-- An L1 file of the first hour arrives. -/
def arriveA : HourAction Int :=
  .arrive (l1DayDir ++ ["part-a.parquet"]) ⟨"tick", [[86400000000]], true⟩

def arriveB : HourAction Int :=
  .arrive (l1DayDir ++ ["part-b.parquet"]) ⟨"tick", [[86400000001]], true⟩

/-- Two files, and a call repeated after the hour has its part file. -/
theorem recompaction_exact_two_calls : ∃ s : HourState Int Int,
    (hourMachine joinEnv partitionA "tick.v1" 0).run ⟨emptyRoot, false⟩
        [arriveB, arriveA, .compact, .compact] = some s ∧
      HourExact joinEnv partitionA "tick.v1" 0 s.world := by
  refine ⟨_, rfl, ?_⟩
  have hstart : (hourMachine joinEnv partitionA "tick.v1" 0).Reaches
      (quietHour joinEnv partitionA "tick.v1" 0) (⟨emptyRoot, false⟩ : HourState Int Int) :=
    .init ⟨rfl, rfl, rfl⟩
  have hone : OneSchema [(⟨"tick", [[86400000000]], true⟩ : Table Int),
      ⟨"tick", [[86400000001]], true⟩] := by
    unfold OneSchema
    decide
  have harrived := (hstart.step (a := arriveB) (Or.inr rfl) rfl).step (a := arriveA)
    (Or.inr rfl) rfl
  have hcalled := harrived.step (a := HourAction.compact) hone rfl
  exact recompaction_exact rfl (hcalled.step (a := HourAction.compact) hone rfl) rfl

/-- A second file after the first call: the first row is then in two part files. -/
theorem recompaction_repeats_row : ∃ s : HourState Int Int,
    (hourMachine joinEnv partitionA "tick.v1" 0).run ⟨emptyRoot, false⟩
        [arriveA, .compact, arriveB, .compact] = some s ∧
      s.called = true ∧
      sourceRows (localTable s.world)
        (rglobParts s.world (partitionA.hourDir joinEnv "tick.v1" 0)) =
          [86400000000, 86400000001, 86400000000] ∧
      ¬ HourExact joinEnv partitionA "tick.v1" 0 s.world := by
  refine ⟨_, rfl, rfl, rfl, fun h => ?_⟩
  exact absurd h.length_eq (by decide)

end

/-! ## the quarantine -/

section

variable {W R : Type}

/-- Where `quarantine_l2` and `quarantine_l3` move the temporary file of a call. -/
def Partition.quarantinePath (env : Env R) (p : Partition) : Path :=
  quarantineDir p.channel (env.isoformat p.dateUtc) ++ ["part-part-tmp-" ++ env.pid ++ ".parquet"]

/-- The file is somewhere in a quarantine tree. -/
def inQuarantine (path : Path) : Bool := path.getD 2 "" == "quarantine"

variable {env : Env R} {p : Partition} {span : Span}

theorem Span.quarantinePath_output (v : String) :
    (span.output env p v).quarantinePath env = p.quarantinePath env := by
  cases span <;> rfl

theorem inQuarantine_quarantinePath : inQuarantine (p.quarantinePath env) = true := rfl

theorem OutputPath.not_inQuarantine {path : Path} (h : OutputPath env path) :
    inQuarantine path = false := by
  obtain ⟨p', v', span', runId, rfl⟩ := h
  have hne : "schema_version=" ++ v' ≠ "quarantine" := by
    intro h
    have hlist := congrArg String.toList h
    simp at hlist
  cases span' <;> exact beq_eq_false_iff_ne.mpr hne

variable [Timed R] [Blob (Content W R)]

/-- The files, and every file ever moved to the quarantine with its content. -/
structure QuarantineState (W R : Type) [Blob (Content W R)] where
  world : World (Content W R)
  moved : List (Path × Content W R)

/-- A call, or a change of files outside the quarantine or of the bucket. -/
inductive QuarantineAction (W R : Type) [Blob (Content W R)] where
  | call (nas : Bool) (p : Partition) (span : Span)
  | write (path : Path) (c : Content W R)
  | remove (path : Path)
  | object (key : Key) (o : Obj (Content W R))

/-- The call went through the quarantine: it returns `None` after it made its
directories, while a call without inputs returns before that. -/
def Span.quarantined (env : Env R) (nas : Bool) (p : Partition) (span : Span)
    (w : World (Content W R)) : Bool :=
  match (span.compact env nas p).result w with
  | .ok none => decide (((span.compact env nas p).after w).dirs ≠ w.dirs)
  | _ => false

/-- What a call adds to the files moved. -/
def movedBy (env : Env R) (nas : Bool) (p : Partition) (span : Span)
    (w : World (Content W R)) : List (Path × Content W R) :=
  if span.quarantined env nas p w then
    (((span.compact env nas p).after w).files.lookup (p.quarantinePath env)).toList.map
      (Prod.mk (p.quarantinePath env))
  else []

/-- One process, from an empty quarantine on. -/
def quarantineMachine (env : Env R) : Machine (QuarantineState W R) (QuarantineAction W R) where
  init s := s.moved = [] ∧ ∀ path c, s.world.files.lookup path = some c → inQuarantine path = false
  step s
    | .call nas p span =>
      some ⟨(span.compact env nas p).after s.world, movedBy env nas p span s.world ++ s.moved⟩
    | .write path c =>
      if inQuarantine path then none
      else some { s with world := { s.world with files := s.world.files.insert path c } }
    | .remove path =>
      if inQuarantine path then none
      else some { s with world := { s.world with files := s.world.files.erase path } }
    | .object key o => some { s with world := { s.world with nas := s.world.nas.insert key o } }

/-- Every file ever moved is still there, with its content. -/
def KeepsQuarantined (s : QuarantineState W R) : Prop :=
  ∀ path c, (path, c) ∈ s.moved → s.world.files.lookup path = some c

/-- The condition on a step: the inputs of a call do not decrease, or no file is yet
quarantined for its channel and date. -/
def freshQuarantine (env : Env R) (s : QuarantineState W R) : QuarantineAction W R → Prop
  | .call nas p span =>
    ((sourceRows (inputTable s.world nas) (mergeOrder (inputTable s.world nas)
        (span.inputs env s.world nas p))).map tsUtc).IsChain (· ≤ ·) ∨
      s.world.files.lookup (p.quarantinePath env) = none
  | _ => True

variable {nas : Bool} {w : World (Content W R)}

/-- Inputs in order are not found out of order. -/
theorem not_unordered {κ : Type} {content : κ → Option (Table R)} {ks : List κ}
    (h : ((sourceRows content ks).map tsUtc).IsChain (· ≤ ·)) :
    (mergeStream content ks).2 ≠ .unordered := by
  unfold mergeStream
  rw [Ne, stream_unordered_iff, not_not]
  have hpre := looked_prefix (fun schema => decide (schema = mergeSchema content ks))
    (ks.flatMap (taggedOf content))
  rw [flatten_tagged] at hpre
  exact h.prefix (hpre.map tsUtc)

/-- What a call can do to the files of the quarantine: nothing, or write its own
quarantine path, after a violation. -/
theorem call_quarantine (env : Env R) (nas : Bool) (p : Partition) (span : Span)
    (w : World (Content W R)) :
    (movedBy env nas p span w = [] ∧ ∀ path, inQuarantine path = true →
      ((span.compact env nas p).after w).files.lookup path = w.files.lookup path) ∨
    (∃ c, movedBy env nas p span w = [(p.quarantinePath env, c)] ∧
      ((span.compact env nas p).after w).files = w.files.insert (p.quarantinePath env) c ∧
      ¬ ((sourceRows (inputTable w nas) (mergeOrder (inputTable w nas)
        (span.inputs env w nas p))).map tsUtc).IsChain (· ≤ ·)) := by
  have hpost := span.compact_post env nas p w
  unfold movedBy Span.quarantined
  generalize (span.compact env nas p).result w = r at hpost ⊢
  generalize (span.compact env nas p).after w = w' at hpost ⊢
  cases hpost with
  | refused e hnil => exact Or.inl ⟨rfl, fun _ _ => rfl⟩
  | unlisted _ hsame =>
    refine Or.inl ⟨?_, fun path _ => by rw [hsame.files]⟩
    simp [hsame.dirs]
  | merge _ _ v hv hmerge =>
    cases hmerge with
    | empty _ _ _ hfiles hdirs => exact Or.inl ⟨by simp [hdirs], fun path _ => by rw [hfiles]⟩
    | raised _ _ _ hfiles => exact Or.inl ⟨rfl, fun path _ => by rw [hfiles]⟩
    | merged _ path _ _ _ _ hpath hfiles =>
      refine Or.inl ⟨rfl, fun path' hq => ?_⟩
      have hout : OutputPath env path := ⟨p, v, span, _, hpath⟩
      rw [hfiles]
      refine AList.lookup_insert_ne fun heq => ?_
      rw [heq, hout.not_inQuarantine] at hq
      cases hq
    | quarantined _ _ _ hviol hfiles hdirs =>
      rw [Span.quarantinePath_output] at hfiles
      refine Or.inr ⟨_, ?_, hfiles, fun h => not_unordered h hviol⟩
      have hgrown : w'.dirs ≠ w.dirs := by
        intro heq
        have hlen := congrArg List.length (hdirs.symm.trans heq)
        simp at hlen
        omega
      simp [hgrown, hfiles]

/-- Every file moved lies in the quarantine and is still there. -/
structure QuarantineInv (s : QuarantineState W R) : Prop where
  inside : ∀ path c, (path, c) ∈ s.moved → inQuarantine path = true
  kept : KeepsQuarantined s

omit [Timed R] in
/-- A step that leaves the files of the quarantine alone. -/
theorem QuarantineInv.of_same {s : QuarantineState W R} {w' : World (Content W R)}
    (h : QuarantineInv s) (hsame : ∀ path, inQuarantine path = true →
      w'.files.lookup path = s.world.files.lookup path) : QuarantineInv ⟨w', s.moved⟩ where
  inside := h.inside
  kept path c hmem := (hsame path (h.inside path c hmem)).trans (h.kept path c hmem)

theorem QuarantineInv.call {s : QuarantineState W R} (h : QuarantineInv s)
    (hfresh : freshQuarantine env s (.call nas p span)) :
    QuarantineInv ⟨(span.compact env nas p).after s.world,
      movedBy env nas p span s.world ++ s.moved⟩ := by
  rcases call_quarantine env nas p span s.world with ⟨hnone, hsame⟩ | ⟨c, hmoved, hfiles, hviol⟩
  · rw [hnone]
    exact h.of_same hsame
  · have hfree := hfresh.resolve_left hviol
    rw [hmoved]
    refine ⟨fun path c' hmem => ?_, fun path c' hmem => ?_⟩
    · rcases List.mem_cons.mp hmem with heq | hold
      · rw [(Prod.mk.inj heq).1]
        exact inQuarantine_quarantinePath
      · exact h.inside path c' hold
    · show ((span.compact env nas p).after s.world).files.lookup path = some c'
      rw [hfiles]
      rcases List.mem_cons.mp hmem with heq | hold
      · obtain ⟨rfl, rfl⟩ := Prod.mk.inj heq
        exact AList.lookup_insert _
      · -- an older file is not at the free path
        have hkept := h.kept path c' hold
        refine (AList.lookup_insert_ne ?_).trans hkept
        rintro rfl
        cases hfree.symm.trans hkept

/-- **The quarantine keeps its files** in every run in which a call whose inputs
decrease finds no file quarantined for its channel and date. -/
theorem quarantine_keeps_files (env : Env R) {s : QuarantineState W R}
    (h : (quarantineMachine env).Reaches (freshQuarantine env) s) : KeepsQuarantined s := by
  refine (h.invariant (I := QuarantineInv) ?_ ?_).kept
  · rintro s ⟨hmoved, -⟩
    exact ⟨by simp [hmoved], by simp [KeepsQuarantined, hmoved]⟩
  · intro s a s' hinv hfresh hstep
    cases a with
    | call nas p span =>
      cases Option.some.inj hstep
      exact hinv.call hfresh
    | write path c =>
      obtain ⟨hout, ⟨⟩⟩ := Option.ite_none_left_eq_some.mp hstep
      refine hinv.of_same fun path' hq => AList.lookup_insert_ne ?_
      rintro rfl
      exact hout hq
    | remove path =>
      obtain ⟨hout, ⟨⟩⟩ := Option.ite_none_left_eq_some.mp hstep
      refine hinv.of_same fun path' hq => AList.lookup_erase_ne ?_
      rintro rfl
      exact hout hq
    | object key o =>
      cases Option.some.inj hstep
      exact hinv.of_same fun _ _ => rfl

/-- Trades of another symbol on the same day. -/
def partitionB : Partition := ⟨"bithumb", "ETH", "transaction", 1⟩

/-- An L1 file of each symbol, each with a timestamp out of order. `iter_batches` yields batches of
up to 1024 rows; one row stands here for each full batch, so that the first is written before the
second is found to go back. -/
def unorderedDay : World (Content Int Int) :=
  { emptyRoot with
    files := ((∅ : AList fun _ : Path => Content Int Int).insert
        (partitionA.tierDir tallyEnv "tick.v1" "L1" ++ ["part-a.parquet"])
        (.parquet ⟨"tick", [[86400000005], [86400000001]], true⟩)).insert
      (partitionB.tierDir tallyEnv "tick.v1" "L1" ++ ["part-b.parquet"])
      (.parquet ⟨"tick", [[86400000007], [86400000001]], true⟩) }

theorem unorderedDay_init :
    (quarantineMachine tallyEnv).init (⟨unorderedDay, []⟩ : QuarantineState Int Int) := by
  refine ⟨rfl, fun path c hc => ?_⟩
  have hmem : path ∈ unorderedDay.files.keys :=
    AList.mem_keys.mp (AList.lookup_isSome.mp (by rw [hc]; rfl))
  have hkeys : unorderedDay.files.keys =
      [partitionB.tierDir tallyEnv "tick.v1" "L1" ++ ["part-b.parquet"],
        partitionA.tierDir tallyEnv "tick.v1" "L1" ++ ["part-a.parquet"]] := rfl
  rw [hkeys] at hmem
  simp only [List.mem_cons, List.not_mem_nil, or_false] at hmem
  rcases hmem with rfl | rfl <;> rfl

/-- The same market a day later. -/
def nextDay : Partition := { partitionA with dateUtc := 2 }

/-- Violations of two days are both kept. -/
theorem quarantine_keeps_two_days : ∃ s : QuarantineState Int Int,
    (quarantineMachine tallyEnv).run ⟨unorderedDay, []⟩
        [.call false partitionA (.hour 0),
          .write (nextDay.tierDir tallyEnv "tick.v1" "L1" ++ ["part-a.parquet"])
            (.parquet ⟨"tick", [[172800000005], [172800000001]], true⟩),
          .call false nextDay (.hour 0)] = some s ∧
      s.moved.length = 2 ∧ KeepsQuarantined s := by
  refine ⟨_, rfl, rfl, ?_⟩
  have hstart : (quarantineMachine tallyEnv).Reaches (freshQuarantine tallyEnv)
      (⟨unorderedDay, []⟩ : QuarantineState Int Int) := .init unorderedDay_init
  have hfirst := hstart.step (a := QuarantineAction.call false partitionA (.hour 0)) (Or.inr rfl)
    rfl
  have hwritten := hfirst.step (a := QuarantineAction.write
    (nextDay.tierDir tallyEnv "tick.v1" "L1" ++ ["part-a.parquet"])
    (.parquet ⟨"tick", [[172800000005], [172800000001]], true⟩)) trivial rfl
  exact quarantine_keeps_files tallyEnv
    (hwritten.step (a := QuarantineAction.call false nextDay (.hour 0)) (Or.inr rfl) rfl)

/-- The second violation of the day, of another symbol, overwrites the first. -/
theorem quarantine_loses_first_file : ∃ s : QuarantineState Int Int,
    (quarantineMachine tallyEnv).run ⟨unorderedDay, []⟩
        [.call false partitionA (.hour 0), .call false partitionB (.hour 0)] = some s ∧
      s.moved = [(partitionB.quarantinePath tallyEnv, .parquet ⟨"tick", [[86400000007]], true⟩),
        (partitionA.quarantinePath tallyEnv, .parquet ⟨"tick", [[86400000005]], true⟩)] ∧
      ¬ KeepsQuarantined s := by
  refine ⟨_, rfl, rfl, fun h => ?_⟩
  have hfirst := h (partitionA.quarantinePath tallyEnv)
    (.parquet ⟨"tick", [[86400000005]], true⟩) (by decide)
  exact absurd hfirst (by decide)

end

end MctraderData.Compactor
