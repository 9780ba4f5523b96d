import MctraderData.Compactor.Conservation

/-!
# mctrader-data — what a merge returns

The specification of a merge is independent of how it is computed: the inputs with
rows, in the order of their smallest timestamps, one after another.

## Results

* `compact_characterised` — when a call returns a path, what the file there is, and
  that nothing is written to an output path otherwise.
-/

namespace MctraderData.Compactor

open Lib
open Nas

/-! ## the specification of a merge -/

section

variable {R : Type} [Timed R]

/-- The smallest `ts_utc` of a file with rows. -/
def minTs (t : Table R) : Int := ((t.rows.map tsUtc).min?).getD 0

/-- The inputs with rows, in the order of their smallest timestamps, ties in listing
order. -/
def inTsOrder (inputs : List (Table R)) : List (Table R) :=
  (inputs.filter fun t => !t.rows.isEmpty).insertionSort fun a b => minTs a ≤ minTs b

/-- What a merge of the inputs has to write. -/
def concatenation (inputs : List (Table R)) : List R := (inTsOrder inputs).flatMap Table.rows

/-- The inputs with rows have one schema. -/
def OneSchema (inputs : List (Table R)) : Prop :=
  ∀ t ∈ inputs, ∀ t' ∈ inputs, t.rows ≠ [] → t'.rows ≠ [] → t.schema = t'.schema

/-- With statistics the timestamp a file is sorted by is its smallest. -/
theorem extractMinTs_of_hasStats {t : Table R} (hstats : t.hasStats = true) (hrows : t.rows ≠ []) :
    extractMinTs t = some (minTs t) := by
  unfold extractMinTs minTs
  cases hcase : t.rows with
  | nil => exact absurd hcase hrows
  | cons r rest =>
    simp only [hstats, if_true, List.map_cons]
    rw [List.min?_cons', List.foldl_map]
    rfl

variable {κ : Type} {content : κ → Option (Table R)} {candidates : List κ}

theorem keyedBy_cons (k : κ) (ks : List κ) :
    keyedBy content (k :: ks) =
      (((content k).bind extractMinTs).map (Prod.mk k)).toList ++ keyedBy content ks := by
  unfold keyedBy
  rw [List.filterMap_cons]
  cases (content k).bind extractMinTs <;> rfl

/-- Every candidate is a file with row-group statistics. -/
def WithStats (content : κ → Option (Table R)) (candidates : List κ) : Prop :=
  ∀ k ∈ candidates, ∃ t, content k = some t ∧ t.hasStats = true

section

variable (hstats : WithStats content candidates)
include hstats

/-- A keyed source has rows, and its key is its smallest timestamp. -/
theorem mem_keyedBy {kt : κ × Int} (h : kt ∈ keyedBy content candidates) :
    ∃ t, content kt.1 = some t ∧ t.rows ≠ [] ∧ kt.2 = minTs t := by
  obtain ⟨k, hk, heq⟩ := List.mem_filterMap.mp h
  obtain ⟨t, ht, hs⟩ := hstats k hk
  obtain ⟨ts, hts, rfl⟩ := Option.map_eq_some_iff.mp heq
  rw [ht, Option.bind_some] at hts
  have hrows : t.rows ≠ [] := by
    intro hnil
    simp [extractMinTs_eq_none.mpr hnil] at hts
  rw [extractMinTs_of_hasStats hs hrows] at hts
  exact ⟨t, ht, hrows, (Option.some.inj hts).symm⟩

/-- The tables behind the keyed sources are the inputs with rows. -/
theorem tables_keyedBy :
    (keyedBy content candidates).filterMap (fun kt => content kt.1) =
      (candidates.filterMap content).filter fun t => !t.rows.isEmpty := by
  induction candidates with
  | nil => rfl
  | cons k ks ih =>
    obtain ⟨⟨t, ht, hs⟩, hrest⟩ := List.forall_mem_cons.mp hstats
    rw [keyedBy_cons, List.filterMap_append, ih hrest, List.filterMap_cons]
    simp only [ht, Option.bind_some]
    by_cases hrows : t.rows = []
    · simp [extractMinTs_eq_none.mpr hrows, hrows]
    · simp [extractMinTs_of_hasStats hs hrows, hrows, ht]

/-- Copying in the order of the keys is copying in the order of the timestamps. -/
theorem tables_mergeOrder :
    (mergeOrder content candidates).filterMap content =
      inTsOrder (candidates.filterMap content) := by
  let table : κ × Int → Table R := fun kt => (content kt.1).getD ⟨"", [], false⟩
  have hmap : ∀ l : List (κ × Int), (∀ kt ∈ l, kt ∈ keyedBy content candidates) →
      l.filterMap (fun kt => content kt.1) = l.map table := by
    intro l hl
    rw [← List.filterMap_eq_map]
    refine List.filterMap_congr fun kt hkt => ?_
    obtain ⟨t, ht, -⟩ := mem_keyedBy hstats (hl kt hkt)
    simp [table, ht]
  have hle : ∀ a ∈ keyedBy content candidates, ∀ b ∈ keyedBy content candidates,
      (a.2 ≤ b.2 ↔ minTs (table a) ≤ minTs (table b)) := by
    intro a ha b hb
    obtain ⟨t, ht, -, hta⟩ := mem_keyedBy hstats ha
    obtain ⟨t', ht', -, htb⟩ := mem_keyedBy hstats hb
    simp [table, ht, ht', hta, htb]
  unfold mergeOrder sortByTs inTsOrder
  rw [List.filterMap_map, ← tables_keyedBy hstats, hmap _ fun _ h => h]
  refine (hmap _ fun kt hkt => (List.mem_insertionSort _).mp hkt).trans ?_
  exact List.map_insertionSort _ _ table _ hle

end

omit [Timed R] in
theorem sourceRows_eq_flatMap (ks : List κ) :
    sourceRows content ks = (ks.filterMap content).flatMap Table.rows := by
  induction ks with
  | nil => rfl
  | cons k ks ih =>
    unfold sourceRows at ih ⊢
    rw [List.flatMap_cons, ih, List.filterMap_cons]
    cases hk : content k <;> simp [rowsOf, hk]

theorem sourceRows_mergeOrder (hstats : WithStats content candidates) :
    sourceRows content (mergeOrder content candidates) =
      concatenation (candidates.filterMap content) := by
  rw [sourceRows_eq_flatMap, tables_mergeOrder hstats]
  rfl

theorem mem_inTsOrder {inputs : List (Table R)} {t : Table R} :
    t ∈ inTsOrder inputs ↔ t ∈ inputs ∧ t.rows ≠ [] := by
  unfold inTsOrder
  simp

/-- **When a merge copies everything**, in terms of its inputs. -/
theorem mergeable_iff_concatenation (hstats : WithStats content candidates) :
    Mergeable content candidates ↔
      concatenation (candidates.filterMap content) ≠ [] ∧
        OneSchema (candidates.filterMap content) ∧
        ((concatenation (candidates.filterMap content)).map tsUtc).IsChain (· ≤ ·) := by
  have hread : Readable content candidates := by
    intro k hk
    obtain ⟨t, ht, -⟩ := hstats k hk
    rw [ht]
    rfl
  have hmem : ∀ t, (∃ k ∈ mergeOrder content candidates, content k = some t) ↔
      t ∈ candidates.filterMap content ∧ t.rows ≠ [] := by
    intro t
    rw [← mem_inTsOrder, ← tables_mergeOrder hstats, List.mem_filterMap]
  have hne : sourceRows content candidates ≠ [] ↔
      concatenation (candidates.filterMap content) ≠ [] := by
    rw [← sourceRows_mergeOrder hstats, ne_eq, ne_eq, not_iff_not]
    have hperm := sourceRows_mergeOrder_perm content candidates
    exact ⟨fun h => List.perm_nil.mp (h ▸ hperm), fun h => List.nil_perm.mp (h ▸ hperm)⟩
  constructor
  · rintro ⟨-, hnonempty, hschema, hord⟩
    refine ⟨hne.mp hnonempty, fun t ht t' ht' hrows hrows' => ?_, ?_⟩
    · obtain ⟨k, hk, hkt⟩ := (hmem t).mpr ⟨ht, hrows⟩
      obtain ⟨k', hk', hkt'⟩ := (hmem t').mpr ⟨ht', hrows'⟩
      rw [hschema k hk t hkt, hschema k' hk' t' hkt']
    · rw [← sourceRows_mergeOrder hstats]
      exact hord
  · rintro ⟨hnonempty, hone, hord⟩
    refine ⟨hread, hne.mpr hnonempty, fun k hk t ht => ?_, ?_⟩
    · -- the schema of the writer is that of the first source
      cases horder : mergeOrder content candidates with
      | nil =>
        simp [horder] at hk
      | cons k₀ ks =>
        have hk₀ : k₀ ∈ mergeOrder content candidates := horder ▸ List.mem_cons_self
        obtain ⟨t₀, ht₀, -⟩ := mem_mergeOrder_rows hk₀
        obtain ⟨hin, hrows⟩ := (hmem t).mp ⟨k, hk, ht⟩
        obtain ⟨hin₀, hrows₀⟩ := (hmem t₀).mp ⟨k₀, hk₀, ht₀⟩
        rw [hone t hin t₀ hin₀ hrows hrows₀]
        simp [mergeSchema, ht₀]
    · rw [sourceRows_mergeOrder hstats]
      exact hord

end

/-! ## output paths -/

section

variable {W R : Type} (env : Env R)

/-- A path that some call may return. -/
def OutputPath (path : Path) : Prop :=
  ∃ (p : Partition) (v : String) (span : Span) (runId : String),
    path = (span.output env p v).dir ++ ["part-" ++ runId ++ ".parquet"]

theorem Span.output_dir (p : Partition) (v : String) (span : Span) :
    ∃ tier rest, (span.output env p v).dir = p.tierDir env v tier ++ rest := by
  cases span with
  | hour hourUtc => exact ⟨"L2", ["hour=" ++ twoDigits hourUtc, "node=MERGED"], rfl⟩
  | day => exact ⟨"L3", ["node=MERGED"], rfl⟩

theorem Span.output_quarantineDir (p : Partition) (v : String) (span : Span) :
    (span.output env p v).quarantineDir = quarantineDir p.channel (env.isoformat p.dateUtc) := by
  cases span <;> rfl

/-- No output path is a quarantine path. -/
theorem OutputPath.ne_quarantinePath {path : Path} (h : OutputPath env path) (p : Partition)
    (v : String) (span : Span) : path ≠ (span.output env p v).quarantinePath env := by
  obtain ⟨p', v', span', runId, rfl⟩ := h
  obtain ⟨tier, rest, hdir⟩ := span'.output_dir env p' v'
  intro heq
  have hpre : p'.tierDir env v' tier <+:
      ((span.output env p v).quarantinePath env).dropLast := by
    rw [← heq, List.dropLast_concat, hdir]
    exact List.prefix_append _ _
  exact not_tier_prefix_quarantine env (span.output_quarantineDir env p v) hpre

variable [Timed R] [Blob (Content W R)]

/-- **What `compact_hour` and `compact_day` return.** For readable inputs with correct
statistics, from the local disk or from a NAS that answers: a path is returned exactly
when some input has a row, the inputs with rows have one schema, and their
concatenation in timestamp order does not decrease. The file there is that
concatenation; without a path, nothing is created or changed at any output path. -/
theorem compact_characterised (nas : Bool) (p : Partition) (span : Span)
    (w : World (Content W R))
    (hinputs : WithStats (inputTable w nas) (span.inputs env w nas p))
    (hanswers : nas = true → Answering w.replies) :
    ((∃ path, (span.compact env nas p).result w = .ok (some path)) ↔
      concatenation ((span.inputs env w nas p).filterMap (inputTable w nas)) ≠ [] ∧
        OneSchema ((span.inputs env w nas p).filterMap (inputTable w nas)) ∧
        ((concatenation ((span.inputs env w nas p).filterMap (inputTable w nas))).map
          tsUtc).IsChain (· ≤ ·)) ∧
    (∀ path, (span.compact env nas p).result w = .ok (some path) →
      ∃ t, ((span.compact env nas p).after w).files.lookup path = some (.parquet t) ∧
        t.rows = concatenation ((span.inputs env w nas p).filterMap (inputTable w nas))) ∧
    ((∀ path, (span.compact env nas p).result w ≠ .ok (some path)) → ∀ path, OutputPath env path →
      ((span.compact env nas p).after w).files.lookup path = w.files.lookup path) := by
  rw [← mergeable_iff_concatenation hinputs, ← sourceRows_mergeOrder hinputs]
  generalize hr : (span.compact env nas p).result w = r
  generalize hw' : (span.compact env nas p).after w = w'
  have hpost := span.compact_post env nas p w
  rw [hr, hw'] at hpost
  refine ⟨⟨?_, hpost.of_mergeable hanswers⟩, ?_, ?_⟩
  · rintro ⟨path, rfl⟩
    exact hpost.written.1
  · rintro path rfl
    exact hpost.written.2
  · intro hnone path hpath
    cases hpost with
    | refused => rfl
    | unlisted _ hsame => rw [hsame.files]
    | merge _ _ v hv hmerge =>
      cases hmerge with
      | empty _ _ _ hfiles => rw [hfiles]
      | merged _ path' => exact absurd rfl (hnone path')
      | quarantined _ _ _ _ hfiles =>
        rw [hfiles]
        exact AList.lookup_insert_ne (hpath.ne_quarantinePath env p v span)
      | raised _ _ _ hfiles => rw [hfiles]

/-- Two files of one hour, the second with a column more. -/
def twoSchemas : World (Content Int Int) where
  files := (AList.singleton (l1DayDir ++ ["node=n1", "part-a.parquet"])
      (.parquet ⟨"tick", [[86400000000]], true⟩)).insert
    (l1DayDir ++ ["node=n1", "part-b.parquet"]) (.parquet ⟨"tick+", [[86400000001]], true⟩)
  dirs := []
  nas := ∅
  retryQueue := none
  replies := Stream'.const (.ok "etag" none)
  unlinkFaults := Stream'.const false

/-- Inputs of two schemas are not merged. -/
theorem compact_refuses_second_schema :
    WithStats (inputTable twoSchemas false)
        ((Span.hour 0).inputs tallyEnv twoSchemas false partitionA) ∧
      concatenation (((Span.hour 0).inputs tallyEnv twoSchemas false partitionA).filterMap
        (inputTable twoSchemas false)) = [86400000000, 86400000001] ∧
      ((Span.hour 0).compact tallyEnv false partitionA).result twoSchemas =
        .error .arrowInvalid := by
  refine ⟨?_, rfl, rfl⟩
  intro k hk
  have hk' : k ∈ [l1DayDir ++ ["node=n1", "part-b.parquet"],
      l1DayDir ++ ["node=n1", "part-a.parquet"]] := hk
  simp only [List.mem_cons, List.not_mem_nil, or_false] at hk'
  rcases hk' with rfl | rfl
  · exact ⟨_, rfl, rfl⟩
  · exact ⟨_, rfl, rfl⟩

/-- Two files of one schema; the one that is listed first is the later one. -/
def twoFiles : World (Content Int Int) :=
  { twoSchemas with
    files := (AList.singleton (l1DayDir ++ ["node=n1", "part-a.parquet"])
        (.parquet ⟨"tick", [[86400000000, 86400000001]], true⟩)).insert
      (l1DayDir ++ ["node=n1", "part-b.parquet"]) (.parquet ⟨"tick", [[86400000002]], true⟩) }

/-- They are merged in the order of their first rows. -/
theorem compact_characterised_two_files : ∃ path t,
    ((Span.hour 0).compact tallyEnv false partitionA).result twoFiles = .ok (some path) ∧
      (((Span.hour 0).compact tallyEnv false partitionA).after twoFiles).files.lookup path =
        some (.parquet t) ∧
      t.rows = [86400000000, 86400000001, 86400000002] := by
  have hlisted : (Span.hour 0).inputs tallyEnv twoFiles false partitionA =
      [l1DayDir ++ ["node=n1", "part-b.parquet"], l1DayDir ++ ["node=n1", "part-a.parquet"]] := rfl
  have hstats : WithStats (inputTable twoFiles false)
      ((Span.hour 0).inputs tallyEnv twoFiles false partitionA) := by
    rw [hlisted]
    intro k hk
    simp only [List.mem_cons, List.not_mem_nil, or_false] at hk
    rcases hk with rfl | rfl
    · exact ⟨_, rfl, rfl⟩
    · exact ⟨_, rfl, rfl⟩
  obtain ⟨hreturns, hfile, -⟩ := compact_characterised tallyEnv false partitionA (.hour 0)
    twoFiles hstats (by simp)
  have hone : OneSchema [(⟨"tick", [[86400000002]], true⟩ : Table Int),
      ⟨"tick", [[86400000000, 86400000001]], true⟩] := by
    unfold OneSchema
    decide
  obtain ⟨path, hpath⟩ := hreturns.mpr ⟨List.cons_ne_nil _ _, hone, by decide⟩
  obtain ⟨t, ht, hrows⟩ := hfile path hpath
  exact ⟨path, t, hpath, ht, hrows⟩

end

end MctraderData.Compactor
