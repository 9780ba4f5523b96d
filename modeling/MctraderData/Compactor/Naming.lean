import Mathlib.Data.List.Permutation
import MctraderData.Compactor.Characterisation
import MctraderData.Lib.StableSort

/-!
# mctrader-data — what the name of an output depends on

The file a merge writes is named by a hash. From the local disk the hash is taken over
the inputs in copying order, where files with one smallest timestamp stand in the order
the directory walk listed them. From NAS it is taken over the sorted canonical keys, so
that a move of the objects from the legacy prefix to the flat one does not show.

## Results

* `mergeOrder_eq_of_perm` — with distinct smallest timestamps the copying order is a
  function of the set of inputs.
* `localRunId_stable_iff` — a local name depends on the set of inputs only, exactly
  when their smallest timestamps are distinct.
* `compactHourNas_cutover_stable` — a NAS name, and the rows, do not depend on which
  prefix each object lies under.
-/

namespace MctraderData.Compactor

open Lib
open Nas

/-! ## the copying order -/

section

variable {R κ κ' : Type} [Timed R]

/-- No two sources with rows have one sort timestamp. -/
def DistinctTs (content : κ → Option (Table R)) (candidates : List κ) : Prop :=
  candidates.Pairwise fun k k' => ∀ ts, (content k).bind extractMinTs = some ts →
    (content k').bind extractMinTs ≠ some ts

variable {content : κ → Option (Table R)} {candidates candidates' : List κ}

theorem distinctKeys_keyedBy :
    DistinctKeys Prod.snd (keyedBy content candidates) ↔ DistinctTs content candidates := by
  unfold DistinctKeys DistinctTs keyedBy
  rw [List.pairwise_filterMap]
  refine iff_of_eq (congrArg (List.Pairwise · candidates) ?_)
  funext k k'
  simp only [Option.map_eq_some_iff, forall_exists_index, and_imp, ne_eq,
    eq_iff_iff]
  constructor
  · intro h ts hts hts'
    exact h _ ts hts rfl _ ts hts' rfl rfl
  · rintro h _ ts hts rfl _ ts' hts' rfl heq
    rw [show ts = ts' from heq] at hts
    exact h ts' hts hts'

section

variable (hperm : candidates.Perm candidates')
include hperm

theorem keyedBy_perm : (keyedBy content candidates).Perm (keyedBy content candidates') :=
  hperm.filterMap _

/-- **With distinct timestamps** the copying order is one for every listing order. -/
theorem mergeOrder_eq_of_perm (h : DistinctTs content candidates) :
    mergeOrder content candidates = mergeOrder content candidates' := by
  unfold mergeOrder sortByTs
  rw [sort_eq_of_perm (keyedBy_perm hperm) (distinctKeys_keyedBy.mpr h)]

/-- The listing order does not decide whether the sources can be merged either. -/
theorem mergeable_perm (h : DistinctTs content candidates) :
    Mergeable content candidates ↔ Mergeable content candidates' := by
  have hread : Readable content candidates ↔ Readable content candidates' :=
    forall_congr' fun k => imp_congr_left hperm.mem_iff
  rw [mergeable_iff, mergeable_iff, hread, mergeOrder_eq_of_perm hperm h]

end

theorem keyedBy_sources_sublist :
    ((keyedBy content candidates).map Prod.fst).Sublist candidates := by
  induction candidates with
  | nil => exact .slnil
  | cons k ks ih =>
    rw [keyedBy_cons, List.map_append]
    cases (content k).bind extractMinTs with
    | none => exact ih.cons k
    | some ts => exact ih.cons_cons k

/-- **With a tie** the reversed listing is copied in another order. -/
theorem mergeOrder_reverse_ne (hnodup : candidates.Nodup) (h : ¬ DistinctTs content candidates) :
    mergeOrder content candidates.reverse ≠ mergeOrder content candidates := by
  have hreverse : keyedBy content candidates.reverse = (keyedBy content candidates).reverse := by
    unfold keyedBy
    rw [List.filterMap_reverse]
  unfold mergeOrder sortByTs
  rw [hreverse]
  exact sort_reverse_ne (hnodup.sublist keyedBy_sources_sublist)
    fun hd => h (distinctKeys_keyedBy.mp hd)

/-- Sources that all have rows are all copied. -/
theorem mergeOrder_perm
    (hrows : ∀ k ∈ candidates, ∃ t, content k = some t ∧ t.rows ≠ []) :
    (mergeOrder content candidates).Perm candidates := by
  have hall : (keyedBy content candidates).map Prod.fst = candidates := by
    refine keyedBy_sources_sublist.eq_of_length ?_
    unfold keyedBy
    rw [List.length_map, List.length_filterMap_eq_countP, List.countP_eq_length]
    intro k hk
    obtain ⟨t, ht, hne⟩ := hrows k hk
    rw [ht, Option.isSome_map, Option.bind_some, Option.isSome_iff_ne_none]
    exact fun hnone => hne (extractMinTs_eq_none.mp hnone)
  have hperm := (List.perm_insertionSort (fun a b : κ × Int => a.2 ≤ b.2)
    (keyedBy content candidates)).map Prod.fst
  rw [hall] at hperm
  exact hperm

section

variable {content' : κ' → Option (Table R)} {f : κ → κ'}
  (hf : ∀ k ∈ candidates, content' (f k) = content k)

include hf

theorem keyedBy_map : (keyedBy content candidates).map (Prod.map f id) =
    keyedBy content' (candidates.map f) := by
  unfold keyedBy
  rw [List.map_filterMap, List.filterMap_map]
  refine List.filterMap_congr fun k hk => ?_
  rw [Function.comp_apply, hf k hk, Option.map_map]
  rfl

/-- Renamed sources are copied in the renamed order. -/
theorem mergeOrder_map : (mergeOrder content candidates).map f =
    mergeOrder content' (candidates.map f) := by
  unfold mergeOrder sortByTs
  rw [← keyedBy_map hf, ← List.map_insertionSort (fun a b : κ × Int => a.2 ≤ b.2)
    (fun a b : κ' × Int => a.2 ≤ b.2) (Prod.map f id) _ fun _ _ _ _ => Iff.rfl, List.map_map,
    List.map_map]
  rfl

theorem tagged_mergeOrder_map : (mergeOrder content candidates).flatMap (taggedOf content) =
    (mergeOrder content' (candidates.map f)).flatMap (taggedOf content') := by
  rw [← mergeOrder_map hf, List.flatMap_map]
  refine List.flatMap_congr fun k hk => ?_
  rw [taggedOf, taggedOf, hf k (mem_mergeOrder hk)]

theorem mergeSchema_mergeOrder_map : mergeSchema content (mergeOrder content candidates) =
    mergeSchema content' (mergeOrder content' (candidates.map f)) := by
  rw [← mergeOrder_map hf]
  unfold mergeSchema
  cases horder : mergeOrder content candidates with
  | nil => rfl
  | cons k ks =>
    have hk : k ∈ candidates := mem_mergeOrder (horder ▸ List.mem_cons_self)
    simp [hf k hk]

theorem mergeStream_map : mergeStream content (mergeOrder content candidates) =
    mergeStream content' (mergeOrder content' (candidates.map f)) := by
  unfold mergeStream
  rw [mergeSchema_mergeOrder_map hf, tagged_mergeOrder_map hf]

/-- Renamed sources are merged to the same file. -/
theorem mergedTable_map (env : Env R) : mergedTable content env candidates =
    mergedTable content' env (candidates.map f) := by
  unfold mergedTable
  rw [mergeSchema_mergeOrder_map hf, mergeStream_map hf]

theorem mergeable_map :
    Mergeable content candidates ↔ Mergeable content' (candidates.map f) := by
  have hread : Readable content candidates ↔ Readable content' (candidates.map f) := by
    unfold Readable
    rw [List.forall_mem_map]
    exact forall₂_congr fun k hk => by rw [hf k hk]
  rw [mergeable_iff, mergeable_iff, hread, mergeStream_map hf, ← mergeOrder_map hf, ne_eq, ne_eq,
    List.map_eq_nil_iff]

omit [Timed R] in
theorem sourceRows_map :
    sourceRows content candidates = sourceRows content' (candidates.map f) := by
  unfold sourceRows
  rw [List.flatMap_map]
  refine List.flatMap_congr fun k hk => ?_
  rw [rowsOf, rowsOf, hf k hk]

end

end

/-! ## local names -/

section

variable {W R : Type} [Blob (Content W R)]

/-- The tier a call reads. -/
def Span.sourceTier : Span → String
  | .hour _ => "L1"
  | .day => "L2"

variable {env : Env R} {p : Partition} {w : World (Content W R)} {v : String}

theorem Span.inputs_local (hv : schemaVersion p.channel = some v) (span : Span) :
    span.inputs env w false p = rglobParts w (p.tierDir env v span.sourceTier) := by
  cases span <;> simp [Span.inputs, Span.sourceTier, localL1, localL2, hv]

/-- No call writes to the tier it reads. -/
theorem Span.not_sourceTier_prefix (span : Span) :
    ¬ p.tierDir env v span.sourceTier <+: (span.output env p v).dir := by
  cases span <;> simp [Span.output, Partition.hourOutput, Partition.dayOutput, Partition.tierDir,
    Span.sourceTier, tierDir_prefix_iff]

/-- The local inputs of the call are the same files, in any listing order. -/
structure SameInputs (env : Env R) (p : Partition) (span : Span) (w w' : World (Content W R)) :
    Prop where
  listed : (span.inputs env w' false p).Perm (span.inputs env w false p)
  tables : ∀ path ∈ span.inputs env w false p, localTable w' path = localTable w path

variable {span : Span} {w' : World (Content W R)}

theorem SameInputs.trans {w'' : World (Content W R)} (h : SameInputs env p span w w')
    (h' : SameInputs env p span w' w'') :
    SameInputs env p span w w'' where
  listed := h'.listed.trans h.listed
  tables path hpath :=
    (h'.tables path (h.listed.mem_iff.mpr hpath)).trans (h.tables path hpath)

theorem sameInputs_of_files (h : w'.files = w.files) :
    SameInputs env p span w w' where
  listed := by
    cases hv : schemaVersion p.channel with
    | none => rw [Span.inputs_of_none hv, Span.inputs_of_none hv]
    | some v => rw [Span.inputs_local hv, Span.inputs_local hv, rglobParts, rglobParts, h]
  tables _ _ := by rw [localTable_congr h]

/-- A file written outside the tier that is read is no input. -/
theorem sameInputs_of_insert {path : Path} {c : Content W R}
    (hv : schemaVersion p.channel = some v) (hfiles : w'.files = w.files.insert path c)
    (hout : ¬ p.tierDir env v span.sourceTier <+: path.dropLast) :
    SameInputs env p span w w' where
  listed := by
    rw [Span.inputs_local hv, Span.inputs_local hv, rglobParts_insert_of_not hfiles hout]
  tables path' hpath' := by
    rw [Span.inputs_local hv, mem_rglobParts] at hpath'
    exact localTable_insert_of_ne hfiles fun heq => hout (heq ▸ hpath'.2.1)

variable [Timed R] (env : Env R) (p : Partition) (span : Span) (w : World (Content W R))

/-- The run id a local call derives from its inputs, if any of them has a row. -/
def localRunId : Option String :=
  match mergeOrder (localTable w) (span.inputs env w false p) with
  | [] => none
  | k :: ks => some (env.runId (k :: ks))

/-- The name of a local output depends on the set of inputs only: the run id does, and
with it the path; and a later call over the same inputs returns the same path again and
creates no other file. -/
structure ListingStable : Prop where
  runId : ∀ w', SameInputs env p span w w' → localRunId env p span w' = localRunId env p span w
  path : ∀ w', SameInputs env p span w w' → ∀ path,
    (span.compact env false p).result w' = .ok (some path) ↔
      (span.compact env false p).result w = .ok (some path)
  rerun : ∀ path, (span.compact env false p).result w = .ok (some path) → ∀ w',
    SameInputs env p span ((span.compact env false p).after w) w' →
      (span.compact env false p).result w' = .ok (some path) ∧
        ∀ path', path' ≠ path →
          ((span.compact env false p).after w').files.lookup path' = w'.files.lookup path'

variable {env p span w}

/-- A local call leaves its own inputs alone. -/
theorem sameInputs_after : SameInputs env p span w ((span.compact env false p).after w) := by
  have hpost := span.compact_post env false p w
  generalize (span.compact env false p).result w = r at hpost
  generalize (span.compact env false p).after w = w' at hpost ⊢
  cases hpost with
  | refused e hnil => exact sameInputs_of_files rfl
  | unlisted _ hsame => exact sameInputs_of_files hsame.files
  | merge _ _ v hv hpost =>
    cases hpost with
    | empty _ _ _ hfiles => exact sameInputs_of_files hfiles
    | raised _ _ _ hfiles => exact sameInputs_of_files hfiles
    | merged _ path _ _ _ _ hpath hfiles =>
      refine sameInputs_of_insert hv hfiles ?_
      rw [hpath, List.dropLast_concat]
      exact span.not_sourceTier_prefix
    | quarantined _ _ _ _ hfiles =>
      exact sameInputs_of_insert hv hfiles
        (not_tier_prefix_quarantine env (span.output_quarantineDir env p v))

/-- When a local call returns a path, and which. -/
theorem local_result_iff {path : Path} :
    (span.compact env false p).result w = .ok (some path) ↔
      ∃ v, schemaVersion p.channel = some v ∧
        Mergeable (localTable w) (span.inputs env w false p) ∧
        path = (span.output env p v).dir ++ ["part-" ++
          env.runId (mergeOrder (localTable w) (span.inputs env w false p)) ++ ".parquet"] := by
  have hrunId : ∀ ks, span.runId env false ks = env.runId ks := by
    intro ks
    cases span <;> rfl
  have hpost := span.compact_post env false p w
  constructor
  · intro h
    rw [h] at hpost
    obtain ⟨v, hv, hpath, -⟩ := hpost.returned
    rw [hrunId] at hpath
    exact ⟨v, hv, hpost.written.1, hpath⟩
  · rintro ⟨v, hv, hm, rfl⟩
    obtain ⟨path, hpath⟩ := hpost.of_mergeable nofun hm
    rw [hpath] at hpost ⊢
    obtain ⟨v', hv', rfl, -⟩ := hpost.returned
    cases hv.symm.trans hv'
    rw [hrunId]
    rfl

section

variable {w' : World (Content W R)} (hsame : SameInputs env p span w w')
  (hd : DistinctTs (localTable w) (span.inputs env w false p))

include hsame hd

theorem SameInputs.mergeOrder :
    mergeOrder (localTable w') (span.inputs env w' false p) =
      mergeOrder (localTable w) (span.inputs env w false p) := by
  rw [mergeOrder_eq_of_perm hsame.listed.symm hd]
  exact mergeOrder_congr fun k hk => hsame.tables k (hsame.listed.mem_iff.mp hk)

/-- With distinct timestamps the listing order decides nothing. -/
theorem SameInputs.mergeable_iff :
    Mergeable (localTable w') (span.inputs env w' false p) ↔
      Mergeable (localTable w) (span.inputs env w false p) := by
  have htables : ∀ k ∈ span.inputs env w' false p, localTable w (id k) = localTable w' k :=
    fun k hk => (hsame.tables k (hsame.listed.mem_iff.mp hk)).symm
  rw [mergeable_perm hsame.listed.symm hd, mergeable_map htables, List.map_id]

theorem SameInputs.result_iff (path : Path) :
    (span.compact env false p).result w' = .ok (some path) ↔
      (span.compact env false p).result w = .ok (some path) := by
  rw [local_result_iff, local_result_iff, hsame.mergeOrder hd, hsame.mergeable_iff hd]

end

/-- A local call that returns a path changes no other file. -/
theorem files_of_local_result {path path' : Path}
    (h : (span.compact env false p).result w = .ok (some path)) (hne : path' ≠ path) :
    ((span.compact env false p).after w).files.lookup path' = w.files.lookup path' := by
  have hpost := span.compact_post env false p w
  rw [h] at hpost
  obtain ⟨v, -, -, hfiles⟩ := hpost.returned
  rw [hfiles]
  exact AList.lookup_insert_ne hne

theorem listingStable_of_distinctTs
    (hd : DistinctTs (localTable w) (span.inputs env w false p)) :
    ListingStable env p span w where
  runId w' hsame := by
    unfold localRunId
    rw [hsame.mergeOrder hd]
  path w' hsame path := hsame.result_iff hd path
  rerun path hpath w' hsame := by
    have hresult := ((sameInputs_after.trans hsame).result_iff hd path).mpr hpath
    exact ⟨hresult, fun path' hne => files_of_local_result hresult hne⟩

/-- The same files, listed backwards. -/
def backwards (w : World (Content W R)) : World (Content W R) :=
  { w with files := ⟨w.files.entries.reverse,
      (List.perm_nodupKeys (List.reverse_perm _)).mpr w.files.nodupKeys⟩ }

omit [Timed R] in
theorem inputs_backwards :
    span.inputs env (backwards w) false p = (span.inputs env w false p).reverse := by
  have hkeys : (backwards w).files.keys = w.files.keys.reverse := List.map_reverse
  cases hv : schemaVersion p.channel with
  | none =>
    rw [Span.inputs_of_none hv, Span.inputs_of_none hv]
    rfl
  | some v =>
    rw [Span.inputs_local hv, Span.inputs_local hv, rglobParts, hkeys, List.filter_reverse]
    rfl

omit [Timed R] in
theorem localTable_backwards : localTable (backwards w) = localTable w := by
  funext path
  have hlookup : (backwards w).files.lookup path = w.files.lookup path :=
    AList.perm_lookup (List.reverse_perm _)
  unfold localTable
  rw [hlookup]

omit [Timed R] in
theorem sameInputs_backwards : SameInputs env p span w (backwards w) where
  listed := by
    rw [inputs_backwards]
    exact List.reverse_perm _
  tables path _ := by rw [localTable_backwards]

omit [Timed R] in
theorem inputs_nodup : (span.inputs env w false p).Nodup := by
  cases hv : schemaVersion p.channel with
  | none =>
    rw [Span.inputs_of_none hv]
    exact List.nodup_nil
  | some v =>
    rw [Span.inputs_local hv]
    exact w.files.keys_nodup.filter _

/-- **What a local name depends on.** For inputs that all have rows, and a hash that
tells their orders apart: the run id, the path and what a re-run creates are the same
for every listing order exactly when the sort timestamps of the inputs are distinct. -/
theorem localRunId_stable_iff (env : Env R) (p : Partition) (span : Span)
    (w : World (Content W R))
    (hrows : ∀ path ∈ span.inputs env w false p, ∃ t, localTable w path = some t ∧ t.rows ≠ [])
    (hhash : ∀ l l' : List Path, l.Perm (span.inputs env w false p) →
      l'.Perm (span.inputs env w false p) → env.runId l = env.runId l' → l = l') :
    ListingStable env p span w ↔ DistinctTs (localTable w) (span.inputs env w false p) := by
  refine ⟨fun hstable => ?_, listingStable_of_distinctTs⟩
  by_contra hties
  refine mergeOrder_reverse_ne inputs_nodup hties ?_
  have hid := hstable.runId (backwards w) sameInputs_backwards
  have hperm := mergeOrder_perm hrows
  have hperm' : (mergeOrder (localTable w) (span.inputs env w false p).reverse).Perm
      (span.inputs env w false p) := by
    refine (mergeOrder_perm fun path hpath => ?_).trans (List.reverse_perm _)
    exact hrows path (List.mem_reverse.mp hpath)
  unfold localRunId at hid
  rw [inputs_backwards, localTable_backwards] at hid
  cases hcase : mergeOrder (localTable w) (span.inputs env w false p) with
  | nil =>
    -- without inputs nothing ties
    rw [hcase, List.nil_perm] at hperm
    exact absurd (hperm ▸ List.Pairwise.nil) hties
  | cons k ks =>
    cases hcase' : mergeOrder (localTable w) (span.inputs env w false p).reverse with
    | nil => simp [hcase, hcase'] at hid
    | cons k' ks' =>
      rw [hcase] at hperm hid
      rw [hcase'] at hperm' hid
      exact hhash _ _ hperm' hperm (Option.some.inj hid)

/-- Run ids that show the names they are made of. -/
def joinEnv : Env Int :=
  { tallyEnv with runId := fun names => String.join (names.map (·.getLastD "")) }

/-- Two L1 files of one day, with one row each. -/
def pairWorld (ts ts' : Int) : World (Content Int Int) where
  files := (AList.singleton (l1DayDir ++ ["part-a.parquet"])
      (.parquet ⟨"tick", [[ts]], true⟩)).insert
    (l1DayDir ++ ["part-b.parquet"]) (.parquet ⟨"tick", [[ts']], true⟩)
  dirs := []
  nas := ∅
  retryQueue := none
  replies := Stream'.const (.ok "etag" none)
  unlinkFaults := Stream'.const false

theorem inputs_pairWorld (ts ts' : Int) :
    (Span.hour 0).inputs joinEnv (pairWorld ts ts') false partitionA =
      [l1DayDir ++ ["part-b.parquet"], l1DayDir ++ ["part-a.parquet"]] := by
  have hkeys : (pairWorld ts ts').files.keys =
      [l1DayDir ++ ["part-b.parquet"], l1DayDir ++ ["part-a.parquet"]] := rfl
  rw [Span.inputs_local (v := "tick.v1") rfl, rglobParts, hkeys]
  decide

theorem rows_pairWorld (ts ts' : Int) :
    ∀ path ∈ (Span.hour 0).inputs joinEnv (pairWorld ts ts') false partitionA,
      ∃ t, localTable (pairWorld ts ts') path = some t ∧ t.rows ≠ [] := by
  rw [inputs_pairWorld]
  intro path hpath
  simp only [List.mem_cons, List.not_mem_nil, or_false] at hpath
  rcases hpath with rfl | rfl <;> exact ⟨_, rfl, List.cons_ne_nil _ _⟩

/-- Two files of different times: one name, however they are listed. -/
theorem localRunId_stable_two_files :
    ListingStable joinEnv partitionA (.hour 0) (pairWorld 86400000000 86400000001) := by
  refine (localRunId_stable_iff joinEnv partitionA (.hour 0) (pairWorld 86400000000 86400000001)
    (rows_pairWorld _ _) ?_).mpr ?_
  · intro l l' hl hl' hid
    rcases List.perm_pair.mp hl with rfl | rfl <;> rcases List.perm_pair.mp hl' with rfl | rfl
    · rfl
    · exact absurd hid (by decide)
    · exact absurd hid (by decide)
    · rfl
  · rw [inputs_pairWorld]
    refine List.pairwise_pair.mpr fun ts hts hts' => ?_
    have hb : (86400000001 : Int) = ts := Option.some.inj hts
    have ha : (86400000000 : Int) = ts := Option.some.inj hts'
    omega

/-- Two files of one time: listed backwards they get another name. -/
theorem localRunId_shows_listing_order :
    (∀ path ∈ (Span.hour 0).inputs joinEnv (pairWorld 86400000000 86400000000) false partitionA,
        ∃ t, localTable (pairWorld 86400000000 86400000000) path = some t ∧ t.rows ≠ []) ∧
      SameInputs joinEnv partitionA (.hour 0) (pairWorld 86400000000 86400000000)
        (backwards (pairWorld 86400000000 86400000000)) ∧
      ((Span.hour 0).compact joinEnv false partitionA).result
          (pairWorld 86400000000 86400000000) =
        .ok (some (l2DayDir ++ ["hour=00", "node=MERGED",
          "part-part-b.parquetpart-a.parquet.parquet"])) ∧
      ((Span.hour 0).compact joinEnv false partitionA).result
          (backwards (pairWorld 86400000000 86400000000)) =
        .ok (some (l2DayDir ++ ["hour=00", "node=MERGED",
          "part-part-a.parquetpart-b.parquet.parquet"])) :=
  ⟨rows_pairWorld _ _, sameInputs_backwards, rfl, rfl⟩

end

/-! ## NAS names across the cutover -/

/-- The dictionary of the canonical dedup: canonical key to the key that is read. -/
def canonicalMap (flatKeys legacyKeys : List Key) : List (Key × Key) :=
  legacyKeys.foldl (fun m raw => setDefault m (legacyKeyToCanonical raw) raw)
    (flatKeys.map fun k => (k, k))

variable {m : List (Key × Key)} {key : Key}

theorem mem_setDefault {value : Key} {e : Key × Key} (h : e ∈ setDefault m key value) :
    e ∈ m ∨ e = (key, value) := by
  unfold setDefault at h
  split at h
  · exact Or.inl h
  · simpa using h

theorem setDefault_keys {value c : Key} :
    c ∈ (setDefault m key value).map Prod.fst ↔ c ∈ m.map Prod.fst ∨ c = key := by
  unfold setDefault
  split
  · rename_i hmem
    exact ⟨Or.inl, fun h => h.elim id fun heq => heq ▸ hmem⟩
  · rw [List.map_append, List.mem_append, List.map_singleton, List.mem_singleton]

theorem setDefault_nodup (key value : Key) (h : (m.map Prod.fst).Nodup) :
    ((setDefault m key value).map Prod.fst).Nodup := by
  unfold setDefault
  split
  · exact h
  · rw [List.map_append]
    refine h.append (List.nodup_singleton _) ?_
    rwa [List.map_singleton, List.disjoint_singleton]

section

variable {flatKeys legacyKeys : List Key}

/-- Every entry was listed, and its key is the canonical key of what is read. -/
theorem mem_canonicalMap (hflat : ∀ k ∈ flatKeys, legacyKeyToCanonical k = k) {e : Key × Key}
    (h : e ∈ canonicalMap flatKeys legacyKeys) :
    legacyKeyToCanonical e.2 = e.1 ∧ (e.2 ∈ flatKeys ∨ e.2 ∈ legacyKeys) := by
  -- the invariant of the fold, over the keys it has seen
  have hfold : ∀ (l : List Key) (m : List (Key × Key)),
      e ∈ l.foldl (fun m raw => setDefault m (legacyKeyToCanonical raw) raw) m →
      e ∈ m ∨ legacyKeyToCanonical e.2 = e.1 ∧ e.2 ∈ l := by
    intro l
    induction l with
    | nil => exact fun m h => Or.inl h
    | cons raw rest ih =>
      intro m hm
      rcases ih _ hm with hm' | ⟨hcanon, hrest⟩
      · rcases mem_setDefault hm' with hin | rfl
        · exact Or.inl hin
        · exact Or.inr ⟨rfl, List.mem_cons_self⟩
      · exact Or.inr ⟨hcanon, List.mem_cons_of_mem _ hrest⟩
  rcases hfold _ _ h with hin | ⟨hcanon, hin⟩
  · obtain ⟨k, hk, rfl⟩ := List.mem_map.mp hin
    exact ⟨hflat k hk, Or.inl hk⟩
  · exact ⟨hcanon, Or.inr hin⟩

/-- The map has the flat keys and the renamed legacy ones. -/
theorem canonicalMap_keys {c : Key} : c ∈ (canonicalMap flatKeys legacyKeys).map Prod.fst ↔
    c ∈ flatKeys ∨ c ∈ legacyKeys.map legacyKeyToCanonical := by
  have hfold : ∀ (l : List Key) (m : List (Key × Key)),
      c ∈ (l.foldl (fun m raw => setDefault m (legacyKeyToCanonical raw) raw) m).map Prod.fst ↔
        c ∈ m.map Prod.fst ∨ c ∈ l.map legacyKeyToCanonical := by
    intro l
    induction l with
    | nil => simp
    | cons raw rest ih =>
      intro m
      rw [List.foldl_cons, ih, setDefault_keys, List.map_cons, List.mem_cons, or_assoc]
  unfold canonicalMap
  rw [hfold, List.map_map]
  simp

theorem canonicalMap_nodup (h : flatKeys.Nodup) :
    ((canonicalMap flatKeys legacyKeys).map Prod.fst).Nodup := by
  have hfold : ∀ (l : List Key) (m : List (Key × Key)), (m.map Prod.fst).Nodup →
      ((l.foldl (fun m raw => setDefault m (legacyKeyToCanonical raw) raw) m).map
        Prod.fst).Nodup := by
    intro l
    induction l with
    | nil => exact fun m hm => hm
    | cons raw rest ih => exact fun m hm => ih _ (setDefault_nodup _ _ hm)
  refine hfold legacyKeys _ ?_
  simpa [Function.comp_def] using h

/-- The keys that are read name each canonical key once. -/
theorem map_candidateKeys (hflat : ∀ k ∈ flatKeys, legacyKeyToCanonical k = k) :
    ((candidateKeys flatKeys legacyKeys).map legacyKeyToCanonical).Perm
      ((canonicalMap flatKeys legacyKeys).map Prod.fst) := by
  have hvalues : ((canonicalMap flatKeys legacyKeys).map Prod.snd).map legacyKeyToCanonical =
      (canonicalMap flatKeys legacyKeys).map Prod.fst := by
    rw [List.map_map]
    exact List.map_congr_left fun e he => (mem_canonicalMap hflat he).1
  rw [← hvalues]
  exact (sortKeys_perm _).map _

theorem mem_candidateKeys (hflat : ∀ k ∈ flatKeys, legacyKeyToCanonical k = k) {raw : Key}
    (h : raw ∈ candidateKeys flatKeys legacyKeys) : raw ∈ flatKeys ∨ raw ∈ legacyKeys := by
  obtain ⟨e, he, rfl⟩ := List.mem_map.mp (mem_sortKeys.mp h)
  exact (mem_canonicalMap hflat he).2

end

section

variable {W R : Type} [Blob (Content W R)]

/-- The object of a canonical key. -/
def objectTable (objects : AList fun _ : Key => Table R) (key : Key) : Option (Table R) :=
  objects.lookup key

/-- The objects of the canonical keys lie under the flat prefix `pfx`, under the legacy
prefix, or under both with one content, and nothing else lies there. -/
structure Distributes (pfx : Key) (objects : AList fun _ : Key => Table R)
    (w : World (Content W R)) : Prop where
  canonical : ∀ key ∈ objects.keys, pfx <+: key ∧ isParquetKey key = true
  placed : ∀ key ∈ objects.keys, key ∈ w.nas.keys ∨ "l1" :: key ∈ w.nas.keys
  flat : ∀ key ∈ w.nas.keys, pfx <+: key → isParquetKey key = true →
    key ∈ objects.keys ∧ nasTable w key = objectTable objects key
  legacy : ∀ key, "l1" :: key ∈ w.nas.keys → pfx <+: key → isParquetKey key = true →
    key ∈ objects.keys ∧ nasTable w ("l1" :: key) = objectTable objects key

variable {w : World (Content W R)}

theorem mem_listedParquet {pfx : Key} :
    key ∈ listedParquet w pfx ↔ key ∈ w.nas.keys ∧ pfx <+: key ∧ isParquetKey key = true := by
  unfold listedParquet
  rw [List.mem_filter, mem_sortKeys, List.mem_filter, List.isPrefixOf_iff_prefix, and_assoc]

theorem listedParquet_nodup (w : World (Content W R)) (pfx : Key) :
    (listedParquet w pfx).Nodup := by
  exact ((sortKeys_perm _).nodup_iff.mpr (w.nas.keys_nodup.filter _)).filter _

/-- A prefix of the tiers starts with `market`. -/
def Marketed (pfx : Key) : Prop := ["market"] <+: pfx

variable {pfx : Key} (hpfx : Marketed pfx)

include hpfx

theorem legacyKeyToCanonical_flat (h : pfx <+: key) : legacyKeyToCanonical key = key := by
  obtain ⟨rest, rfl⟩ := hpfx.trans h
  rfl

theorem legacyKeyToCanonical_legacy (h : pfx <+: key) :
    legacyKeyToCanonical ("l1" :: key) = key := by
  obtain ⟨rest, rfl⟩ := hpfx.trans h
  rfl

theorem isParquetKey_legacy (h : pfx <+: key) : isParquetKey ("l1" :: key) = isParquetKey key := by
  obtain ⟨rest, rfl⟩ := hpfx.trans h
  rfl

theorem canonical_of_flat :
    ∀ k ∈ sortKeys (listedParquet w pfx), legacyKeyToCanonical k = k := fun _ hk =>
  legacyKeyToCanonical_flat hpfx (mem_listedParquet.mp (mem_sortKeys.mp hk)).2.1

theorem legacy_of_listed {raw : Key} (h : raw ∈ listedParquet w ("l1" :: pfx)) :
    ∃ key, raw = "l1" :: key ∧ raw ∈ w.nas.keys ∧ pfx <+: key ∧ isParquetKey key = true := by
  obtain ⟨hin, ⟨rest, hrest⟩, hparquet⟩ := mem_listedParquet.mp h
  have hkey : pfx <+: pfx ++ rest := List.prefix_append _ _
  refine ⟨pfx ++ rest, hrest.symm, hin, hkey, ?_⟩
  rw [← isParquetKey_legacy hpfx hkey]
  rw [← hrest] at hparquet
  exact hparquet

variable {objects : AList fun _ : Key => Table R} {w : World (Content W R)}
  (hw : Distributes pfx objects w)

include hw

/-- The keys that are read name each canonical key exactly once. -/
theorem Distributes.canonical_perm :
    ((listedL1 w pfx ("l1" :: pfx)).map legacyKeyToCanonical).Perm objects.keys := by
  refine (map_candidateKeys (canonical_of_flat hpfx)).trans ?_
  refine (List.perm_ext_iff_of_nodup (canonicalMap_nodup ?_) objects.keys_nodup).mpr fun key => ?_
  · exact (sortKeys_perm _).nodup_iff.mpr (listedParquet_nodup w pfx)
  rw [canonicalMap_keys, mem_sortKeys, mem_listedParquet, List.mem_map]
  constructor
  · rintro (⟨hin, hpre, hparquet⟩ | ⟨raw, hraw, rfl⟩)
    · exact (hw.flat key hin hpre hparquet).1
    · obtain ⟨key, rfl, hin, hpre, hparquet⟩ := legacy_of_listed hpfx (mem_sortKeys.mp hraw)
      rw [legacyKeyToCanonical_legacy hpfx hpre]
      exact (hw.legacy key hin hpre hparquet).1
  · intro hkey
    obtain ⟨hpre, hparquet⟩ := hw.canonical key hkey
    rcases hw.placed key hkey with hin | hin
    · exact Or.inl ⟨hin, hpre, hparquet⟩
    · refine Or.inr ⟨"l1" :: key, ?_, legacyKeyToCanonical_legacy hpfx hpre⟩
      rw [mem_sortKeys, mem_listedParquet, isParquetKey_legacy hpfx hpre]
      exact ⟨hin, List.prefix_cons_inj _ |>.mpr hpre, hparquet⟩

/-- What is read under a key is the object of its canonical key. -/
theorem Distributes.table {raw : Key} (h : raw ∈ listedL1 w pfx ("l1" :: pfx)) :
    objectTable objects (legacyKeyToCanonical raw) = nasTable w raw := by
  rcases mem_candidateKeys (canonical_of_flat hpfx) h with hraw | hraw
  · obtain ⟨hin, hpre, hparquet⟩ := mem_listedParquet.mp (mem_sortKeys.mp hraw)
    rw [legacyKeyToCanonical_flat hpfx hpre]
    exact (hw.flat raw hin hpre hparquet).2.symm
  · obtain ⟨key, rfl, hin, hpre, hparquet⟩ := legacy_of_listed hpfx (mem_sortKeys.mp hraw)
    rw [legacyKeyToCanonical_legacy hpfx hpre]
    exact (hw.legacy key hin hpre hparquet).2.symm

section

variable [Timed R] (hd : DistinctTs (objectTable objects) objects.keys)

include hd

/-- The copying order, in canonical keys, is that of the objects. -/
theorem Distributes.mergeOrder :
    (mergeOrder (nasTable w) (listedL1 w pfx ("l1" :: pfx))).map legacyKeyToCanonical =
      mergeOrder (objectTable objects) objects.keys := by
  rw [mergeOrder_map fun raw hraw => hw.table hpfx hraw,
    mergeOrder_eq_of_perm (hw.canonical_perm hpfx).symm hd]

theorem Distributes.mergeable_iff :
    Mergeable (nasTable w) (listedL1 w pfx ("l1" :: pfx)) ↔
      Mergeable (objectTable objects) objects.keys := by
  rw [mergeable_map fun raw hraw => hw.table hpfx hraw,
    mergeable_perm (hw.canonical_perm hpfx).symm hd]

theorem Distributes.mergedTable (env : Env R) :
    mergedTable (nasTable w) env (listedL1 w pfx ("l1" :: pfx)) =
      mergedTable (objectTable objects) env objects.keys := by
  rw [mergedTable_map fun raw hraw => hw.table hpfx hraw]
  unfold Compactor.mergedTable
  rw [mergeOrder_eq_of_perm (hw.canonical_perm hpfx).symm hd]

end

theorem Distributes.sourceRows_perm :
    (sourceRows (nasTable w) (listedL1 w pfx ("l1" :: pfx))).Perm
      (sourceRows (objectTable objects) objects.keys) := by
  rw [sourceRows_map fun raw hraw => hw.table hpfx hraw]
  exact (hw.canonical_perm hpfx).flatMap_right _

end

section

variable {W R : Type} [Blob (Content W R)] [Timed R] (env : Env R) (p : Partition)

/-- The run id `_compact_hour_nas` derives, if any of its inputs has a row. -/
def nasRunId (w : World (Content W R)) : Option String :=
  match (mergeOrder (nasTable w) (nasL1 env w p)).map legacyKeyToCanonical with
  | [] => none
  | k :: ks => some (env.runId (sortKeys (k :: ks)))

variable {env p} {w : World (Content W R)}

/-- When `_compact_hour_nas` returns a path, which one, and what the file is. -/
theorem nasHour_result {hourUtc : Nat} {v : String} {path : Path}
    (hv : schemaVersion p.channel = some v)
    (h : (compactHourNas env p hourUtc).result w = .ok (some path)) :
    Mergeable (nasTable w) (nasL1 env w p) ∧
      path = (p.hourOutput env v hourUtc).dir ++ ["part-" ++ env.runId (sortKeys
        ((mergeOrder (nasTable w) (nasL1 env w p)).map legacyKeyToCanonical)) ++ ".parquet"] ∧
      ((compactHourNas env p hourUtc).after w).files.lookup path =
        some (.parquet (mergedTable (nasTable w) env (nasL1 env w p))) := by
  have hpost : CallPost env true p (.hour hourUtc) w ((compactHourNas env p hourUtc).result w)
      ((compactHourNas env p hourUtc).after w) := (Span.hour hourUtc).compact_post env true p w
  rw [h] at hpost
  obtain ⟨v', hv', hpath, hfiles⟩ := hpost.returned
  cases hv.symm.trans hv'
  refine ⟨hpost.written.1, hpath, ?_⟩
  rw [hfiles]
  exact AList.lookup_insert _

/-- A NAS that answers gives a path for inputs that can be merged. -/
theorem nasHour_returns {hourUtc : Nat} (hans : Answering w.replies)
    (hm : Mergeable (nasTable w) (nasL1 env w p)) :
    ∃ path, (compactHourNas env p hourUtc).result w = .ok (some path) :=
  ((Span.hour hourUtc).compact_post env true p w).of_mergeable (fun _ => hans) hm

/-- **Cutover stability.** However the objects of a set of canonical keys with distinct
sort timestamps are distributed over the flat and the legacy prefix: the run id is one,
the inputs that are read are each canonical object once, a NAS that answers gives the
same path or none, and two calls that return a path return the same path with the same
file, which has the rows of each object exactly once. -/
theorem compactHourNas_cutover_stable (env : Env R) (p : Partition) (hourUtc : Nat)
    {v : String} {pfx : Key} (hv : schemaVersion p.channel = some v)
    (hpfx : buildL1Prefix p.channel v p.exchange p.symbol (env.isoformat p.dateUtc) = some pfx)
    (objects : AList fun _ : Key => Table R) (hd : DistinctTs (objectTable objects) objects.keys)
    (w w' : World (Content W R)) (hw : Distributes pfx objects w)
    (hw' : Distributes pfx objects w') :
    nasRunId env p w = nasRunId env p w' ∧
    ((nasL1 env w p).map legacyKeyToCanonical).Perm objects.keys ∧
    (sourceRows (nasTable w) (nasL1 env w p)).Perm (sourceRows (objectTable objects) objects.keys) ∧
    (Answering w.replies → Answering w'.replies → ∀ path,
      (compactHourNas env p hourUtc).result w = .ok (some path) ↔
        (compactHourNas env p hourUtc).result w' = .ok (some path)) ∧
    ∀ path path', (compactHourNas env p hourUtc).result w = .ok (some path) →
      (compactHourNas env p hourUtc).result w' = .ok (some path') →
      path = path' ∧ ∃ t,
        ((compactHourNas env p hourUtc).after w).files.lookup path = some (.parquet t) ∧
        ((compactHourNas env p hourUtc).after w').files.lookup path' = some (.parquet t) ∧
        t.rows.Perm (sourceRows (objectTable objects) objects.keys) := by
  have hlegacy := buildLegacyL1Prefix_eq_some hpfx
  have hmarket : Marketed pfx := by
    unfold buildL1Prefix buildNasPrefix at hpfx
    split at hpfx
    · cases hpfx
    split at hpfx
    · cases hpfx
    · cases hpfx
      exact List.prefix_append ["market"] _
  have hinputs : ∀ w₀ : World (Content W R), nasL1 env w₀ p = listedL1 w₀ pfx ("l1" :: pfx) := by
    intro w₀
    simp [nasL1, hv, hpfx, hlegacy]
  have hpath : ∀ w₀ : World (Content W R), Distributes pfx objects w₀ → ∀ path,
      (compactHourNas env p hourUtc).result w₀ = .ok (some path) →
      Mergeable (objectTable objects) objects.keys ∧
        path = (p.hourOutput env v hourUtc).dir ++ ["part-" ++
          env.runId (sortKeys (mergeOrder (objectTable objects) objects.keys)) ++ ".parquet"] ∧
        ((compactHourNas env p hourUtc).after w₀).files.lookup path =
          some (.parquet (mergedTable (objectTable objects) env objects.keys)) := by
    intro w₀ hw₀ path h
    have hresult := nasHour_result hv h
    rw [hinputs, hw₀.mergeOrder hmarket hd, hw₀.mergeable_iff hmarket hd,
      hw₀.mergedTable hmarket hd env] at hresult
    exact hresult
  have hreturns : ∀ w₀ w₁ : World (Content W R), Distributes pfx objects w₀ →
      Distributes pfx objects w₁ → Answering w₁.replies → ∀ path,
      (compactHourNas env p hourUtc).result w₀ = .ok (some path) →
      (compactHourNas env p hourUtc).result w₁ = .ok (some path) := by
    intro w₀ w₁ hw₀ hw₁ hans path h
    obtain ⟨hm, hname, -⟩ := hpath w₀ hw₀ path h
    have hm₁ : Mergeable (nasTable w₁) (nasL1 env w₁ p) := by
      rw [hinputs]
      exact (hw₁.mergeable_iff hmarket hd).mpr hm
    obtain ⟨path₁, h₁⟩ : ∃ path₁, (compactHourNas env p hourUtc).result w₁ = .ok (some path₁) :=
      nasHour_returns hans hm₁
    rw [h₁, (hpath w₁ hw₁ path₁ h₁).2.1, hname]
  refine ⟨?_, ?_, ?_, fun hans hans' path => ⟨?_, ?_⟩, fun path path' h h' => ?_⟩
  · unfold nasRunId
    rw [hinputs, hinputs, hw.mergeOrder hmarket hd, hw'.mergeOrder hmarket hd]
  · rw [hinputs]
    exact hw.canonical_perm hmarket
  · rw [hinputs]
    exact hw.sourceRows_perm hmarket
  · exact hreturns w w' hw hw' hans' path
  · exact hreturns w' w hw' hw hans path
  · obtain ⟨hm, hname, hfile⟩ := hpath w hw path h
    obtain ⟨-, hname', hfile'⟩ := hpath w' hw' path' h'
    obtain ⟨-, -, last, hdone⟩ := mergeable_iff.mp hm
    refine ⟨hname.trans hname'.symm, _, hfile, hfile', ?_⟩
    rw [mergedTable_rows env hdone]
    exact sourceRows_mergeOrder_perm _ _

def objectKey (file : String) : Key := l1DayDir ++ ["node=n1", file]

def twoObjects : AList fun _ : Key => Table Int :=
  (AList.singleton (objectKey "part-a.parquet") ⟨"tick", [[86400000000]], true⟩).insert
    (objectKey "part-b.parquet") ⟨"tick", [[86400000001]], true⟩

/-- The first object is under its flat key, the second under that or still under its legacy
key. -/
def cutoverWorld (pre : Key) : World (Content Int Int) :=
  { dayWorld [] with
    nas := (AList.singleton (objectKey "part-a.parquet")
        ⟨.parquet ⟨"tick", [[86400000000]], true⟩, none, "etag", none⟩).insert
      (pre ++ objectKey "part-b.parquet")
      ⟨.parquet ⟨"tick", [[86400000001]], true⟩, none, "etag", none⟩ }

theorem distributes_flat : Distributes l1DayDir twoObjects (cutoverWorld []) where
  canonical := by decide
  placed := by decide
  flat := by decide
  legacy := by
    have hflat : ∀ key ∈ (cutoverWorld []).nas.keys, key.head? ≠ some "l1" := by decide
    intro key hkey
    exact absurd rfl (hflat _ hkey)

theorem distributes_legacy : Distributes l1DayDir twoObjects (cutoverWorld ["l1"]) where
  canonical := by decide
  placed := by decide
  flat := by decide
  legacy := by
    have hlegacy : ∀ key ∈ (cutoverWorld ["l1"]).nas.keys, key.head? = some "l1" →
        key.tail ∈ twoObjects.keys ∧
          nasTable (cutoverWorld ["l1"]) key = objectTable twoObjects key.tail := by decide
    intro key hkey _ _
    exact hlegacy _ hkey rfl

/-- Two objects, after and amid their move to the flat prefix. -/
theorem cutover_stable_two_objects :
    nasRunId joinEnv partitionA (cutoverWorld []) =
        nasRunId joinEnv partitionA (cutoverWorld ["l1"]) ∧
      ((nasL1 joinEnv (cutoverWorld []) partitionA).map legacyKeyToCanonical).Perm
        twoObjects.keys ∧
      ∃ path t,
        (compactHourNas joinEnv partitionA 0).result (cutoverWorld []) = .ok (some path) ∧
        (compactHourNas joinEnv partitionA 0).result (cutoverWorld ["l1"]) = .ok (some path) ∧
        ((compactHourNas joinEnv partitionA 0).after (cutoverWorld [])).files.lookup path =
          some (.parquet t) ∧
        ((compactHourNas joinEnv partitionA 0).after (cutoverWorld ["l1"])).files.lookup path =
          some (.parquet t) ∧
        t.rows.Perm [86400000001, 86400000000] := by
  have hdistinct : DistinctTs (objectTable twoObjects) twoObjects.keys := by
    refine List.pairwise_pair.mpr fun ts hts => ?_
    cases hts
    decide
  have hpfx : buildL1Prefix partitionA.channel "tick.v1" partitionA.exchange partitionA.symbol
      (joinEnv.isoformat partitionA.dateUtc) = some l1DayDir := rfl
  obtain ⟨hid, hread, -, hsame, hfiles⟩ := compactHourNas_cutover_stable joinEnv partitionA 0 rfl
    hpfx twoObjects hdistinct (cutoverWorld []) (cutoverWorld ["l1"]) distributes_flat
    distributes_legacy
  have hpath : (compactHourNas joinEnv partitionA 0).result (cutoverWorld []) =
      .ok (some ((partitionA.hourOutput joinEnv "tick.v1" 0).dir ++
        ["part-part-a.parquetpart-b.parquet.parquet"])) := by decide +kernel
  have hpath' := (hsame (Answering.const _ _) (Answering.const _ _) _).mp hpath
  obtain ⟨-, t, ht, ht', hrows⟩ := hfiles _ _ hpath hpath'
  exact ⟨hid, hread, _, t, hpath, hpath', ht, ht', hrows⟩

end

end MctraderData.Compactor
