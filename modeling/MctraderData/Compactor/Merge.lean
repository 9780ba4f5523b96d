import MctraderData.Compactor.Layout
import MctraderData.Lib.OrderedStream

/-!
# mctrader-data — the merge behind L2 and L3

Both compactors (`compactor/l2.py`, `compactor/l3.py`) do the same: list the source
files of a date, order them by their smallest timestamp (`sort_key.py`), and copy them
batch by batch into one file while checking that `ts_utc` never decreases. A decrease
sends what was copied so far to the quarantine directory (`quarantine.py`) and the
merge returns nothing. `mergeSources` is that procedure, over a way to fetch a source.

The temporary file the merge writes and renames is one step here.

## Results

* `mergeSources_post` — what a merge returns and writes, in terms of its sources.
* `mergeable_iff` — when it copies everything.
* `sourceRows_mergeOrder_perm` — copying in timestamp order only permutes the rows.
-/

namespace MctraderData.Compactor

open Lib Eff
open Nas

/-! ## the merge -/

section

variable {W R κ σ : Type} [Timed R]

/-- `_extract_min_ts`: from the row-group statistics, or else the first row; `None`
for a file without rows. -/
def extractMinTs (t : Table R) : Option Int :=
  match t.rows with
  | [] => none
  | r :: rest =>
    if t.hasStats then some (rest.foldl (fun m x => min m (tsUtc x)) (tsUtc r))
    else some (tsUtc r)

/-- `sorted(keyed, key=lambda x: x[1])`, stable. -/
def sortByTs (keyed : List (κ × Int)) : List κ :=
  (keyed.insertionSort fun a b => a.2 ≤ b.2).map Prod.fst

/-- A file's batches, each with the file's schema. -/
def Table.tagged (t : Table R) : List (String × List R) := t.batches.map (Prod.mk t.schema)

/-- Where a merge puts its result, or what it copied before a violation. -/
structure MergeOutput where
  dir : Path
  quarantineDir : Path

variable [Blob (Content W R)] (env : Env R) (fetch : σ → κ → Prog (Content W R) (Table R × σ))

/-- The sort phase: the smallest timestamp of every source with rows. -/
def keyedSources : σ → List κ → Prog (Content W R) (List (κ × Int) × σ)
  | s, [] => pure ([], s)
  | s, k :: ks => do
    let fetched ← fetch s k
    let later ← keyedSources fetched.2 ks
    match extractMinTs fetched.1 with
    | none => pure later
    | some ts => pure ((k, ts) :: later.1, later.2)

/-- The write phase: the batches written, and whether the order was violated. -/
def copySources (schema : String) :
    σ → Option Int → List κ → Prog (Content W R) (List (List R) × Bool)
  | _, _, [] => pure ([], false)
  | s, last, k :: ks => do
    let fetched ← fetch s k
    match stream tsUtc (· = schema) last fetched.1.tagged with
    | (written, .done last') => do
      let later ← copySources schema fetched.2 last' ks
      pure (written ++ later.1, later.2)
    | (written, .unordered) => pure (written, true)
    | (_, .rejected) => throw .arrowInvalid

/-- The parquet file a writer leaves. -/
def writtenTable (schema : String) (written : List (List R)) : Table R :=
  ⟨schema, env.iterBatches written.flatten, true⟩

/-- `part-{tmp.stem}.parquet` in the quarantine directory. -/
def MergeOutput.quarantinePath (out : MergeOutput) : Path :=
  out.quarantineDir ++ ["part-part-tmp-" ++ env.pid ++ ".parquet"]

/-- The rename that ends a merge, or `quarantine_l2` / `quarantine_l3`. -/
def finishMerge (out : MergeOutput) (file schema : String) (copied : List (List R) × Bool) :
    Prog (Content W R) (Option Path) :=
  if copied.2 then do
    mkdir out.quarantineDir
    writeFile (out.quarantinePath env) (.parquet (writtenTable env schema copied.1))
    pure none
  else do
    writeFile (out.dir ++ [file]) (.parquet (writtenTable env schema copied.1))
    pure (some (out.dir ++ [file]))

/-- Sort, open the writer with the first source's schema, copy, finish. -/
def mergeSources (s : σ) (candidates : List κ) (runId : List κ → String) (out : MergeOutput) :
    Prog (Content W R) (Option Path) := do
  let keyed ← keyedSources fetch s candidates
  match sortByTs keyed.1 with
  | [] => pure none
  | k :: ks => do
    let first ← fetch keyed.2 k
    mkdir out.dir
    let copied ← copySources fetch first.1.schema first.2 none (k :: ks)
    finishMerge env out ("part-" ++ runId (k :: ks) ++ ".parquet") first.1.schema copied

end

/-! ## what a merge does, in terms of its sources -/

section

variable {W R κ σ : Type} [Timed R] (content : κ → Option (Table R))

/-- The sources with rows and their smallest timestamps. -/
def keyedBy (candidates : List κ) : List (κ × Int) :=
  candidates.filterMap fun k => ((content k).bind extractMinTs).map (Prod.mk k)

/-- The order in which the sources are copied. -/
def mergeOrder (candidates : List κ) : List κ := sortByTs (keyedBy content candidates)

def taggedOf (k : κ) : List (String × List R) := ((content k).map Table.tagged).getD []

/-- The schema of the first source. -/
def mergeSchema (ks : List κ) : String :=
  ((ks.head?.bind content).map Table.schema).getD ""

/-- The copy of the sources `ks`, one after another. -/
def mergeStream (ks : List κ) : List (List R) × StreamOutcome Int :=
  stream tsUtc (· = mergeSchema content ks) none (ks.flatMap (taggedOf content))

/-- What a merge writes, to its output or to the quarantine. -/
def mergedTable (env : Env R) (candidates : List κ) : Table R :=
  writtenTable env (mergeSchema content (mergeOrder content candidates))
    (mergeStream content (mergeOrder content candidates)).1

/-- Every candidate is a parquet file. -/
def Readable (candidates : List κ) : Prop := ∀ k ∈ candidates, (content k).isSome

/-- What one fetch answers: the source's table, or an exception, which is excluded
for a readable source if `total` holds. -/
def FetchAnswer (K : σ → Prop) (total : Prop) (k : κ) : Except Exn (Table R × σ) → Prop
  | .ok (t, s') => content k = some t ∧ K s'
  | .error _ => total → content k = none

variable [Blob (Content W R)]

/-- `fetch` reads the sources `content` in every world that satisfies `V`, and changes
nothing but the reply stream. `K` is the invariant of its cache. -/
structure Fetches (V : World (Content W R) → Prop) (K : σ → Prop) (total : Prop)
    (fetch : σ → κ → Prog (Content W R) (Table R × σ)) : Prop where
  step : ∀ w s k, V w → K s → wp (fetch s k) (fun r w' =>
    V w' ∧ SameButReplies w w' ∧ FetchAnswer content K total k r) w
  mkdir : ∀ w d, V w → V { w with dirs := d :: w.dirs }

variable {content} {V : World (Content W R) → Prop} {K : σ → Prop} {total : Prop}
  {fetch : σ → κ → Prog (Content W R) (Table R × σ)}

/-- What the sort phase returns. -/
def KeyedAnswer (content : κ → Option (Table R)) (K : σ → Prop) (total : Prop)
    (candidates : List κ) : Except Exn (List (κ × Int) × σ) → Prop
  | .ok (keyed, s') => Readable content candidates ∧ keyed = keyedBy content candidates ∧ K s'
  | .error _ => total → ¬ Readable content candidates

variable {candidates : List κ} {w : World (Content W R)} {s : σ}

theorem keyedSources_post (hF : Fetches content V K total fetch) (hV : V w) (hK : K s) :
    wp (keyedSources fetch s candidates) (fun r w' => V w' ∧ SameButReplies w w' ∧
      KeyedAnswer content K total candidates r) w := by
  induction candidates generalizing w s with
  | nil => exact ⟨hV, .refl w, nofun, rfl, hK⟩
  | cons k ks ih =>
    refine wp_seq (hF.step w s k hV hK) ?_ ?_
    swap
    · rintro e w₁ ⟨hV₁, hsame, hnone⟩
      exact ⟨hV₁, hsame, fun htotal => by simp [Readable, hnone htotal]⟩
    rintro ⟨t, s₁⟩ w₁ ⟨hV₁, hsame, hk, hK₁⟩
    refine wp_seq (ih hV₁ hK₁) ?_ ?_
    swap
    · rintro e w₂ ⟨hV₂, hsame₂, hnone⟩
      exact ⟨hV₂, hsame.trans hsame₂, fun htotal hread =>
        hnone htotal (List.forall_mem_cons.mp hread).2⟩
    rintro ⟨keyed, s₂⟩ w₂ ⟨hV₂, hsame₂, hread, rfl, hK₂⟩
    have hread' : Readable content (k :: ks) :=
      List.forall_mem_cons.mpr ⟨by simp [hk], hread⟩
    cases hts : extractMinTs t <;>
      exact ⟨hV₂, hsame.trans hsame₂, hread', by simp [keyedBy, hk, hts], hK₂⟩

/-- What the write phase returns, against the pure copy `out`. -/
def CopyAnswer (content : κ → Option (Table R)) (total : Prop) (ks : List κ)
    (out : List (List R) × StreamOutcome Int) : Except Exn (List (List R) × Bool) → Prop
  | .ok (written, false) => written = out.1 ∧ ∃ last, out.2 = .done last
  | .ok (written, true) => written = out.1 ∧ out.2 = .unordered
  | .error _ => total → ¬ Readable content ks ∨ out.2 = .rejected

theorem copySources_post (hF : Fetches content V K total fetch) {schema : String} {ks : List κ}
    {last : Option Int} (hV : V w) (hK : K s) :
    wp (copySources fetch schema s last ks) (fun r w' => V w' ∧ SameButReplies w w' ∧
      CopyAnswer content total ks
        (stream tsUtc (· = schema) last (ks.flatMap (taggedOf content))) r) w := by
  induction ks generalizing w s last with
  | nil => exact ⟨hV, .refl w, rfl, last, rfl⟩
  | cons k ks ih =>
    refine wp_seq (hF.step w s k hV hK) ?_ ?_
    swap
    · rintro e w₁ ⟨hV₁, hsame, hnone⟩
      exact ⟨hV₁, hsame, fun htotal => Or.inl (by simp [Readable, hnone htotal])⟩
    rintro ⟨t, s₁⟩ w₁ ⟨hV₁, hsame, hk, hK₁⟩
    have htagged : taggedOf content k = t.tagged := by simp [taggedOf, hk]
    rw [List.flatMap_cons, htagged, stream_append]
    -- the batches of this source decide whether the next one is fetched
    rcases hstream : stream tsUtc (fun v => decide (v = schema)) last t.tagged with ⟨written, out⟩
    cases out with
    | unordered => exact ⟨hV₁, hsame, rfl, rfl⟩
    | rejected => exact ⟨hV₁, hsame, fun _ => Or.inr rfl⟩
    | done last' =>
      refine wp_seq (ih hV₁ hK₁) ?_ ?_
      · rintro ⟨more, violation⟩ w₂ ⟨hV₂, hsame₂, hcopy⟩
        refine ⟨hV₂, hsame.trans hsame₂, ?_⟩
        cases violation <;> exact ⟨by rw [hcopy.1], hcopy.2⟩
      · rintro e w₂ ⟨hV₂, hsame₂, hcopy⟩
        exact ⟨hV₂, hsame.trans hsame₂, fun htotal => (hcopy htotal).imp_left
          fun hunread hread => hunread (List.forall_mem_cons.mp hread).2⟩

/-- What a merge of `candidates` into `out` leaves and returns. -/
inductive MergePost (env : Env R) (content : κ → Option (Table R)) (total : Prop)
    (candidates : List κ) (runId : List κ → String) (out : MergeOutput)
    (w : World (Content W R)) : Except Exn (Option Path) → World (Content W R) → Prop where
  /-- No source has a row. -/
  | empty (w') (hread : Readable content candidates) (hempty : mergeOrder content candidates = [])
      (hfiles : w'.files = w.files) (hdirs : w'.dirs = w.dirs) (hstores : SameStores w w') :
      MergePost env content total candidates runId out w (.ok none) w'
  /-- Everything was copied. -/
  | merged (w' path last) (hread : Readable content candidates)
      (hsome : mergeOrder content candidates ≠ [])
      (hdone : (mergeStream content (mergeOrder content candidates)).2 = .done last)
      (hpath : path = out.dir ++ ["part-" ++ runId (mergeOrder content candidates) ++ ".parquet"])
      (hfiles : w'.files = w.files.insert path (.parquet (mergedTable content env candidates)))
      (hdirs : w'.dirs = out.dir :: w.dirs) (hstores : SameStores w w') :
      MergePost env content total candidates runId out w (.ok (some path)) w'
  /-- A timestamp decreased. -/
  | quarantined (w') (hread : Readable content candidates)
      (hsome : mergeOrder content candidates ≠ [])
      (hviol : (mergeStream content (mergeOrder content candidates)).2 = .unordered)
      (hfiles : w'.files = w.files.insert (out.quarantinePath env)
        (.parquet (mergedTable content env candidates)))
      (hdirs : w'.dirs = out.quarantineDir :: out.dir :: w.dirs) (hstores : SameStores w w') :
      MergePost env content total candidates runId out w (.ok none) w'
  /-- A source could not be read, or has another schema than the first. -/
  | raised (e w') (hwhy : total → ¬ Readable content candidates ∨
        (mergeStream content (mergeOrder content candidates)).2 = .rejected)
      (hfiles : w'.files = w.files) (hstores : SameStores w w') :
      MergePost env content total candidates runId out w (.error e) w'

/-- The files a merge can write: in its output directory, or the quarantine file. -/
def MergeOutput.Target (env : Env R) (out : MergeOutput) (path : Path) : Prop :=
  path.dropLast = out.dir ∨ path = out.quarantinePath env

variable {r : Except Exn (Option Path)} {runId : List κ → String} {env : Env R} {out : MergeOutput}
  {w' : World (Content W R)}

theorem MergePost.frame (h : MergePost env content total candidates runId out w r w') :
    AgreeOff (out.Target env) w.files w'.files ∧ SameStores w w' := by
  cases h with
  | empty _ _ _ hfiles _ hstores => exact ⟨.of_eq hfiles, hstores⟩
  | merged _ path _ _ _ _ hpath hfiles _ hstores =>
    have htarget : out.Target env path := Or.inl (by rw [hpath, List.dropLast_concat])
    exact ⟨hfiles ▸ AgreeOff.insert (S := out.Target env) htarget _ _, hstores⟩
  | quarantined _ _ _ _ hfiles _ hstores =>
    exact ⟨hfiles ▸ AgreeOff.insert (S := out.Target env) (Or.inr rfl) _ _, hstores⟩
  | raised _ _ _ hfiles hstores => exact ⟨.of_eq hfiles, hstores⟩

/-- Requests before the merge do not change what it does, and one that fails for fewer reasons
fails for more. -/
theorem MergePost.weaken {w₁ : World (Content W R)} {total' : Prop}
    (hpost : MergePost env content total candidates runId out w₁ r w') (h : SameButReplies w w₁)
    (htotal : total' → total) : MergePost env content total' candidates runId out w r w' := by
  cases hpost with
  | empty _ hread hempty hfiles hdirs hstores =>
    exact .empty _ hread hempty (hfiles.trans h.files) (hdirs.trans h.dirs) (h.stores.trans hstores)
  | merged _ path last hread hsome hdone hpath hfiles hdirs hstores =>
    exact .merged _ path last hread hsome hdone hpath (h.files ▸ hfiles) (h.dirs ▸ hdirs)
      (h.stores.trans hstores)
  | quarantined _ hread hsome hviol hfiles hdirs hstores =>
    exact .quarantined _ hread hsome hviol (h.files ▸ hfiles) (h.dirs ▸ hdirs)
      (h.stores.trans hstores)
  | raised e _ hwhy hfiles hstores =>
    exact .raised e _ (fun h => hwhy (htotal h)) (hfiles.trans h.files) (h.stores.trans hstores)

theorem mem_mergeOrder_iff {k : κ} : k ∈ mergeOrder content candidates ↔
    k ∈ candidates ∧ ∃ t, content k = some t ∧ ∃ ts, extractMinTs t = some ts := by
  simp only [mergeOrder, sortByTs, keyedBy, List.mem_map, List.mem_insertionSort,
    List.mem_filterMap, Option.map_eq_some_iff, Option.bind_eq_some_iff, Prod.exists,
    Prod.mk.injEq]
  grind

theorem mem_mergeOrder {k : κ} (h : k ∈ mergeOrder content candidates) : k ∈ candidates :=
  (mem_mergeOrder_iff.mp h).1

section

variable {content' : κ → Option (Table R)} {candidates : List κ}
  (heq : ∀ k ∈ candidates, content' k = content k)

include heq

omit [Blob (Content W R)] in
theorem mergeOrder_congr : mergeOrder content' candidates = mergeOrder content candidates := by
  unfold mergeOrder keyedBy
  rw [List.filterMap_congr fun k hk => by rw [heq k hk]]

omit [Blob (Content W R)] in
theorem mergeSchema_congr : mergeSchema content' (mergeOrder content candidates) =
    mergeSchema content (mergeOrder content candidates) := by
  unfold mergeSchema
  cases horder : mergeOrder content candidates with
  | nil => rfl
  | cons k ks =>
    have hk : k ∈ candidates := mem_mergeOrder (horder ▸ List.mem_cons_self)
    simp [heq k hk]

omit [Blob (Content W R)] in
theorem mergeStream_congr : mergeStream content' (mergeOrder content' candidates) =
    mergeStream content (mergeOrder content candidates) := by
  have htagged : (mergeOrder content candidates).flatMap (taggedOf content') =
      (mergeOrder content candidates).flatMap (taggedOf content) := by
    refine List.flatMap_congr fun k hk => ?_
    unfold taggedOf
    rw [heq k (mem_mergeOrder hk)]
  rw [mergeOrder_congr heq, mergeStream, mergeStream, mergeSchema_congr heq, htagged]

/-- A merge depends on the sources only through their contents. -/
theorem MergePost.congr {runId : List κ → String} {w : World (Content W R)}
    {r : Except Exn (Option Path)} (h : MergePost env content' total candidates runId out w r w') :
    MergePost env content total candidates runId out w r w' := by
  have horder := mergeOrder_congr heq
  have hstream := mergeStream_congr heq
  have hread : Readable content' candidates ↔ Readable content candidates :=
    forall₂_congr fun k hk => by rw [heq k hk]
  have htable : mergedTable content' env candidates = mergedTable content env candidates := by
    rw [mergedTable, hstream, horder, mergeSchema_congr heq]
    rfl
  cases h with
  | empty _ hr hempty hfiles hdirs hstores =>
    exact .empty _ (hread.mp hr) (horder ▸ hempty) hfiles hdirs hstores
  | merged _ path last hr hsome hdone hpath hfiles hdirs hstores =>
    exact .merged _ path last (hread.mp hr) (horder ▸ hsome) (hstream ▸ hdone) (horder ▸ hpath)
      (htable ▸ hfiles) hdirs hstores
  | quarantined _ hr hsome hviol hfiles hdirs hstores =>
    exact .quarantined _ (hread.mp hr) (horder ▸ hsome) (hstream ▸ hviol) (htable ▸ hfiles) hdirs
      hstores
  | raised e _ hwhy hfiles hstores =>
    rw [hread, hstream] at hwhy
    exact .raised e _ hwhy hfiles hstores

end

/-- **Spec of a merge.** -/
theorem mergeSources_post (env : Env R) (hF : Fetches content V K total fetch) (hV : V w)
    (hK : K s) (runId : List κ → String) (out : MergeOutput) :
    wp (mergeSources env fetch s candidates runId out)
      (MergePost env content total candidates runId out w) w := by
  refine wp_seq (keyedSources_post hF hV hK) ?_ ?_
  swap
  · rintro e w₁ ⟨-, hsame, hunread⟩
    exact .raised _ _ (fun htotal => Or.inl (hunread htotal)) hsame.files hsame.stores
  rintro ⟨keyed, s₁⟩ w₁ ⟨hV₁, hsame₁, hread, rfl, hK₁⟩
  cases horder : mergeOrder content candidates with
  | nil =>
    have horder' : sortByTs (keyedBy content candidates) = [] := horder
    simp only [horder']
    exact .empty _ hread horder hsame₁.files hsame₁.dirs hsame₁.stores
  | cons k ks =>
    have horder' : sortByTs (keyedBy content candidates) = k :: ks := horder
    simp only [horder']
    have hmem : ∀ k' ∈ k :: ks, k' ∈ candidates := fun _ h => mem_mergeOrder (horder ▸ h)
    refine wp_seq (hF.step w₁ s₁ k hV₁ hK₁) ?_ ?_
    swap
    · rintro e w₂ ⟨-, hsame₂, hnone⟩
      have hw₂ : SameButReplies w w₂ := hsame₁.trans hsame₂
      refine .raised _ _ (fun htotal => Or.inl fun hread => ?_) hw₂.files hw₂.stores
      simpa [hnone htotal] using hread k (hmem k List.mem_cons_self)
    rintro ⟨t, s₂⟩ w₂ ⟨hV₂, hsame₂, hk, hK₂⟩
    have hw₂ : SameButReplies w w₂ := hsame₁.trans hsame₂
    have hschema : t.schema = mergeSchema content (k :: ks) := by simp [mergeSchema, hk]
    let w₃ : World (Content W R) := { w₂ with dirs := out.dir :: w₂.dirs }
    have hstores₃ : ∀ w₄, SameButReplies w₃ w₄ → SameStores w w₄ := fun w₄ h₄ =>
      hw₂.stores.trans ⟨h₄.stores.nas, h₄.stores.retryQueue, h₄.stores.unlinkFaults,
        h₄.stores.replies⟩
    refine wp_bind_ok (show mkdir out.dir w₂ = (.ok (), w₃) from rfl) ?_
    rw [hschema]
    refine wp_seq (copySources_post hF (hF.mkdir w₂ out.dir hV₂) hK₂) ?_ ?_
    swap
    · rintro e w₄ ⟨-, hsame₄, hwhy⟩
      exact .raised _ _ (fun htotal => (hwhy htotal).imp
        (fun hunread hread => hunread fun k' hk' => hread k' (hmem k' hk')) (horder ▸ ·))
        (hsame₄.files.trans hw₂.files) (hstores₃ w₄ hsame₄)
    rintro ⟨written, violation⟩ w₄ ⟨-, hsame₄, hcopy⟩
    have hfiles₄ : w₄.files = w.files := hsame₄.files.trans hw₂.files
    have hdirs₄ : w₄.dirs = out.dir :: w.dirs := by rw [hsame₄.dirs, ← hw₂.dirs]
    have hstores₄ := hstores₃ w₄ hsame₄
    have hne : mergeOrder content candidates ≠ [] := by simp [horder]
    cases violation with
    | true =>
      obtain ⟨hwritten, hviol⟩ := hcopy
      refine .quarantined _ hread hne (horder ▸ hviol) ?_ ?_
        ⟨hstores₄.1, hstores₄.2, hstores₄.3, hstores₄.4⟩
      · rw [mergedTable, horder, ← hfiles₄, hwritten]
        rfl
      · rw [← hdirs₄]
        rfl
    | false =>
      obtain ⟨hwritten, last, hdone⟩ := hcopy
      refine .merged _ _ last hread hne (horder ▸ hdone) ?_ ?_ ?_
        ⟨hstores₄.1, hstores₄.2, hstores₄.3, hstores₄.4⟩
      · rw [horder]
      · rw [mergedTable, horder, ← hfiles₄, hwritten]
        rfl
      · exact hdirs₄

end

/-! ## when everything is copied -/

section

variable {R κ : Type} [Timed R] {content : κ → Option (Table R)} {candidates : List κ}

def rowsOf (content : κ → Option (Table R)) (k : κ) : List R := ((content k).map Table.rows).getD []

/-- All rows of the sources, in listing order. -/
def sourceRows (content : κ → Option (Table R)) (candidates : List κ) : List R :=
  candidates.flatMap (rowsOf content)

/-- The sources can be merged: every one is parquet, there is a row, the sources with
rows have one schema, and in the order of their smallest timestamps their
concatenation does not decrease. -/
structure Mergeable (content : κ → Option (Table R)) (candidates : List κ) : Prop where
  readable : Readable content candidates
  nonempty : sourceRows content candidates ≠ []
  oneSchema : ∀ k ∈ mergeOrder content candidates, ∀ t, content k = some t →
    t.schema = mergeSchema content (mergeOrder content candidates)
  ordered : ((sourceRows content (mergeOrder content candidates)).map tsUtc).IsChain (· ≤ ·)

theorem extractMinTs_eq_none {t : Table R} : extractMinTs t = none ↔ t.rows = [] := by
  unfold extractMinTs
  cases t.rows with
  | nil => simp
  | cons r rest => cases t.hasStats <;> simp

/-- The sources without rows are skipped, and nothing else. -/
theorem flatMap_keyedBy (candidates : List κ) :
    ((keyedBy content candidates).map Prod.fst).flatMap (rowsOf content) =
      sourceRows content candidates := by
  induction candidates with
  | nil => rfl
  | cons k ks ih =>
    unfold sourceRows at ih ⊢
    rw [List.flatMap_cons, ← ih]
    unfold keyedBy
    rw [List.filterMap_cons]
    rcases hk : content k with _ | t
    · simp [rowsOf, hk]
    · rcases hts : extractMinTs t with _ | ts
      · simp [rowsOf, hk, hts, extractMinTs_eq_none.mp hts]
      · simp [hts]

/-- The order of copying only permutes the rows. -/
theorem sourceRows_mergeOrder_perm (content : κ → Option (Table R)) (candidates : List κ) :
    (sourceRows content (mergeOrder content candidates)).Perm (sourceRows content candidates) := by
  rw [← flatMap_keyedBy candidates]
  exact ((List.perm_insertionSort _ _).map Prod.fst).flatMap_right _

theorem mem_mergeOrder_rows {k : κ} (h : k ∈ mergeOrder content candidates) :
    ∃ t, content k = some t ∧ t.rows ≠ [] := by
  obtain ⟨-, t, ht, ts, hts⟩ := mem_mergeOrder_iff.mp h
  refine ⟨t, ht, fun hnil => ?_⟩
  simp [extractMinTs_eq_none.mpr hnil] at hts

omit [Timed R] in
theorem flatten_tagged (ks : List κ) :
    ((ks.flatMap (taggedOf content)).map Prod.snd).flatten = sourceRows content ks := by
  induction ks with
  | nil => rfl
  | cons k ks ih =>
    unfold sourceRows at ih ⊢
    rw [List.flatMap_cons, List.flatMap_cons, List.map_append, List.flatten_append, ih]
    congr 1
    unfold taggedOf rowsOf
    cases content k with
    | none => rfl
    | some t => simp [Table.tagged, Table.rows, Function.comp_def]

/-- Every batch is accepted exactly when the sources have the first one's schema. -/
theorem accepted_iff :
    (∀ p ∈ (mergeOrder content candidates).flatMap (taggedOf content),
        decide (p.1 = mergeSchema content (mergeOrder content candidates)) = true) ↔
      ∀ k ∈ mergeOrder content candidates, ∀ t, content k = some t →
        t.schema = mergeSchema content (mergeOrder content candidates) := by
  constructor
  · intro h k hk t ht
    obtain ⟨t', ht', hrows⟩ := mem_mergeOrder_rows hk
    cases ht.symm.trans ht'
    -- a source with rows has a batch to be accepted
    have hne : t.batches ≠ [] := fun hnil => hrows (by simp [Table.rows, hnil])
    obtain ⟨b, hb⟩ := List.exists_mem_of_ne_nil _ hne
    have hmem : (t.schema, b) ∈ (mergeOrder content candidates).flatMap (taggedOf content) :=
      List.mem_flatMap.mpr ⟨k, hk, by simp [taggedOf, ht, Table.tagged, hb]⟩
    exact of_decide_eq_true (h _ hmem)
  · rintro h ⟨schema, b⟩ hp
    obtain ⟨k, hk, hmem⟩ := List.mem_flatMap.mp hp
    obtain ⟨t, ht, -⟩ := mem_mergeOrder_rows hk
    have hschema : schema = t.schema := by
      simp only [taggedOf, ht, Table.tagged, Option.map_some, Option.getD_some, List.mem_map,
        Prod.mk.injEq] at hmem
      obtain ⟨_, -, rfl, -⟩ := hmem
      rfl
    rw [decide_eq_true_iff, hschema]
    exact h k hk t ht

theorem mergeOrder_eq_nil :
    mergeOrder content candidates = [] ↔ sourceRows content candidates = [] := by
  constructor
  · intro h
    have hperm := sourceRows_mergeOrder_perm content candidates
    rw [h] at hperm
    exact List.nil_perm.mp hperm
  · intro h
    by_contra hne
    obtain ⟨k, hk⟩ := List.exists_mem_of_ne_nil _ hne
    obtain ⟨t, ht, hrows⟩ := mem_mergeOrder_rows hk
    have hperm := sourceRows_mergeOrder_perm content candidates
    rw [h, List.perm_nil, sourceRows, List.flatMap_eq_nil_iff] at hperm
    have := hperm k hk
    simp [rowsOf, ht, hrows] at this

/-- **When a merge copies everything.** -/
theorem mergeable_iff : Mergeable content candidates ↔
    Readable content candidates ∧ mergeOrder content candidates ≠ [] ∧
      ∃ last, (mergeStream content (mergeOrder content candidates)).2 = .done last := by
  rw [mergeStream, stream_done_iff, Ne, mergeOrder_eq_nil]
  constructor
  · intro h
    have hacc := accepted_iff.mpr h.oneSchema
    refine ⟨h.readable, h.nonempty, ?_, hacc⟩
    rw [looked_of_accepted hacc, flatten_tagged]
    exact h.ordered
  · rintro ⟨hread, hne, hord, hacc⟩
    rw [looked_of_accepted hacc, flatten_tagged] at hord
    exact ⟨hread, hne, accepted_iff.mp hacc, hord⟩

/-- A merge that copies everything writes the rows in copying order. -/
theorem mergedTable_rows (env : Env R) {last : Option Int}
    (h : (mergeStream content (mergeOrder content candidates)).2 = .done last) :
    (mergedTable content env candidates).rows =
      sourceRows content (mergeOrder content candidates) := by
  rw [Table.rows, mergedTable, writtenTable, env.iterBatches_flatten, mergeStream, stream_done h,
    flatten_tagged]

end

end MctraderData.Compactor
