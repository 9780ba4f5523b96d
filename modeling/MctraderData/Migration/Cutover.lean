import MctraderData.Migration.HarnessVerdict

/-!
# mctrader-data — the cutover verifier

Model of `nas_migration/cutover_verifier.py`. `verify_rpo_zero` lists the local segments
that are older than a second before the cutover, looks for their names among the objects
under the L2 prefix, and asks the harness about every partition that has a segment.

Two things weaken the verdict. The diff compares base names, so that an object of that
name anywhere under the prefix will do. A partition on which the harness raises is
skipped, and if all are skipped there is no result, which counts as `all_pass`.

Times are in nanoseconds. `datetime.fromisoformat` is a parameter; durations and log
lines are left out.

## Results

* `verifyRpoZero_sound_iff` — when `rpo_zero_verified` implies that every old segment is
  stored and every partition with one was passed, on one bucket and on all.
-/

namespace MctraderData.Cutover

open Lib Eff
open Nas
open Compactor (hasSuffix)
open Harness

variable {C : Type} [Blob C]

/-! ## definitions -/

/-- `RpoVerifyResult.status` -/
inductive RpoStatus where
  | rpoZeroVerified
  | driftDetected
  | verifyInconclusive
deriving DecidableEq, Repr

/-- `verify_error` -/
inductive VerifyError where
  | none
  | timestampParseFailed
  | nasUnreachable (e : Exn)
deriving DecidableEq, Repr

/-- What the harness did for one partition directory. -/
structure Answer where
  partitionDir : Path
  outcome : Except Exn InvariantResult

structure RpoVerifyResult where
  status : RpoStatus
  cutoverTimestampIso : String
  cutoverMinus1sSegmentCount : Nat := 0
  cutoverPlus1sNasObjectCount : Nat := 0
  diffSegments : List String := []
  invariantResult : Option InvariantResult := none
  verifyError : VerifyError := .none
  /-- Not in the source: what the harness answered, partition by partition. -/
  answers : List Answer := []

structure CutoverVerifier (C : Type) where
  invariantHarness : InvariantHarness C
  localL2Root : Path
  nasL2Prefix : Key
  /-- `datetime.fromisoformat`: the wall clock and the UTC offset, if there is one. -/
  fromIsoformat : List Char → Option (Int × Option Int)

/-- `timestamp.replace("Z", "+00:00")` -/
def replaceZ (text : String) : List Char :=
  text.toList.flatMap fun c => if c = 'Z' then "+00:00".toList else [c]

namespace CutoverVerifier

variable (v : CutoverVerifier C)

/-- The cutover instant; a time without offset is UTC. -/
def cutoverTimestamp (cutoverTimestampIso : String) : Option Int :=
  (v.fromIsoformat (replaceZ cutoverTimestampIso)).map fun t => t.1 - t.2.getD 0

/-- `_list_local_segments`; `mtime` is `none` where `stat` raises. -/
def listLocalSegments (w : World C) (mtime : Path → Option Int) (mtimeMax : Int) : List Path :=
  sortKeys (w.files.keys.filter fun path =>
    v.localL2Root.isPrefixOf path && decide (path ≠ v.localL2Root) &&
      hasSuffix ".parquet" (basename path) &&
      match mtime path with
      | some t => decide (t ≤ mtimeMax)
      | none => false)

/-- `_compute_nas_partition_for`; the root itself is `.` relative to itself. -/
def computeNasPartitionFor (localPartitionDir : Path) : Key :=
  if v.localL2Root.isPrefixOf localPartitionDir then
    match localPartitionDir.drop v.localL2Root.length with
    | [] => v.nasL2Prefix ++ ["."]
    | c :: rest => v.nasL2Prefix ++ c :: rest
  else v.nasL2Prefix

/-- The key a segment has on the NAS. -/
def keyOf (segment : Path) : Key :=
  v.computeNasPartitionFor segment.dropLast ++ [basename segment]

/-- The harness on every directory; a raise is logged and skipped. -/
def askHarness : List Path → Prog C (List Answer)
  | [] => pure []
  | dir :: rest => do
    let outcome ← outcome
      (v.invariantHarness.verify dir (v.computeNasPartitionFor dir) none none)
    let answers ← askHarness rest
    pure (⟨dir, outcome⟩ :: answers)

/-- `first_fail` and `last_pass` after the loop. -/
def tally (firstFail lastPass : Option InvariantResult) : List Answer →
    Option InvariantResult × Option InvariantResult
  | [] => (firstFail, lastPass)
  | ⟨_, .error _⟩ :: rest => tally firstFail lastPass rest
  | ⟨_, .ok r⟩ :: rest =>
    if r.status ≠ .allPass ∧ firstFail.isNone then tally (some r) lastPass rest
    else tally firstFail (some r) rest

/-- What `_verify_invariants_for_l2` returns. -/
def aggregate (answers : List Answer) : Option InvariantResult :=
  match tally none none answers with
  | (some firstFail, _) => some firstFail
  | (none, lastPass) => lastPass

/-- The partition directories of the segments, sorted. -/
def partitionDirs (localSegments : List Path) : List Path :=
  sortKeys (localSegments.map List.dropLast).dedup

/-- The names of `local` that `nas` does not have. -/
def diffSegments (localSegments : List Path) (nasObjects : List Key) : List String :=
  ((localSegments.map basename).dedup.filter fun name =>
    decide (name ∉ nasObjects.map basename)).insertionSort fun a b => a.toList ≤ b.toList

/-- `verify_rpo_zero` -/
def verifyRpoZero (mtime : Path → Option Int) (cutoverTimestampIso : String) :
    Prog C RpoVerifyResult :=
  match v.cutoverTimestamp cutoverTimestampIso with
  | none => pure {
      status := .verifyInconclusive, cutoverTimestampIso := cutoverTimestampIso
      verifyError := .timestampParseFailed }
  | some cutover => do
    let w ← get
    let localMinus1s := v.listLocalSegments w mtime (cutover - 1000000000)
    let localPlus1s := v.listLocalSegments w mtime (cutover + 1000000000)
    match ← outcome (clientListText (keyText v.nasL2Prefix)) with
    | .error e => pure {
        status := .verifyInconclusive, cutoverTimestampIso := cutoverTimestampIso
        verifyError := .nasUnreachable e }
    | .ok nasObjects =>
      let diff := diffSegments localMinus1s nasObjects
      let answers ← v.askHarness (partitionDirs localPlus1s)
      let invariantResult := aggregate answers
      let invariantStatus := (invariantResult.map InvariantResult.status).getD .allPass
      pure {
        status :=
          if invariantStatus = .allPass ∧ diff = [] then .rpoZeroVerified else .driftDetected
        cutoverTimestampIso := cutoverTimestampIso
        cutoverMinus1sSegmentCount := localMinus1s.length
        cutoverPlus1sNasObjectCount := nasObjects.length
        diffSegments := diff
        invariantResult := invariantResult
        answers := answers }

end CutoverVerifier

open CutoverVerifier

/-! ## what the verdict should mean -/

/-- Every segment that is old enough is stored under its own key with its bytes, and its
partition was passed by the harness. -/
structure RpoZero (v : CutoverVerifier C) (w : World C) (mtime : Path → Option Int)
    (cutover : Int) (answers : List Answer) : Prop where
  stored : ∀ segment ∈ v.listLocalSegments w mtime (cutover - 1000000000),
    ∃ o, w.nas.lookup (v.keyOf segment) = some o ∧ w.files.lookup segment = some o.body
  passed : ∀ segment ∈ v.listLocalSegments w mtime (cutover - 1000000000),
    ∃ r, ⟨segment.dropLast, .ok r⟩ ∈ answers ∧ r.status = .allPass

section

variable {v : CutoverVerifier C} {w : World C} {mtime : Path → Option Int}

theorem mem_listLocalSegments {mtimeMax : Int} {path : Path}
    (h : path ∈ v.listLocalSegments w mtime mtimeMax) : path ∈ w.files := by
  rw [listLocalSegments, mem_sortKeys, List.mem_filter] at h
  exact AList.mem_keys.mpr h.1

/-- The diff is about names only. -/
theorem diffSegments_eq_nil {localSegments : List Path} {nasObjects : List Key} :
    diffSegments localSegments nasObjects = [] ↔
      ∀ s ∈ localSegments, ∃ key ∈ nasObjects, basename key = basename s := by
  simp only [List.eq_nil_iff_forall_not_mem, diffSegments, List.mem_insertionSort,
    List.mem_filter, List.mem_dedup, List.mem_map, decide_eq_true_eq]
  constructor
  · intro hnone s hs
    by_contra hmissing
    exact hnone (basename s) ⟨⟨s, hs, rfl⟩, hmissing⟩
  · rintro hall name ⟨⟨s, hs, rfl⟩, hmissing⟩
    exact hmissing (hall s hs)

/-! ## the harness raises everywhere -/

/-- While the connection is down, every partition is skipped. -/
theorem askHarness_down (dirs : List Path) (hdown : w.replies = Stream'.const .other) :
    wp (v.askHarness dirs) (fun r _ => ∃ answers, r = .ok answers ∧
      ∀ a ∈ answers, ∃ e, a.outcome = .error e) w := by
  induction dirs generalizing w with
  | nil => exact ⟨[], rfl, by simp⟩
  | cons dir rest ih =>
    have hverify : (v.invariantHarness.verify dir (v.computeNasPartitionFor dir) none none) w =
        (.error .botoCoreError, w.next) := by
      refine verify_down ?_
      rw [hdown]
      rfl
    have hnext : w.next.replies = Stream'.const .other := by
      show w.replies.tail = _
      rw [hdown]
      rfl
    have hask : outcome (v.invariantHarness.verify dir (v.computeNasPartitionFor dir) none none)
        w = (.ok (.error .botoCoreError), w.next) := by
      unfold outcome
      rw [hverify]
    refine wp_bind_ok hask (wp_seq (ih hnext) ?_ ?_)
    · rintro answers w₂ ⟨answers', hanswers, hall⟩
      cases hanswers
      refine ⟨_, rfl, ?_⟩
      intro a ha
      rcases List.mem_cons.mp ha with rfl | ha
      · exact ⟨.botoCoreError, rfl⟩
      · exact hall a ha
    · rintro e w₂ ⟨answers, hanswers, -⟩
      exact nomatch hanswers

theorem tally_skipped {answers : List Answer} (h : ∀ a ∈ answers, ∃ e, a.outcome = .error e)
    (firstFail lastPass : Option InvariantResult) :
    tally firstFail lastPass answers = (firstFail, lastPass) := by
  induction answers with
  | nil => rfl
  | cons a rest ih =>
    obtain ⟨dir, outcome⟩ := a
    obtain ⟨e, he⟩ := h ⟨dir, outcome⟩ List.mem_cons_self
    have he' : outcome = .error e := he
    subst he'
    exact ih fun a ha => h a (List.mem_cons_of_mem _ ha)

/-- If every partition is skipped, there is no result. -/
theorem aggregate_skipped {answers : List Answer}
    (h : ∀ a ∈ answers, ∃ e, a.outcome = .error e) : aggregate answers = none := by
  rw [aggregate, tally_skipped h]

/-! ## per bucket -/

/-- The listing is answered, then the connection breaks. -/
def probeFails : Stream' Reply := Stream'.cons (.ok "" none) (Stream'.const .other)

/-- **Names are verified.** With an object of every name somewhere under the prefix and a
harness that raises on every partition, the verdict is `rpo_zero_verified`. -/
theorem verifyRpoZero_harness_down {iso : String} {cutover : Int}
    (hcutover : v.cutoverTimestamp iso = some cutover)
    (hnames : ∀ s ∈ v.listLocalSegments w mtime (cutover - 1000000000),
      ∃ key ∈ listedText w (keyText v.nasL2Prefix), basename key = basename s) :
    ∃ r, (v.verifyRpoZero mtime iso).result { w with replies := probeFails } = .ok r ∧
      r.status = .rpoZeroVerified ∧ ∀ a ∈ r.answers, ∃ e, a.outcome = .error e := by
  suffices hwp : wp (v.verifyRpoZero mtime iso) (fun r _ => ∃ a, r = .ok a ∧
      a.status = .rpoZeroVerified ∧ ∀ b ∈ a.answers, ∃ e, b.outcome = .error e)
      { w with replies := probeFails } from hwp
  unfold verifyRpoZero
  rw [hcutover]
  refine wp_bind_ok (b := { w with replies := probeFails }) rfl ?_
  refine wp_bind_ok (b := .ok (listedText w (keyText v.nasL2Prefix))) rfl ?_
  refine wp_seq (askHarness_down _ rfl) ?_ fun e _ he => he.elim fun _ h => nomatch h.1
  rintro answers s ⟨answers', hanswers, hskipped⟩
  cases hanswers
  refine ⟨_, rfl, ?_, hskipped⟩
  show (if ((aggregate answers).map InvariantResult.status).getD .allPass = .allPass ∧
    diffSegments (v.listLocalSegments w mtime (cutover - 1000000000))
      (listedText w (keyText v.nasL2Prefix)) = [] then _ else _) = _
  rw [aggregate_skipped hskipped, diffSegments_eq_nil.mpr hnames]
  exact if_pos ⟨rfl, rfl⟩

/-- The verdict is given only where no name is missing. -/
theorem verifyRpoZero_names {iso : String} {cutover : Int}
    (hcutover : v.cutoverTimestamp iso = some cutover) :
    wp (v.verifyRpoZero mtime iso) (fun r _ => ∀ a, r = .ok a → a.status = .rpoZeroVerified →
      ∀ s ∈ v.listLocalSegments w mtime (cutover - 1000000000),
        ∃ key ∈ listedText w (keyText v.nasL2Prefix), basename key = basename s) w := by
  unfold verifyRpoZero
  rw [hcutover]
  refine wp_bind_ok (b := w) rfl ?_
  have hlisting : wp (outcome (clientListText (keyText v.nasL2Prefix))) (fun r _ =>
      ∀ keys, r = .ok (.ok keys) → keys = listedText w (keyText v.nasL2Prefix)) w := by
    show wp (clientListText (keyText v.nasL2Prefix)) (fun r _ =>
      ∀ keys, (.ok r : Except Exn _) = .ok (.ok keys) → keys = _) w
    rw [clientListText, wp_request]
    cases w.replies.head.failure with
    | none => exact fun keys hkeys => (Except.ok.inj (Except.ok.inj hkeys)).symm
    | some e =>
      intro keys hkeys
      cases Except.ok.inj hkeys
  refine wp_seq hlisting ?_ fun e _ _ a ha => by cases ha
  intro answer w₁ hanswer
  cases answer with
  | error e =>
    rintro a ⟨rfl⟩ hstatus
    cases hstatus
  | ok keys =>
    obtain rfl := hanswer keys rfl
    refine wp_seq (P := fun _ _ => True) trivial ?_ fun e _ _ a ha => by cases ha
    rintro answers w₂ - a ⟨rfl⟩ hstatus
    refine diffSegments_eq_nil.mp ?_
    by_contra hdiff
    cases (if_neg fun h => hdiff h.2).symm.trans hstatus

/-- Over the bucket of `w`, `rpo_zero_verified` implies that every segment from before the
cutover is stored and passed, wherever the harness raises. -/
def SoundOn (v : CutoverVerifier C) (w : World C) (mtime : Path → Option Int) (iso : String) :
    Prop :=
  ∀ replies r, (v.verifyRpoZero mtime iso).result { w with replies := replies } = .ok r →
    r.status = .rpoZeroVerified → ∀ cutover, v.cutoverTimestamp iso = some cutover →
      RpoZero v w mtime cutover r.answers

/-- No segment is old enough, or the name of one is not under the prefix, and there is no such
verdict. -/
theorem soundOn_iff (v : CutoverVerifier C) (w : World C) (mtime : Path → Option Int)
    (iso : String) :
    SoundOn v w mtime iso ↔ ∀ cutover, v.cutoverTimestamp iso = some cutover →
      v.listLocalSegments w mtime (cutover - 1000000000) = [] ∨
        ∃ s ∈ v.listLocalSegments w mtime (cutover - 1000000000),
          ∀ key ∈ listedText w (keyText v.nasL2Prefix), basename key ≠ basename s := by
  constructor
  · intro hsound cutover hcutover
    by_contra hcond
    obtain ⟨hne, hnames⟩ := not_or.mp hcond
    push Not at hnames
    obtain ⟨r, hr, hstatus, hraised⟩ := verifyRpoZero_harness_down hcutover hnames
    have hzero := hsound _ r hr hstatus cutover hcutover
    -- a partition on which the harness raised was not passed
    obtain ⟨segment, hsegment⟩ := List.exists_mem_of_ne_nil _ hne
    obtain ⟨result, hmem, -⟩ := hzero.passed segment hsegment
    obtain ⟨e, he⟩ := hraised _ hmem
    cases he
  · intro hcond replies r hr hstatus cutover hcutover
    have hnames := verifyRpoZero_names (w := { w with replies := replies }) hcutover r hr hstatus
    rcases hcond cutover hcutover with hempty | ⟨s, hs, hmissing⟩
    · constructor
      · rw [hempty]
        exact fun segment hsegment => absurd hsegment List.not_mem_nil
      · rw [hempty]
        exact fun segment hsegment => absurd hsegment List.not_mem_nil
    · obtain ⟨key, hkey, hbase⟩ := hnames s hs
      exact absurd hbase (hmissing key hkey)

/-- An object for each of the names, under the prefix. -/
def decoys (v : CutoverVerifier C) (c : C) (names : List String) :
    AList fun _ : Key => Obj C where
  entries := names.dedup.map fun name => ⟨v.nasL2Prefix ++ [name], ⟨c, none, "", none⟩⟩
  nodupKeys := by
    rw [List.NodupKeys, List.keys, List.map_map]
    refine List.Nodup.map ?_ (List.nodup_dedup names)
    intro a b hab
    have hkeys : v.nasL2Prefix ++ [a] = v.nasL2Prefix ++ [b] := hab
    simpa using hkeys

theorem mem_decoys {c : C} {names : List String} {key : Key} :
    key ∈ decoys v c names ↔ ∃ name ∈ names, v.nasL2Prefix ++ [name] = key := by
  rw [AList.mem_keys, AList.keys, List.keys, decoys, List.map_map, List.mem_map]
  simp only [List.mem_dedup]
  rfl

/-- **Soundness of the cutover verdict, exactly.** For a local tree, a cutover time and a
bucket, `rpo_zero_verified` implies that every segment from before the cutover is stored and
passed, wherever the harness raises, if and only if the time does not parse, there is no such
segment, or the name of one is not under the prefix. It does so for every bucket if and only
if the time does not parse or there is no such segment. -/
theorem verifyRpoZero_sound_iff (v : CutoverVerifier C) (w : World C) (mtime : Path → Option Int)
    (iso : String) :
    (SoundOn v w mtime iso ↔ ∀ cutover, v.cutoverTimestamp iso = some cutover →
      v.listLocalSegments w mtime (cutover - 1000000000) = [] ∨
        ∃ s ∈ v.listLocalSegments w mtime (cutover - 1000000000),
          ∀ key ∈ listedText w (keyText v.nasL2Prefix), basename key ≠ basename s) ∧
      ((∀ nas, SoundOn v { w with nas := nas } mtime iso) ↔
        ∀ cutover, v.cutoverTimestamp iso = some cutover →
          v.listLocalSegments w mtime (cutover - 1000000000) = []) := by
  refine ⟨soundOn_iff v w mtime iso, ?_, ?_⟩
  · intro hsound cutover hcutover
    by_contra hne
    obtain ⟨segment, hsegment⟩ := List.exists_mem_of_ne_nil _ hne
    obtain ⟨c, -⟩ := exists_lookup (mem_listLocalSegments hsegment)
    let nas := decoys v c ((v.listLocalSegments w mtime (cutover - 1000000000)).map basename)
    obtain ⟨s, hs, hmissing⟩ := ((soundOn_iff v { w with nas := nas } mtime iso).mp (hsound nas)
      cutover hcutover).resolve_left hne
    refine hmissing (v.nasL2Prefix ++ [basename s]) ?_ (basename_append _ _)
    rw [mem_listedText]
    exact ⟨mem_decoys.mpr ⟨basename s, List.mem_map_of_mem hs, rfl⟩, keyText_prefix_append _ _⟩
  · intro hnone nas
    exact (soundOn_iff v { w with nas := nas } mtime iso).mpr
      fun cutover hcutover => Or.inl (hnone cutover hcutover)

end

/-- A verifier for one tick partition; every text is the fifth second. -/
def tickVerifier : CutoverVerifier String where
  invariantHarness := tickHarness
  localL2Root := ["L2"]
  nasL2Prefix := ["schema_version=tick.v1", "tier=L2"]
  fromIsoformat _ := some (5000000000, none)

/-- A segment of `node=A` on disk, an object of the same name but with other bytes under
`node=B`, and a connection that breaks after the first listing. -/
def misplacedSegment : World String where
  files := .singleton ["L2", "node=A", "a.parquet"] "rows"
  dirs := []
  nas := .singleton ["schema_version=tick.v1", "tier=L2", "node=B", "a.parquet"]
    ⟨"other rows", none, "", none⟩
  retryQueue := none
  replies := probeFails
  unlinkFaults := .const false

/-- The segment is on no NAS, and no harness has passed its partition. -/
theorem verifyRpoZero_accepts_misplaced :
    ((tickVerifier.verifyRpoZero (fun _ => some 0) "2026-01-01T00:00:05Z").result
      misplacedSegment).toOption.map (fun r => (r.status, r.invariantResult.isSome)) =
        some (.rpoZeroVerified, false) ∧
      ∀ answers, ¬ RpoZero tickVerifier misplacedSegment (fun _ => some 0) 5000000000 answers := by
  refine ⟨by decide +kernel, fun answers hzero => ?_⟩
  have hold : ["L2", "node=A", "a.parquet"] ∈ tickVerifier.listLocalSegments misplacedSegment
      (fun _ => some 0) (5000000000 - 1000000000) := by decide +kernel
  obtain ⟨o, ho, -⟩ := hzero.stored _ hold
  obtain ⟨hkey, -⟩ := lookup_singleton_eq_some ho
  exact absurd hkey (by decide)

end MctraderData.Cutover
