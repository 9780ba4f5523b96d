import MctraderData.Compactor.L1

/-!
# mctrader-data — replication of L1 files

A marked segment is never compacted again, so its L1 file has to be on NAS or in the
retry queue by the time the marker is written. `put_streaming` queues a failed upload,
but its HEAD stands outside the handler that does: a HEAD that fails raises through
`put_l1` into the compactor's hook, which drops it.

## Results

* `putL1_kept_iff` — when `put_l1` leaves the file on NAS or in the retry queue.
* `compactSegment_replicates_iff` — the same for a segment marked compacted.
-/

namespace MctraderData.Compactor

open Lib Eff
open Nas
open Wal
open RetryQueue (Backlog)

/-! ## put_l1 -/

section

variable {C : Type} [Blob C] {w : World C} {path : Path} {key : Key} {c : C} {q : Backlog C}

/-- The HEAD lets the upload go on, and the upload is stored or queued. -/
def AttemptAbsorbed (w : World C) (key : Key) : Prop :=
  HeadPasses w key ∧ UploadAbsorbed w.replies.tail.head

/-- Whether `c` is kept under `key` after an upload attempt from `w`. -/
def KeptIff (w w' : World C) (key : Key) (c : C) : Prop :=
  Kept w' key c ↔ Kept w key c ∨ AttemptAbsorbed w key

/-- What follows a committed upload keeps the object. -/
theorem finishL1_kept {w₁ : World C} {r : PutResult C} {sha256 : Blob.Digest C}
    (hpost : PutPost w w₁ key c (.ok r)) (hkept : KeptIff w w₁ key c) :
    wp (finishL1 path key sha256 r.status) (fun _ w' => KeptIff w w' key c) w₁ := by
  have hcommitted : StoredAt w₁ key c →
      wp (promoteAfterNasPut path key sha256) (fun _ w' => KeptIff w w' key c) w₁ := by
    intro hst
    have hbefore : Kept w₁ key c := Or.inl hst.holds
    refine wp_mono (promoteAfterNasPut_post w₁ path) fun _ w' h => ?_
    have hafter : Kept w' key c := by
      obtain ⟨o, ho, hbody⟩ := hst.holds
      exact Or.inl ⟨o, by rw [h.1]; exact ho, hbody⟩
    exact iff_of_true hafter (hkept.mp hbefore)
  cases hs : r.status with
  | uploaded => exact hcommitted (hpost.committed r rfl (Or.inl hs))
  | skippedIdempotent => exact hcommitted (hpost.committed r rfl (Or.inr hs))
  | skippedEtagOverwrite => exact absurd hs (hpost.statuses r rfl)
  | queued => exact hkept
  | hardFloorBlocked => exact hkept

/-- **When `put_l1` keeps the file.** With a queue below its floor, the bytes end up
stored or queued exactly when they were before, or the attempt is absorbed. -/
theorem putL1_kept_iff (hT : Truthful w) (hkey : buildNasKey path (some "L1") = some key)
    (hc : w.files.lookup path = some c) (hq : w.retryQueue = some q)
    (hfloor : q.items.length < q.hardFloor) :
    wp (putL1 path) (fun _ w' => KeptIff w w' key c) w := by
  have hput : wp (putStreaming path key (Blob.sha256 c))
      (fun r w' => PutPost w w' key c r ∧ KeptIff w w' key c) w :=
    wp_and (putStreaming_post hT hc) (putStreaming_kept_iff hT hc hq hfloor)
  unfold putL1
  rw [hkey]
  refine (wp_bind _ _).mpr ((wp_readFile hc).mpr ?_)
  refine wp_seq hput ?_ fun _ _ h => h.2
  intro r w₁ h
  exact wp_seq (finishL1_kept h.1 h.2) (fun _ _ h' => h') fun _ _ h' => h'

/-- Same bucket, queue and replies: only local files and directories differ. -/
structure SameRemote (w w' : World C) : Prop where
  nas : w'.nas = w.nas
  retryQueue : w'.retryQueue = w.retryQueue
  replies : w'.replies = w.replies

variable {w' : World C}

theorem SameRemote.kept_iff (h : SameRemote w w') : Kept w' key c ↔ Kept w key c := by
  unfold Kept HoldsNas HoldsQueue
  rw [h.nas, h.retryQueue]

theorem SameRemote.attemptAbsorbed_iff (h : SameRemote w w') :
    AttemptAbsorbed w' key ↔ AttemptAbsorbed w key := by
  unfold AttemptAbsorbed HeadPasses
  rw [h.nas, h.replies]

theorem SameRemote.truthful (h : SameRemote w w') (hT : Truthful w) : Truthful w' := by
  intro k o s ho hs
  rw [h.nas] at ho
  exact hT k o s ho hs

end

/-! ## compact_segment -/

variable {W R : Type} {env : Env R} {codec : Codec W R}
  {sealedPath : Path} {target : L1Target}

section

variable (h : l1Target env sealedPath = .ok target)
include h

/-- The L1 file's own path is its NAS key. -/
theorem buildNasKey_l1Target : buildNasKey target.path (some "L1") = some target.path := by
  obtain ⟨m, ts, v, -, -, hv, rfl⟩ := l1Target_ok h
  unfold L1Target.path
  exact buildNasKey_tierDir hv _

theorem l1Path_head (file : String) : (target.dir ++ [file]).head? = some "market" := by
  obtain ⟨m, ts, v, -, -, -, rfl⟩ := l1Target_ok h
  rfl

/-- No lineage file has the name of an L1 file. -/
theorem lineagePath_ne {other : L1Target} : lineagePath other ≠ target.path := by
  intro hpath
  have hfile : "lineage-" ++ other.runId ++ ".json" = target.file := by
    simpa [lineagePath, L1Target.path] using congrArg (List.getLastD · "") hpath
  obtain ⟨m, ts, v, -, -, -, rfl⟩ := l1Target_ok h
  have hhead := congrArg (fun name : String => name.toList.head?) hfile
  simp at hhead

end

variable [Blob (Content W R)] {w : World (Content W R)} {c : Content W R}

/-- The lineage file and the marker: the marker is there afterwards. -/
theorem finishSegment_post (w : World (Content W R)) (lineage marker : Path)
    (text : Content W R) (path : Path) :
    wp (do writeFile lineage text; touch marker; pure path)
      (fun r w' => r = .ok path ∧ (w'.files.lookup marker).isSome ∧ SameRemote w w') w := by
  simp only [writeFile, touch, wp_bind, wp_modify, wp_get]
  by_cases hm : ((w.files.insert lineage text).lookup marker).isSome
  · simp only [if_pos hm]
    exact ⟨rfl, hm, rfl, rfl, rfl⟩
  · simp only [if_neg hm]
    refine ⟨rfl, ?_, rfl, rfl, rfl⟩
    show (AList.lookup marker (AList.insert marker _ _)).isSome
    rw [AList.lookup_insert]
    rfl

/-- The hook swallows what `put_l1` raises and keeps its effect. -/
theorem putL1Nas_kept {q : Backlog (Content W R)} (hT : Truthful w)
    (htarget : l1Target env sealedPath = .ok target)
    (hc : w.files.lookup target.path = some c) (hq : w.retryQueue = some q)
    (hfloor : q.items.length < q.hardFloor) :
    wp (putL1Nas target.path) (fun r w' => r = .ok () ∧ KeptIff w w' target.path c) w := by
  have hput := putL1_kept_iff hT (buildNasKey_l1Target htarget) hc hq hfloor
  refine wp_catch (P := fun _ w' => KeptIff w w' target.path c) ?_ (fun _ _ h => ⟨rfl, h⟩)
    fun _ _ h => ⟨rfl, h⟩
  exact wp_seq hput (fun _ _ h => h) fun _ _ h => h

variable [Timed R]

/-- Step 5 leaves the content of the L1 file in place and touches nothing remote. -/
theorem ensureL1_post (hc : l1Content env codec w sealedPath target = .ok c) :
    wp (ensureL1 env codec sealedPath target) (fun r w' => r = .ok () ∧
      w'.files.lookup target.path = some c ∧ SameRemote w w') w := by
  unfold l1Content at hc
  simp only [ensureL1, wp_bind, wp_get]
  cases hfile : w.files.lookup target.path with
  | some c' =>
    rw [hfile] at hc
    cases hc
    exact ⟨rfl, hfile, rfl, rfl, rfl⟩
  | none =>
    rw [hfile] at hc
    cases htable : segmentTable env codec w sealedPath target with
    | error e =>
      rw [htable] at hc
      cases hc
    | ok table =>
      rw [htable] at hc
      cases hc
      exact ⟨rfl, AList.lookup_insert _, rfl, rfl, rfl⟩

/-- A run of `compact_segment` that got past step 5: it marks the segment, and keeps
the L1 content exactly as its upload attempt does. -/
theorem compactSegment_post {q : Backlog (Content W R)} (hT : Truthful w)
    (htarget : l1Target env sealedPath = .ok target)
    (hc : l1Content env codec w sealedPath target = .ok c) (hq : w.retryQueue = some q)
    (hfloor : q.items.length < q.hardFloor) :
    wp (compactSegment env codec true sealedPath) (fun r w' => r = .ok target.path ∧
      (w'.files.lookup (compactedPath sealedPath)).isSome ∧ KeptIff w w' target.path c) w := by
  let w₁ : World (Content W R) := { w with dirs := target.dir :: w.dirs }
  have hensure : wp (ensureL1 env codec sealedPath target) _ w₁ := ensureL1_post hc
  unfold compactSegment
  rw [htarget]
  refine wp_seq (P := fun r w' => r = .ok target ∧ w' = w) ⟨rfl, rfl⟩ ?_ nofun
  rintro _ w' ⟨⟨⟩, hw'⟩
  rw [hw']
  refine wp_seq (P := fun r w' => r = .ok () ∧ w' = w₁) ⟨rfl, rfl⟩ ?_ nofun
  rintro - w' ⟨-, hw'⟩
  rw [hw']
  refine wp_seq hensure ?_ fun _ _ h => nomatch h.1
  rintro - w₂ ⟨-, hfile, hremote⟩
  -- `w` and `w₁` have one bucket, one queue and one reply stream
  have hsame : SameRemote w w₂ := ⟨hremote.nas, hremote.retryQueue, hremote.replies⟩
  have hkept := putL1Nas_kept (hsame.truthful hT) htarget hfile (hsame.retryQueue.trans hq) hfloor
  refine wp_seq hkept ?_ fun _ _ h => nomatch h.1
  rintro - w₃ ⟨-, hkept₃⟩
  refine wp_mono (finishSegment_post w₃ _ _ _ _) ?_
  rintro r w₄ ⟨hr, hmarked, hend⟩
  refine ⟨hr, hmarked, ?_⟩
  unfold KeptIff at hkept₃ ⊢
  rw [hend.kept_iff, hkept₃, hsame.kept_iff, hsame.attemptAbsorbed_iff]

/-! ## main result -/

/-- When `compact_segment` has marked the segment, its L1 file is on NAS at its key
or in the retry queue with its bytes. -/
def ReplicatesL1 (env : Env R) (codec : Codec W R) (w : World (Content W R))
    (sealedPath : Path) : Prop :=
  ∀ target c, l1Target env sealedPath = .ok target →
    l1Content env codec w sealedPath target = .ok c →
    (((compactSegment env codec true sealedPath).after w).files.lookup
      (compactedPath sealedPath)).isSome →
    Kept ((compactSegment env codec true sealedPath).after w) target.path c

/-- **When replication of an L1 file is not dropped.** With a retry queue below its
hard floor, the file of a marked segment is on NAS or queued exactly when it was so
before the call, or the HEAD of the upload finds no object with sha256 metadata and
the upload itself succeeds, finds the endpoint unreachable, or fails with a code that
is not an operational 4xx. -/
theorem compactSegment_replicates_iff {q : Backlog (Content W R)} (hT : Truthful w)
    (hq : w.retryQueue = some q) (hfloor : q.items.length < q.hardFloor)
    (sealedPath : Path) :
    ReplicatesL1 env codec w sealedPath ↔
      ∀ target c, l1Target env sealedPath = .ok target →
        l1Content env codec w sealedPath target = .ok c →
        Kept w target.path c ∨
          (HeadPasses w target.path ∧ UploadAbsorbed w.replies.tail.head) := by
  constructor
  · intro h target c htarget hc
    obtain ⟨-, hmarked, hkept⟩ := compactSegment_post hT htarget hc hq hfloor
    exact hkept.mp (h target c htarget hc hmarked)
  · intro h target c htarget hc _
    obtain ⟨-, -, hkept⟩ := compactSegment_post hT htarget hc hq hfloor
    exact hkept.mpr (h target c htarget hc)

/-! ## one segment, two streams of replies -/

/-- Records are rows, in every channel. -/
def plainCodec : Codec Int Int where
  rowsOf _ _ _ _ record := .ok [record]
  arrowSchema channel := channel
  lineage _ := "lineage"

/-- A sealed segment with one record. -/
def segmentA : Path :=
  ["wal", "bithumb", "transaction", "BTC", "2026-01-01",
    "segment-20260101T000000Z-n1.ndjson.sealed"]

/-- Its L1 file. -/
def l1FileA : Path :=
  ["market", "transaction", "schema_version=tick.v1", "tier=L1", "exchange=bithumb", "symbol=BTC",
    "date=2026-01-01", "node=n1", "part-20260101T000000Z-0123456789abcdef.parquet"]

/-- The segment on disk, an empty bucket and an empty retry queue. -/
def segmentWorld (replies : Stream' Reply) : World (Content Int Int) where
  files := AList.singleton segmentA (.ndjson [5])
  dirs := []
  nas := ∅
  retryQueue := some ⟨[], 10⟩
  replies := replies
  unlinkFaults := Stream'.const false

theorem segmentWorld_truthful (replies : Stream' Reply) : Truthful (segmentWorld replies) :=
  fun _ _ _ ho => nomatch ho

/-- A NAS that answers keeps the file. -/
theorem compactSegment_replicates_when_answered :
    ReplicatesL1 tallyEnv plainCodec (segmentWorld (Stream'.const (.ok "etag" none))) segmentA := by
  refine (compactSegment_replicates_iff (segmentWorld_truthful _) rfl (by decide) segmentA).mpr ?_
  intro target c htarget _
  refine Or.inr ⟨fun o ho => ?_, trivial⟩
  cases ho

/-- A HEAD that finds the endpoint unreachable: the segment is marked, the bucket and
the retry queue stay empty, and nothing looks at the segment again. -/
theorem compactSegment_drops_l1_when_head_fails :
    Truthful (segmentWorld (Stream'.cons (.unreachable false) (Stream'.const (.ok "etag" none)))) ∧
      ¬ ReplicatesL1 tallyEnv plainCodec
        (segmentWorld (Stream'.cons (.unreachable false) (Stream'.const (.ok "etag" none))))
        segmentA := by
  refine ⟨segmentWorld_truthful _, fun h => ?_⟩
  have hkept := h ⟨⟨"bithumb", "transaction", "BTC", "2026-01-01", "n1"⟩, "0123456789abcdef",
    l1FileA.dropLast, "part-20260101T000000Z-0123456789abcdef.parquet"⟩ (.parquet ⟨"transaction",
      [[5]], true⟩) rfl rfl rfl
  rcases hkept with ⟨o, ho, -⟩ | ⟨q, hq, item, hitem, -⟩
  · cases ho
  · cases hq
    cases hitem

end MctraderData.Compactor
