import MctraderData.Nas.Promotion

/-!
# mctrader-data — the dual writer

Model of `nas_storage/dual_writer.py`. `write` copies the payload to a temporary
name next to its target, uploads it, and then renames or rolls back according to
the uploader's status; after a committed upload it may delete a source file through
`promote_l1`. `put_l1` uploads a file that is already in place.

The rollback unlinks the temporary name on *any* exception of the copy, the
`SameFileError` of copying a file onto itself included.

## Results

* `write_keeps_payload` — a payload file under any other name survives, whatever
  the NAS answers.
* `dualWrite_keeps_payload_iff` — exactly when the payload survives.
-/

namespace MctraderData.Nas

open Lib Eff
open RetryQueue (PutStatus Item)

variable {C : Type} [Blob C]

/-! ## definitions -/

/-- `DualWriteResult.status` -/
inductive DualStatus where
  | committed
  | localOnly
  | hardFloorBlocked
deriving DecidableEq, Repr

/-- `DualWriteResult`, without the latency. -/
structure DualWriteResult (C : Type) [Blob C] where
  status : DualStatus
  nasPutResult : PutResult C
  localPath : Path
  nasKey : Key
  sha256 : Blob.Digest C

/-- The `data` argument of `write`: a file or bytes. -/
inductive DataArg (C : Type) where
  | file (path : Path)
  | bytes (payload : C)

/-- `local_path.with_suffix(local_path.suffix + ".tmp_dw")` -/
def tmpPath (localPath : Path) : Path :=
  localPath.dropLast ++ [localPath.getLastD "" ++ ".tmp_dw"]

/-- `enqueue_retry` with a path: the queue reads the file, if there is a queue. -/
def enqueueRetryFile (key : Key) (source : Path) (sha256 : Blob.Digest C) : Prog C Unit := do
  match (← get).retryQueue with
  | none => pure ()
  | some _ =>
    let data ← readFile source
    enqueueRetry ⟨key, data, sha256⟩

/-- `_promote_after_nas_put`, with `already_promoted` normalised to `committed` as
both call sites do. -/
def promoteAfterNasPut (source : Path) (key : Key) (sha256 : Blob.Digest C) : Prog C DualStatus :=
  tryCatch (do
    let _ ← promoteL1 source key
    pure .committed) fun
    | .promotionVerifyError _ => do
      enqueueRetryFile key source sha256
      pure .localOnly
    | .fileNotFoundError => pure .committed
    | e => if e.isOSError then pure .committed else throw e

/-- `except Exception: tmp_path.unlink(missing_ok=True); raise` -/
def rollingBack {α : Type} (tmp : Path) (m : Prog C α) : Prog C α :=
  tryCatch m fun e => do
    unlinkMissingOk tmp
    throw e

/-- The two phase-1 paths of `write`: verify, copy to the temporary name, upload. -/
def prepare (localPath : Path) (key : Key) (data : DataArg C) (sha256 : Blob.Digest C) :
    Prog C (PutResult C) := do
  match data with
  | .file path =>
    let c ← readFile path
    if Blob.sha256 c ≠ sha256 then throw .valueError
    else
      rollingBack (tmpPath localPath) (copy2 path (tmpPath localPath))
      rollingBack (tmpPath localPath) (putStreaming path key sha256)
  | .bytes payload =>
    if Blob.sha256 payload ≠ sha256 then throw .valueError
    else
      writeFile (tmpPath localPath) payload
      rollingBack (tmpPath localPath) (put key payload (some sha256) false)

/-- The file phase 2 deletes after a committed upload. -/
def deletionTarget (localPath : Path) (data : DataArg C) (sourceToDelete : Option Path) :
    Option Path :=
  match sourceToDelete, data with
  | some source, _ => some source
  | none, .file path => if path ≠ localPath then some path else none
  | none, .bytes _ => none

/-- Phase 2 of `write`: the switch on the uploader's status. -/
def finish (localPath : Path) (key : Key) (data : DataArg C) (sha256 : Blob.Digest C)
    (sourceToDelete : Option Path) (status : PutStatus) : Prog C DualStatus := do
  match status with
  | .uploaded | .skippedIdempotent | .skippedEtagOverwrite =>
    replace (tmpPath localPath) localPath
    match deletionTarget localPath data sourceToDelete with
    | some source => promoteAfterNasPut source key sha256
    | none => pure .committed
  | .queued =>
    replace (tmpPath localPath) localPath
    pure .localOnly
  | .hardFloorBlocked =>
    unlinkMissingOk (tmpPath localPath)
    pure .hardFloorBlocked

/-- `DualWriter.write` -/
def write (localPath : Path) (key : Key) (data : DataArg C) (sha256 : Blob.Digest C)
    (sourceToDelete : Option Path) : Prog C (DualWriteResult C) := do
  let r ← prepare localPath key data sha256
  let status ← finish localPath key data sha256 sourceToDelete r.status
  pure ⟨status, r, localPath, key, sha256⟩

/-- The switch of `put_l1` on the uploader's status. -/
def finishL1 (path : Path) (key : Key) (sha256 : Blob.Digest C) (status : PutStatus) :
    Prog C DualStatus :=
  match status with
  | .uploaded | .skippedIdempotent | .skippedEtagOverwrite => promoteAfterNasPut path key sha256
  | .queued => pure .localOnly
  | .hardFloorBlocked => pure .hardFloorBlocked

/-- `DualWriter.put_l1` -/
def putL1 (path : Path) : Prog C (DualWriteResult C) := do
  match buildNasKey path (some "L1") with
  | none => throw .valueError
  | some key =>
    let c ← readFile path
    let sha256 := Blob.sha256 c
    let r ← putStreaming path key sha256
    let status ← finishL1 path key sha256 r.status
    pure ⟨status, r, path, key, sha256⟩

/-! ## specifications -/

variable {w : World C} {localPath data : Path} {key : Key} {sha256 : Blob.Digest C} {c : C}

theorem wp_bind_readFile {α : Type} {path : Path} {k : C → Prog C α}
    {Q : Except Exn α → World C → Prop} (hc : w.files.lookup path = some c)
    (hk : wp (k c) Q w) : wp (readFile path >>= k) Q w :=
  (wp_bind _ _).mpr ((wp_readFile hc).mpr hk)

theorem wp_bind_replace {α : Type} {src dst : Path} {k : Unit → Prog C α}
    {Q : Except Exn α → World C → Prop} (hc : w.files.lookup src = some c)
    (hk : wp (k ()) Q { w with files := (w.files.erase src).insert dst c }) :
    wp (replace src dst >>= k) Q w :=
  (wp_bind _ _).mpr (wp_bind_readFile hc hk)

theorem tmpPath_ne (localPath : Path) : tmpPath localPath ≠ localPath := by
  intro h
  rcases List.eq_nil_or_concat localPath with rfl | ⟨init, last, rfl⟩
  · exact List.cons_ne_nil _ _ h
  · simp [tmpPath] at h

/-- Requeueing touches neither the files nor the bucket. -/
theorem enqueueRetryFile_post (w : World C) (source : Path) :
    wp (enqueueRetryFile key source sha256)
      (fun _ w' => w'.nas = w.nas ∧ w'.files = w.files) w := by
  rw [enqueueRetryFile, wp_bind, wp_get]
  simp only []
  cases hq : w.retryQueue with
  | none => exact ⟨rfl, rfl⟩
  | some q =>
    simp only [wp_bind, readFile, wp_get]
    cases w.files.lookup source with
    | none => exact ⟨rfl, rfl⟩
    | some d =>
      simp only [enqueueRetry, enqueue, wp_bind, wp_pure, wp_get, hq, wp_modify,
        and_self]

/-- The deletion after a committed upload leaves the bucket alone and never answers
`hard_floor_blocked`. -/
theorem promoteAfterNasPut_post (w : World C) (source : Path) :
    wp (promoteAfterNasPut source key sha256)
      (fun r w' => w'.nas = w.nas ∧ r ≠ .ok .hardFloorBlocked) w := by
  refine wp_catch (P := fun r w' => w'.nas = w.nas ∧ r ≠ .ok .hardFloorBlocked) ?_
    (fun _ _ h => h) ?_
  · refine wp_seq (promoteL1_post w source key) (fun _ w₁ h => ⟨h.nas, nofun⟩)
      (fun _ w₁ h => ⟨h.nas, nofun⟩)
  · intro e w₁ h
    have hdone : wp (pure .committed : Prog C DualStatus)
        (fun r w' => w'.nas = w.nas ∧ r ≠ .ok .hardFloorBlocked) w₁ := ⟨h.1, nofun⟩
    have hraise : ∀ e, wp (throw e : Prog C DualStatus)
        (fun r w' => w'.nas = w.nas ∧ r ≠ .ok .hardFloorBlocked) w₁ := fun e => ⟨h.1, nofun⟩
    cases e with
    | promotionVerifyError why =>
      exact wp_seq (enqueueRetryFile_post w₁ source)
        (fun _ w₂ h₂ => ⟨h₂.1.trans h.1, nofun⟩) (fun _ w₂ h₂ => ⟨h₂.1.trans h.1, nofun⟩)
    | fileNotFoundError | sameFileError | osError => exact hdone
    | _ => exact hraise _

theorem wp_copy2 {src dst : Path} (hc : w.files.lookup src = some c) (hne : src ≠ dst) :
    wp (copy2 src dst) (fun r w' => r = .ok () ∧
      w' = { w with files := w.files.insert dst c }) w := by
  refine wp_bind_readFile hc ?_
  rw [if_neg hne]
  exact ⟨rfl, rfl⟩

/-- After phase 1 with a payload file that is not the temporary name. -/
structure Prepared (w w' : World C) (localPath data : Path) (key : Key) (c : C)
    (status : PutStatus) : Prop where
  data : w'.files.lookup data = some c
  tmp : w'.files.lookup (tmpPath localPath) = some c
  local_ : w'.files.lookup localPath = w.files.lookup localPath
  committed : status = .uploaded ∨ status = .skippedIdempotent → StoredAt w' key c
  status : status ≠ .skippedEtagOverwrite

section

variable (hT : Truthful w) (hc : w.files.lookup data = some c) (hne : data ≠ tmpPath localPath)
include hT hc hne

/-- Phase 1 on a payload file: what the upload of the temporary copy leaves, with the copy
rolled back if it raised. -/
theorem wp_prepare {Q : Except Exn (PutResult C) → World C → Prop}
    (hok : ∀ res w', PutPost { w with files := w.files.insert (tmpPath localPath) c } w' key c
      (.ok res) → Q (.ok res) w')
    (herror : ∀ e w', PutPost { w with files := w.files.insert (tmpPath localPath) c } w' key c
      (.error e) → Q (.error e) { w' with files := w'.files.erase (tmpPath localPath) }) :
    wp (prepare localPath key (.file data) (Blob.sha256 c)) Q w := by
  let w₁ : World C := { w with files := w.files.insert (tmpPath localPath) c }
  have hdata : w₁.files.lookup data = some c := (AList.lookup_insert_ne hne).trans hc
  refine wp_bind_readFile hc ?_
  simp only [ne_eq, not_true_eq_false, if_false]
  refine wp_seq (P := fun r w' => r = .ok () ∧ w' = w₁)
    (wp_catch (wp_copy2 hc hne) (fun _ _ h => h) (fun e _ h => by cases h.1)) ?_
    (fun e _ h => by cases h.1)
  rintro - w' ⟨-, hw'⟩
  rw [hw']
  exact wp_catch (putStreaming_post (w := w₁) hT hdata) hok herror

theorem prepare_post :
    wp (prepare localPath key (.file data) (Blob.sha256 c))
      (fun r w' => match r with
        | .ok res => Prepared w w' localPath data key c res.status
        | .error _ => w'.files.lookup data = some c) w := by
  let w₁ : World C := { w with files := w.files.insert (tmpPath localPath) c }
  have hdata : w₁.files.lookup data = some c := (AList.lookup_insert_ne hne).trans hc
  refine wp_prepare hT hc hne ?_ ?_
  · intro res w₂ h
    have hfiles := h.frame.files
    exact {
      data := hfiles ▸ hdata
      tmp := hfiles ▸ AList.lookup_insert _
      local_ := hfiles ▸ AList.lookup_insert_ne (tmpPath_ne localPath).symm
      committed := h.committed res rfl
      status := h.statuses res rfl }
  · intro e w₂ h
    show (w₂.files.erase (tmpPath localPath)).lookup data = some c
    rw [AList.lookup_erase_ne hne, h.frame.files]
    exact hdata

end

/-- The payload bytes are held by the source, by `local_path` or on NAS. -/
def PayloadHeld (w : World C) (data localPath : Path) (key : Key) (c : C) : Prop :=
  w.files.lookup data = some c ∨ w.files.lookup localPath = some c ∨ HoldsNas w key c

/-- An answer `hard_floor_blocked` leaves the source and `local_path` unchanged. -/
def BlockedUnchanged (w w' : World C) (data localPath : Path)
    (r : Except Exn DualStatus) : Prop :=
  r = .ok .hardFloorBlocked → w'.files.lookup data = w.files.lookup data ∧
    w'.files.lookup localPath = w.files.lookup localPath

theorem finish_post {w₁ : World C} {status : PutStatus} (sourceToDelete : Option Path)
    (hc : w.files.lookup data = some c) (hne : data ≠ tmpPath localPath)
    (h : Prepared w w₁ localPath data key c status) :
    wp (finish localPath key (.file data) sha256 sourceToDelete status)
      (fun r w' => PayloadHeld w' data localPath key c ∧
        BlockedUnchanged w w' data localPath r) w₁ := by
  let w₂ : World C := { w₁ with
    files := (w₁.files.erase (tmpPath localPath)).insert localPath c }
  -- a committed status: the object is there, and no later step touches the bucket
  have hcommitted : StoredAt w₁ key c →
      wp (match deletionTarget localPath (.file data : DataArg C) sourceToDelete with
        | some source => promoteAfterNasPut source key sha256
        | none => pure .committed) (fun r w' => PayloadHeld w' data localPath key c ∧
          BlockedUnchanged w w' data localPath r) w₂ := by
    intro hstored
    have hnas : ∀ w' : World C, w'.nas = w₂.nas → PayloadHeld w' data localPath key c :=
      fun w' hw' => Or.inr (Or.inr (StoredAt.holds (hstored.of_nas hw')))
    cases deletionTarget localPath (.file data : DataArg C) sourceToDelete with
    | none => exact ⟨hnas _ rfl, nofun⟩
    | some source =>
      exact wp_mono (promoteAfterNasPut_post w₂ source) fun r w' h' =>
        ⟨hnas w' h'.1, fun hr => absurd hr h'.2⟩
  cases status with
  | uploaded => exact wp_bind_replace h.tmp (hcommitted (h.committed (Or.inl rfl)))
  | skippedIdempotent => exact wp_bind_replace h.tmp (hcommitted (h.committed (Or.inr rfl)))
  | skippedEtagOverwrite => exact absurd rfl h.status
  | queued => exact wp_bind_replace h.tmp ⟨Or.inr (Or.inl (AList.lookup_insert _)), nofun⟩
  | hardFloorBlocked =>
    have hdata : (w₁.files.erase (tmpPath localPath)).lookup data = some c :=
      (AList.lookup_erase_ne hne).trans h.data
    exact ⟨Or.inl hdata, fun _ => ⟨hdata.trans hc.symm,
      (AList.lookup_erase_ne (tmpPath_ne localPath).symm).trans h.local_⟩⟩

/-! ## main results -/

/-- The no-loss property of one call: however it ended, the payload is held, and
an answer `hard_floor_blocked` changed neither the source nor `local_path`. -/
structure KeepsPayload (w : World C) (data localPath : Path) (key : Key) (c : C)
    (m : Prog C (DualWriteResult C)) : Prop where
  held : PayloadHeld (m.after w) data localPath key c
  blocked : ∀ res, m.result w = .ok res → res.status = .hardFloorBlocked →
    (m.after w).files.lookup data = w.files.lookup data ∧
      (m.after w).files.lookup localPath = w.files.lookup localPath

/-- A wp proof of the no-loss property. -/
theorem keepsPayload_of_wp {m : Prog C (DualWriteResult C)}
    (h : wp m (fun r w' => PayloadHeld w' data localPath key c ∧
      BlockedUnchanged w w' data localPath (r.map DualWriteResult.status)) w) :
    KeepsPayload w data localPath key c m := by
  refine ⟨h.1, fun res hres hst => h.2 ?_⟩
  rw [show (m w).1 = .ok res from hres, Except.map, hst]

/-- **`write` keeps a payload file that is not its own temporary name**, whatever
the NAS answers and whichever file is to be deleted. -/
theorem write_keeps_payload (hT : Truthful w) (hc : w.files.lookup data = some c)
    (hne : data ≠ tmpPath localPath) (sourceToDelete : Option Path) :
    KeepsPayload w data localPath key c
      (write localPath key (.file data) (Blob.sha256 c) sourceToDelete) := by
  refine keepsPayload_of_wp (wp_seq (prepare_post hT hc hne) ?_ ?_)
  · intro res w₁ h
    refine wp_seq (finish_post sourceToDelete hc hne h) (fun _ _ h₂ => h₂) (fun _ _ h₂ => ?_)
    exact ⟨h₂.1, nofun⟩
  · exact fun e w₁ h => ⟨Or.inl h, nofun⟩

/-- A wrong hash is refused before anything is touched. -/
theorem write_wrong_sha256 (hc : w.files.lookup data = some c) (hsha : sha256 ≠ Blob.sha256 c)
    (sourceToDelete : Option Path) :
    KeepsPayload w data localPath key c
      (write localPath key (.file data) sha256 sourceToDelete) := by
  have hprep : wp (prepare localPath key (.file data) sha256)
      (fun r w' => r = .error .valueError ∧ w' = w) w := by
    refine wp_bind_readFile hc ?_
    rw [if_pos hsha.symm]
    exact ⟨rfl, rfl⟩
  refine keepsPayload_of_wp (wp_seq hprep (fun _ _ h => by cases h.1) ?_)
  rintro e w₁ ⟨-, hw₁⟩
  exact ⟨Or.inl (hw₁ ▸ hc), nofun⟩

/-- Copying the payload onto itself raises, and the rollback unlinks the payload. -/
theorem write_of_tmpPath (key : Key) (hc : w.files.lookup (tmpPath localPath) = some c)
    (sourceToDelete : Option Path) :
    wp (write localPath key (.file (tmpPath localPath)) (Blob.sha256 c) sourceToDelete)
      (fun r w' => r = .error .sameFileError ∧
        w' = { w with files := w.files.erase (tmpPath localPath) }) w := by
  simp [write, prepare, rollingBack, copy2, wp_bind, wp_tryCatch, wp_readFile hc,
    unlinkMissingOk]

theorem putL1_keeps_payload {path : Path} (hT : Truthful w) (hc : w.files.lookup path = some c) :
    KeepsPayload w path path path c (putL1 path) := by
  refine keepsPayload_of_wp ?_
  unfold putL1
  cases hkey : buildNasKey path (some "L1") with
  | none => exact ⟨Or.inl hc, nofun⟩
  | some key =>
    obtain ⟨-, rfl⟩ := buildNasKey_eq_some hkey
    refine wp_bind_readFile hc ?_
    refine wp_seq (putStreaming_post hT hc) (fun res w₁ h => ?_) (fun e w₁ h => ?_)
    · have hfile : w₁.files.lookup key = some c := h.frame.files ▸ hc
      have hcommitted : StoredAt w₁ key c → wp (promoteAfterNasPut key key (Blob.sha256 c))
          (fun r w' => PayloadHeld w' key key key c ∧ BlockedUnchanged w w' key key r) w₁ := by
        intro hst
        refine wp_mono (promoteAfterNasPut_post w₁ key) fun r w' h' => ?_
        exact ⟨Or.inr (Or.inr (StoredAt.holds (hst.of_nas h'.1))), fun hr => absurd hr h'.2⟩
      have hstat := h.statuses res rfl
      have hcom := h.committed res rfl
      refine wp_seq (P := fun r w' => PayloadHeld w' key key key c ∧
        BlockedUnchanged w w' key key r) ?_ (fun _ _ h₂ => h₂) (fun _ _ h₂ => ⟨h₂.1, nofun⟩)
      cases hres : res.status with
      | uploaded => exact hcommitted (hcom (Or.inl hres))
      | skippedIdempotent => exact hcommitted (hcom (Or.inr hres))
      | skippedEtagOverwrite => exact absurd hres hstat
      | queued => exact ⟨Or.inl hfile, nofun⟩
      | hardFloorBlocked =>
        exact ⟨Or.inl hfile, fun _ => ⟨hfile.trans hc.symm, hfile.trans hc.symm⟩⟩
    · exact ⟨Or.inl (h.frame.files ▸ hc), nofun⟩

/-- **When a dual write keeps its payload.** `write` of a payload file keeps it
exactly when the file is not the temporary name `<local_path>.tmp_dw`, or the given
hash is not the file's, or the payload is at `local_path` or on NAS anyway;
`put_l1` always keeps it. -/
theorem dualWrite_keeps_payload_iff (w : World C) (hT : Truthful w) :
    (∀ (localPath data : Path) (key : Key) (sha256 : Blob.Digest C) (sourceToDelete : Option Path)
      (c : C), w.files.lookup data = some c →
      (KeepsPayload w data localPath key c
          (write localPath key (.file data) sha256 sourceToDelete) ↔
        data ≠ tmpPath localPath ∨ sha256 ≠ Blob.sha256 c ∨
          w.files.lookup localPath = some c ∨ HoldsNas w key c)) ∧
    (∀ (path : Path) (c : C), w.files.lookup path = some c →
      KeepsPayload w path path path c (putL1 path)) := by
  refine ⟨fun localPath data key sha256 sourceToDelete c hc => ?_,
    fun path c hc => putL1_keeps_payload hT hc⟩
  by_cases hsha : sha256 = Blob.sha256 c
  swap
  · exact iff_of_true (write_wrong_sha256 hc hsha sourceToDelete) (Or.inr (Or.inl hsha))
  subst hsha
  by_cases hne : data = tmpPath localPath
  swap
  · exact iff_of_true (write_keeps_payload hT hc hne sourceToDelete) (Or.inl hne)
  subst hne
  have hrun := write_of_tmpPath key hc sourceToDelete
  have hafter : (write localPath key (.file (tmpPath localPath)) (Blob.sha256 c)
      sourceToDelete).after w = { w with files := w.files.erase (tmpPath localPath) } := hrun.2
  have hlocal : ((w.files.erase (tmpPath localPath)).lookup localPath) =
      w.files.lookup localPath := AList.lookup_erase_ne (tmpPath_ne localPath).symm
  have hraised : (write localPath key (.file (tmpPath localPath)) (Blob.sha256 c)
      sourceToDelete).result w = .error .sameFileError := hrun.1
  constructor
  · rintro ⟨hheld, -⟩
    rw [hafter] at hheld
    simpa [PayloadHeld, HoldsNas, hlocal] using hheld
  · intro hcond
    refine ⟨?_, by simp [hraised]⟩
    rw [hafter]
    simpa [PayloadHeld, HoldsNas, hlocal] using hcond

/-- A payload file `source`, an empty bucket, and one reply for every request. -/
def payloadWorld (source : Path) (reply : Reply) : World String where
  files := AList.singleton source "bytes"
  nas := ∅
  retryQueue := some ⟨[], 1⟩
  replies := Stream'.const reply
  dirs := []
  unlinkFaults := Stream'.const false

theorem payloadWorld_truthful (source : Path) (reply : Reply) :
    Truthful (payloadWorld source reply) := by
  intro key o s ho
  cases ho

/-- A committed write deletes its source and keeps the payload. -/
theorem dualWrite_keeps_committed_payload :
    ((write ["p"] ["k"] (.file ["src"]) "bytes" none).after
        (payloadWorld ["src"] (.ok "e" none))).files.lookup ["src"] = none ∧
      KeepsPayload (payloadWorld ["src"] (.ok "e" none)) ["src"] ["p"] ["k"] "bytes"
        (write ["p"] ["k"] (.file ["src"]) "bytes" none) := by
  refine ⟨by decide, ?_⟩
  exact ((dualWrite_keeps_payload_iff _ (payloadWorld_truthful ["src"] (.ok "e" none))).1
    ["p"] ["src"] ["k"] "bytes" none "bytes" rfl).mpr (Or.inl (by decide))

/-- A payload given under the temporary name of its own target is deleted by the
rollback: it is in no file and in no object afterwards. -/
theorem dualWrite_loses_payload_at_tmpPath :
    Truthful (payloadWorld ["p.tmp_dw"] (.ok "e" none)) ∧
      (payloadWorld ["p.tmp_dw"] (.ok "e" none)).files.lookup ["p.tmp_dw"] = some "bytes" ∧
      ¬ PayloadHeld ((write ["p"] ["k"] (.file ["p.tmp_dw"]) "bytes" none).after
        (payloadWorld ["p.tmp_dw"] (.ok "e" none))) ["p.tmp_dw"] ["p"] ["k"] "bytes" := by
  refine ⟨payloadWorld_truthful _ _, rfl, ?_⟩
  rintro (hd | hl | ⟨o, ho, -⟩)
  · exact absurd hd (by decide)
  · exact absurd hl (by decide)
  · have hnas : ((write ["p"] ["k"] (.file ["p.tmp_dw"]) "bytes" none).after
        (payloadWorld ["p.tmp_dw"] (.ok "e" none))).nas.lookup ["k"] = none := rfl
    cases ho

end MctraderData.Nas
