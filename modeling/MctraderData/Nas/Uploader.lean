import MctraderData.Nas.Definitions

/-!
# mctrader-data — the NAS uploader

Model of `nas_storage/nas_uploader.py`: `put` (bytes) and `put_streaming` (a file),
both HEAD before they write. They differ in where their handlers stand: `put` wraps
the HEAD and the PUT in one handler, `put_streaming` handles the HEAD on its own,
and that handler knows `ClientError` only.

Metrics and latencies are left out.

## Results

* `putStreaming_post` — whatever happens, `put_streaming` touches no file and writes
  at most the object at its key, with the file's bytes and their hash; a committed
  status means the bytes are at the key.
* `putStreaming_kept_iff` — when the bytes end up stored or queued.
-/

namespace MctraderData.Nas

open Lib Eff
open RetryQueue (Item Backlog PutStatus EnqueueStatus)

variable {C : Type} [Blob C]

/-! ## definitions -/

/-- The text `object_etag` carries: an ETag, or the sha256 an upload was skipped for. -/
inductive ObjectEtag (D : Type) where
  | etag (text : String)
  | sha256 (digest : D)

/-- `PutResult`, without the latency. -/
structure PutResult (C : Type) [Blob C] where
  status : PutStatus
  objectEtag : ObjectEtag (Blob.Digest C) := .etag ""

/-- `_classify_4xx` on `_FAIL_FAST_CODE_TO_REASON` -/
def classify4xx (code : String) : Option String :=
  match code with
  | "401" => some "auth_failed"
  | "InvalidAccessKeyId" => some "auth_failed"
  | "SignatureDoesNotMatch" => some "auth_failed"
  | "403" => some "policy_denied"
  | "AccessDenied" => some "policy_denied"
  | "NoSuchBucket" => some "bucket_missing"
  | "QuotaExceeded" => some "quota_exceeded"
  | "StorageClassNotSupported" => some "quota_exceeded"
  | _ => none

/-- The four values `head_object` reports. -/
structure Head (C : Type) [Blob C] where
  etag : String
  versionId : Option String
  sha256 : Option (Blob.Digest C)
  contentLength : Nat

/-- What HEAD reports of an object. -/
def Obj.head (o : Obj C) : Head C := ⟨o.etag, o.versionId, o.sha256, Blob.size o.body⟩

/-- `NASUploader.head_object` -/
def headObject (key : Key) : Prog C (Head C) := do
  let o ← clientHeadObject key
  pure ⟨o.etag, o.versionId, o.sha256, Blob.size o.body⟩

/-- `self._retry_queue.enqueue(...)` where a queue is configured. -/
def enqueue (item : Item C) : Prog C (Option EnqueueStatus) := do
  match (← get).retryQueue with
  | none => pure none
  | some q =>
    modify fun w => { w with retryQueue := some (q.enqueue item).2 }
    pure (some (q.enqueue item).1)

/-- The answer after a failed transfer: without a queue it is `queued` as well. -/
def queuedResult (item : Item C) : Prog C (PutResult C) := do
  match ← enqueue item with
  | some .hardFloorBlocked => pure { status := .hardFloorBlocked }
  | _ => pure { status := .queued }

/-- `enqueue_retry`: the answer of the queue is dropped. -/
def enqueueRetry (item : Item C) : Prog C Unit := do
  let _ ← enqueue item

/-- What a successful HEAD decides: skip, conflict, or go on to write. -/
def headDecision (key : Key) (sha256 : Blob.Digest C) (o : Obj C) : Prog C (Option (PutResult C)) :=
  match o.sha256 with
  | none => pure none
  | some s =>
    if s = sha256 then pure (some ⟨.skippedIdempotent, .sha256 s⟩)
    else throw (.conditionalWriteConflict key)

/-- `_put_with_idempotency` -/
def putWithIdempotency (key : Key) (data : C) (sha256 : Blob.Digest C) : Prog C (PutResult C) := do
  let skip ← tryCatch (do headDecision key sha256 (← clientHeadObject key)) fun
    | .clientError "404" => pure none
    | e => throw e
  match skip with
  | some r => pure r
  | none =>
    let etag ← clientPutObject key data sha256
    pure ⟨.uploaded, .etag etag⟩

/-- `NASUploader.put`, on bytes. -/
def put (key : Key) (data : C) (sha256 : Option (Blob.Digest C)) (suppressEnqueue : Bool) :
    Prog C (PutResult C) :=
  let sha := sha256.getD (Blob.sha256 data)
  tryCatch (putWithIdempotency key data sha) fun
    | .endpointConnectionError =>
      if suppressEnqueue then throw .endpointConnectionError
      else queuedResult ⟨key, data, sha⟩
    | .clientError code =>
      match classify4xx code with
      | some reason => throw (.nasOperationalAlert code reason key)
      | none =>
        if suppressEnqueue then pure { status := .queued }
        else queuedResult ⟨key, data, sha⟩
    | e => throw e

/-- The HEAD of `put_streaming` with its own handler. -/
def streamingHead (key : Key) (sha256 : Blob.Digest C) : Prog C (Option (PutResult C)) :=
  tryCatch (do headDecision key sha256 (← clientHeadObject key)) fun
    | .clientError code =>
      if code = "404" then pure none
      else match classify4xx code with
        | some reason => throw (.nasOperationalAlert code reason key)
        | none => throw (.clientError code)
    | e => throw e

/-- The upload of `put_streaming` with its handlers. -/
def streamingUpload (path : Path) (key : Key) (sha256 : Blob.Digest C) : Prog C (PutResult C) :=
  tryCatch (do
    let c ← readFile path
    let _ ← clientPutObject key c sha256
    pure { status := .uploaded }) fun
    | .endpointConnectionError => do
      let data ← readFile path
      queuedResult ⟨key, data, sha256⟩
    | .clientError code =>
      match classify4xx code with
      | some reason => throw (.nasOperationalAlert code reason key)
      | none => do
        let data ← readFile path
        queuedResult ⟨key, data, sha256⟩
    | e => throw e

/-- `NASUploader.put_streaming` -/
def putStreaming (path : Path) (key : Key) (sha256 : Blob.Digest C) : Prog C (PutResult C) := do
  match ← streamingHead key sha256 with
  | some r => pure r
  | none => streamingUpload path key sha256

/-! ## one rule per function -/

variable {w : World C} {key : Key} {path : Path} {sha256 : Blob.Digest C} {c : C}

/-- The world after an `enqueue` below the floor. -/
def World.queueItem (w : World C) (q : Backlog C) (item : Item C) : World C :=
  { w with retryQueue := some { q with items := q.items ++ [item] } }

variable {Q : Except Exn (PutResult C) → World C → Prop}

theorem wp_queuedResult {item : Item C} :
    wp (queuedResult item) Q w ↔
      match w.retryQueue with
      | none => Q (.ok { status := .queued }) w
      | some q =>
        if q.hardFloor ≤ q.items.length then Q (.ok { status := .hardFloorBlocked }) w
        else Q (.ok { status := .queued }) (w.queueItem q item) := by
  simp only [queuedResult, enqueue, wp_bind, wp_get]
  cases hq : w.retryQueue with
  | none => rfl
  | some q =>
    simp only [wp_bind, wp_modify, wp_pure, Backlog.enqueue]
    by_cases hfloor : q.hardFloor ≤ q.items.length
    · have hw : ({ w with retryQueue := some q } : World C) = w := by rw [← hq]
      simp only [if_pos hfloor, hw, wp_pure]
    · simp only [if_neg hfloor, wp_pure]
      rfl

/-- How the HEAD before an upload ends: go on, skip, or raise. -/
def headOutcome (w : World C) (key : Key) (sha256 : Blob.Digest C) :
    Except Exn (Option (PutResult C)) :=
  match w.headAnswer key with
  | .error e => .error e
  | .ok o =>
    match o.sha256 with
    | none => .ok none
    | some s =>
      if s = sha256 then .ok (some ⟨.skippedIdempotent, .sha256 s⟩)
      else .error (.conditionalWriteConflict key)

theorem wp_headDecision {Q : Except Exn (Option (PutResult C)) → World C → Prop} :
    wp (do headDecision key sha256 (← clientHeadObject key)) Q w ↔
      Q (headOutcome w key sha256) w.next := by
  rw [wp_bind, wp_clientHeadObject, headOutcome]
  cases w.headAnswer key with
  | error e => rfl
  | ok o =>
    simp only [headDecision]
    cases o.sha256 with
    | none => rfl
    | some s =>
      dsimp only
      split <;> rfl

/-- An upload is skipped for an object with its hash. -/
theorem headOutcome_eq_some {r : PutResult C} (h : headOutcome w key sha256 = .ok (some r)) :
    r = ⟨.skippedIdempotent, .sha256 sha256⟩ ∧
      ∃ o, w.nas.lookup key = some o ∧ o.sha256 = some sha256 := by
  unfold headOutcome at h
  cases ho : w.headAnswer key with
  | error e =>
    rw [ho] at h
    cases h
  | ok o =>
    cases hs : o.sha256 with
    | none => simp only [ho, hs, Except.ok.injEq, reduceCtorEq] at h
    | some s =>
      simp only [ho, hs] at h
      split at h
      · rename_i heq
        cases h
        exact ⟨by rw [heq], o, World.lookup_of_headAnswer ho, heq ▸ hs⟩
      · cases h

theorem wp_streamingHead {Q : Except Exn (Option (PutResult C)) → World C → Prop} :
    wp (streamingHead key sha256) Q w ↔
      match headOutcome w key sha256 with
      | .error (.clientError code) =>
        if code = "404" then Q (.ok none) w.next
        else match classify4xx code with
          | some reason => Q (.error (.nasOperationalAlert code reason key)) w.next
          | none => Q (.error (.clientError code)) w.next
      | r => Q r w.next := by
  rw [streamingHead, wp_tryCatch, wp_headDecision]
  cases headOutcome w key sha256 with
  | ok skip => rfl
  | error e =>
    cases e with
    | clientError code =>
      by_cases h404 : code = "404"
      · simp only [if_pos h404, wp_pure]
      · simp only [if_neg h404]
        cases classify4xx code <;> rfl
    | _ => rfl

/-- The HEAD of `put_streaming` lets the upload go on: nothing is at the key, or
an object without sha256 metadata. -/
def HeadPasses (w : World C) (key : Key) : Prop :=
  match w.replies.head with
  | .ok _ _ => ∀ o, w.nas.lookup key = some o → o.sha256 = none
  | .clientError code => code = "404"
  | _ => False

theorem headPasses_iff (sha256 : Blob.Digest C) :
    HeadPasses w key ↔ headOutcome w key sha256 = .ok none ∨
      headOutcome w key sha256 = .error (.clientError "404") := by
  unfold HeadPasses headOutcome World.headAnswer
  cases w.replies.head with
  | ok etag versionId =>
    cases w.nas.lookup key with
    | none => simp [Reply.failure]
    | some o =>
      cases hs : o.sha256 with
      | none => simp [Reply.failure, hs]
      | some s =>
        simp only [Reply.failure, hs]
        split <;> simp [hs]
  | _ => simp [Reply.failure]

/-- What holds of `put_streaming` however the HEAD ends: the upload goes on, or the object
is there already, or it raises. -/
theorem putStreaming_cases
    (hgo : HeadPasses w key → wp (streamingUpload path key sha256) Q w.next)
    (hskip : ∀ o, w.nas.lookup key = some o → o.sha256 = some sha256 →
      Q (.ok ⟨.skippedIdempotent, .sha256 sha256⟩) w.next)
    (hstop : ¬ HeadPasses w key → ∀ e, Q (.error e) w.next) :
    wp (putStreaming path key sha256) Q w := by
  rw [headPasses_iff sha256] at hgo hstop
  rw [putStreaming, wp_bind, wp_streamingHead]
  cases hhead : headOutcome w key sha256 with
  | ok skip =>
    cases skip with
    | none => exact hgo (Or.inl hhead)
    | some r =>
      obtain ⟨rfl, o, ho, hs⟩ := headOutcome_eq_some hhead
      exact hskip o ho hs
  | error e =>
    rw [hhead] at hgo hstop
    cases e with
    | clientError code =>
      by_cases h404 : code = "404"
      · simp only [if_pos h404]
        exact hgo (Or.inr (by rw [h404]))
      · simp only [if_neg h404]
        have hraise := hstop (by simp [h404])
        cases classify4xx code <;> exact hraise _
    | _ => exact hstop (by simp) _

theorem wp_streamingUpload (hc : w.files.lookup path = some c) :
    wp (streamingUpload path key sha256) Q w ↔
      match w.replies.head with
      | .ok etag versionId => Q (.ok { status := .uploaded })
          { w.next with nas := w.nas.insert key ⟨c, some sha256, etag, versionId⟩ }
      | .unreachable landed => wp (queuedResult ⟨key, c, sha256⟩) Q
          (if landed then { w.next with nas := w.nas.insert key ⟨c, some sha256, "", none⟩ }
            else w.next)
      | .clientError code =>
        match classify4xx code with
        | some reason => Q (.error (.nasOperationalAlert code reason key)) w.next
        | none => wp (queuedResult ⟨key, c, sha256⟩) Q w.next
      | .other => Q (.error .botoCoreError) w.next := by
  simp only [streamingUpload, wp_tryCatch, wp_bind, wp_readFile hc, wp_clientPutObject]
  cases w.replies.head with
  | ok etag versionId => rfl
  | unreachable landed => exact wp_readFile (by cases landed <;> exact hc)
  | clientError code =>
    simp only []
    cases classify4xx code with
    | some reason => rfl
    | none =>
      rw [wp_bind]
      exact wp_readFile (w := w.next) hc
  | other => rfl

/-! ## what put_streaming can do -/

/-- The object at `key` carries the bytes `c` and their hash. -/
def StoredAt (w : World C) (key : Key) (c : C) : Prop :=
  ∃ o, w.nas.lookup key = some o ∧ o.body = c ∧ o.sha256 = some (Blob.sha256 c)

theorem StoredAt.holds (h : StoredAt w key c) : HoldsNas w key c := by
  obtain ⟨o, ho, hbody, -⟩ := h
  exact ⟨o, ho, hbody⟩

variable {w' : World C}

theorem StoredAt.of_nas (h : StoredAt w key c) (hnas : w'.nas = w.nas) :
    StoredAt w' key c := by
  unfold StoredAt
  rw [hnas]
  exact h

/-- The changes an upload attempt of `c` under `key` can make. -/
structure PutFrame (w w' : World C) (key : Key) (c : C) : Prop where
  files : w'.files = w.files
  dirs : w'.dirs = w.dirs
  faults : w'.unlinkFaults = w.unlinkFaults
  elsewhere : ∀ k, k ≠ key → w'.nas.lookup k = w.nas.lookup k
  atKey : w'.nas.lookup key = w.nas.lookup key ∨ StoredAt w' key c
  queue : w'.retryQueue = w.retryQueue ∨ ∃ q, w.retryQueue = some q ∧
    w'.retryQueue = some { q with items := q.items ++ [⟨key, c, Blob.sha256 c⟩] }

theorem PutFrame.next (w : World C) (key : Key) (c : C) : PutFrame w w.next key c :=
  ⟨rfl, rfl, rfl, fun _ _ => rfl, Or.inl rfl, Or.inl rfl⟩

theorem storedAt_insert (w : World C) (key : Key) (c : C) (etag : String)
    (versionId : Option String) :
    StoredAt { w with nas := w.nas.insert key ⟨c, some (Blob.sha256 c), etag, versionId⟩ } key c :=
  ⟨_, AList.lookup_insert _, rfl, rfl⟩

theorem PutFrame.insert (h : PutFrame w w' key c) (etag : String) (versionId : Option String) :
    PutFrame w { w' with nas := w'.nas.insert key ⟨c, some (Blob.sha256 c), etag, versionId⟩ }
      key c where
  files := h.files
  dirs := h.dirs
  faults := h.faults
  elsewhere k hk := by
    rw [← h.elsewhere k hk]
    exact AList.lookup_insert_ne hk
  atKey := Or.inr (storedAt_insert ..)
  queue := h.queue

theorem PutFrame.trans_next (h : PutFrame w w' key c) : PutFrame w w'.next key c :=
  ⟨h.files, h.dirs, h.faults, h.elsewhere, h.atKey, h.queue⟩

theorem PutFrame.holds (h : PutFrame w w' key c) (hold : HoldsNas w key c) :
    HoldsNas w' key c := by
  rcases h.atKey with heq | hst
  · obtain ⟨o, ho, hbody⟩ := hold
    exact ⟨o, heq ▸ ho, hbody⟩
  · exact hst.holds

/-- An upload of `c` keeps the metadata of the bucket true. -/
theorem Truthful.of_upload (hT : Truthful w)
    (helsewhere : ∀ k, k ≠ key → w'.nas.lookup k = w.nas.lookup k)
    (hatKey : w'.nas.lookup key = w.nas.lookup key ∨ StoredAt w' key c) : Truthful w' := by
  intro k o s ho hs
  by_cases hk : k = key
  · subst hk
    rcases hatKey with heq | ⟨o', ho', hbody, hsha⟩
    · exact hT k o s (heq ▸ ho) hs
    · rw [ho] at ho'
      cases ho'
      rw [hs, Option.some.injEq] at hsha
      rw [hsha, hbody]
  · exact hT k o s (helsewhere k hk ▸ ho) hs

theorem PutFrame.truthful (h : PutFrame w w' key c) (hT : Truthful w) :
    Truthful w' :=
  hT.of_upload h.elsewhere h.atKey

/-- What the status of an upload attempt says about the world after it. -/
structure PutPost (w w' : World C) (key : Key) (c : C) (r : Except Exn (PutResult C)) : Prop where
  frame : PutFrame w w' key c
  committed : ∀ res, r = .ok res → res.status = .uploaded ∨ res.status = .skippedIdempotent →
    StoredAt w' key c
  statuses : ∀ res, r = .ok res → res.status ≠ .skippedEtagOverwrite

/-- An attempt that raised promises nothing beyond its frame. -/
theorem PutFrame.raised (h : PutFrame w w' key c) (e : Exn) :
    PutPost w w' key c (.error e) where
  frame := h
  committed _ hres := by cases hres
  statuses _ hres := by cases hres

/-- Over honest metadata, an object with the hash of `c` has the bytes of `c`. -/
theorem Truthful.body_eq (hT : Truthful w) {o : Obj C} (ho : w.nas.lookup key = some o)
    (hs : o.sha256 = some (Blob.sha256 c)) : o.body = c :=
  Blob.sha256_injective (hT key o _ ho hs).symm

theorem PutPost.idempotent (hT : Truthful w) {o : Obj C} (ho : w.nas.lookup key = some o)
    (hs : o.sha256 = some (Blob.sha256 c)) {res : PutResult C}
    (hres : res.status = .skippedIdempotent) : PutPost w w.next key c (.ok res) where
  frame := PutFrame.next w key c
  committed _ _ _ := ⟨o, ho, hT.body_eq ho hs, hs⟩
  statuses res' heq := by
    cases heq
    rw [hres]
    exact nofun

theorem queuedResult_post (h : PutFrame w w' key c) (hq : w'.retryQueue = w.retryQueue) :
    wp (queuedResult ⟨key, c, Blob.sha256 c⟩) (fun r w'' => PutPost w w'' key c r) w' := by
  rw [wp_queuedResult]
  have hsame : ∀ st : PutStatus, st = .queued ∨ st = .hardFloorBlocked →
      PutPost w w' key c (.ok { status := st }) := by
    intro st hst
    refine ⟨h, fun res hres hcom => ?_, fun res hres => ?_⟩ <;> cases hres <;>
      rcases hst with rfl | rfl <;> simp_all
  cases hrq : w'.retryQueue with
  | none => exact hsame _ (Or.inl rfl)
  | some q =>
    by_cases hfloor : q.hardFloor ≤ q.items.length
    · simp only [if_pos hfloor]
      exact hsame _ (Or.inr rfl)
    · simp only [if_neg hfloor]
      have hF : PutFrame w (w'.queueItem q ⟨key, c, Blob.sha256 c⟩) key c :=
        ⟨h.files, h.dirs, h.faults, h.elsewhere, h.atKey, Or.inr ⟨q, hq ▸ hrq, rfl⟩⟩
      refine ⟨hF, fun res hres hcom => ?_, fun res hres => ?_⟩
      · cases hres
        simp at hcom
      · cases hres
        simp

theorem streamingUpload_post (hc : w'.files.lookup path = some c) (h : PutFrame w w' key c)
    (hq : w'.retryQueue = w.retryQueue) :
    wp (streamingUpload path key (Blob.sha256 c)) (fun r w'' => PutPost w w'' key c r) w' := by
  have hraise := h.trans_next.raised
  rw [wp_streamingUpload hc]
  cases w'.replies.head with
  | ok etag versionId =>
    exact ⟨h.trans_next.insert etag versionId, fun _ _ _ => storedAt_insert .., fun res hres => by
      cases hres
      simp⟩
  | unreachable landed =>
    cases landed with
    | true => exact queuedResult_post (h.trans_next.insert "" none) hq
    | false => exact queuedResult_post h.trans_next hq
  | clientError code =>
    simp only []
    cases classify4xx code with
    | some reason => exact hraise _
    | none => exact queuedResult_post h.trans_next hq
  | other => exact hraise _

/-- **Spec of `put_streaming`** on a file with content `c` and its hash. -/
theorem putStreaming_post (hT : Truthful w) (hc : w.files.lookup path = some c) :
    wp (putStreaming path key (Blob.sha256 c)) (fun r w' => PutPost w w' key c r) w := by
  have hF := PutFrame.next w key c
  refine putStreaming_cases (fun _ => ?_) (fun o ho hs => ?_) fun _ e => hF.raised e
  · exact streamingUpload_post hc hF rfl
  · exact .idempotent hT ho hs rfl

/-! ## when an upload attempt leaves the bytes stored or queued -/

/-- The bytes are at their key, or in the retry queue for it. -/
def Kept (w : World C) (key : Key) (c : C) : Prop := HoldsNas w key c ∨ HoldsQueue w key c

/-- The upload is stored, or fails in a way that its handlers queue. -/
def UploadAbsorbed : Reply → Prop
  | .ok _ _ => True
  | .unreachable _ => True
  | .clientError code => classify4xx code = none
  | .other => False

variable {q : Backlog C}

theorem queuedResult_kept (hq : w.retryQueue = some q) (hfloor : q.items.length < q.hardFloor) :
    wp (queuedResult ⟨key, c, sha256⟩) (fun _ w' => Kept w' key c) w := by
  rw [wp_queuedResult, hq]
  simp only [if_neg (Nat.not_le.mpr hfloor)]
  refine Or.inr ⟨_, rfl, ⟨key, c, sha256⟩, ?_, rfl, rfl⟩
  simp

theorem streamingUpload_kept_iff (hc : w.files.lookup path = some c) (hq : w.retryQueue = some q)
    (hfloor : q.items.length < q.hardFloor) :
    wp (streamingUpload path key sha256)
      (fun _ w' => Kept w' key c ↔ Kept w key c ∨ UploadAbsorbed w.replies.head) w := by
  rw [wp_streamingUpload hc]
  cases w.replies.head with
  | ok etag versionId =>
    have hkept : Kept { w.next with
        nas := w.nas.insert key ⟨c, some sha256, etag, versionId⟩ } key c :=
      Or.inl ⟨_, AList.lookup_insert _, rfl⟩
    exact iff_of_true hkept (Or.inr trivial)
  | unreachable landed =>
    refine wp_mono (queuedResult_kept ?_ hfloor) fun _ _ h => iff_of_true h (Or.inr trivial)
    cases landed <;> exact hq
  | clientError code =>
    simp only [UploadAbsorbed]
    cases hcode : classify4xx code with
    | some reason => simp only [reduceCtorEq, or_false]; rfl
    | none =>
      exact wp_mono (queuedResult_kept (w := w.next) hq hfloor) fun _ _ h =>
        iff_of_true h (Or.inr rfl)
  | other => simp only [UploadAbsorbed, or_false]; rfl

/-- **When `put_streaming` keeps the bytes**, with a queue below its floor: they
were kept already, or the HEAD let the upload go on and the upload was absorbed.
An unreachable or failing HEAD is not absorbed. -/
theorem putStreaming_kept_iff (hT : Truthful w) (hc : w.files.lookup path = some c)
    (hq : w.retryQueue = some q) (hfloor : q.items.length < q.hardFloor) :
    wp (putStreaming path key (Blob.sha256 c))
      (fun _ w' => Kept w' key c ↔
        Kept w key c ∨ (HeadPasses w key ∧ UploadAbsorbed w.replies.tail.head)) w := by
  have hup : wp (streamingUpload path key (Blob.sha256 c))
      (fun _ w' => Kept w' key c ↔ Kept w.next key c ∨ UploadAbsorbed w.next.replies.head)
      w.next := streamingUpload_kept_iff hc hq hfloor
  refine putStreaming_cases (fun hpass => ?_) (fun o ho hs => ?_) fun hno e => ?_
  · refine wp_mono hup fun _ w' h => ?_
    rw [h, and_iff_right hpass]
    rfl
  · have hbody : o.body = c := hT.body_eq ho hs
    exact iff_of_true (Or.inl ⟨o, ho, hbody⟩) (Or.inl (Or.inl ⟨o, ho, hbody⟩))
  · simp only [hno, false_and, or_false]
    rfl

end MctraderData.Nas
