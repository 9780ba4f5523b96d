import MctraderData.Nas.DualWriter

/-!
# mctrader-data — the two upload paths side by side

`put` sends bytes, `put_streaming` a file. Both look first and write then, and both are
meant to hand what the NAS does not take to the retry queue. This module compares them
reply by reply, and asks of each caller whether what it reports as queued is queued.

## Results

* `putStreaming_refines_put_iff` — the replies on which the two end alike.
* `queued_means_stored_iff` — the states in which a report `queued` or `local_only` means
  an entry of the retry queue, whatever the NAS answers.
-/

namespace MctraderData.Nas

open Lib Eff
open RetryQueue (Item Backlog PutStatus)

variable {C : Type} [Blob C]

/-! ## put, reply by reply -/

/-- The handlers of `put`. -/
def absorb (item : Item C) (suppressEnqueue : Bool) : Exn → Prog C (PutResult C)
  | .endpointConnectionError =>
    if suppressEnqueue then throw .endpointConnectionError else queuedResult item
  | .clientError code =>
    match classify4xx code with
    | some reason => throw (.nasOperationalAlert code reason item.key)
    | none => if suppressEnqueue then pure { status := .queued } else queuedResult item
  | e => throw e

/-- The PUT of `put`, once the HEAD said to write. -/
def putWriting (item : Item C) (suppressEnqueue : Bool) : Prog C (PutResult C) :=
  tryCatch (do
    let etag ← clientPutObject item.key item.data item.sha256
    pure ⟨.uploaded, .etag etag⟩) (absorb item suppressEnqueue)

/-- The item an upload of `c` hands to the queue. -/
def putItem (key : Key) (c : C) (sha256 : Option (Blob.Digest C)) : Item C :=
  ⟨key, c, sha256.getD (Blob.sha256 c)⟩

section

variable {w : World C} {key : Key} {path : Path} {c : C} {sha256 : Option (Blob.Digest C)}
  {suppressEnqueue : Bool} {item : Item C}

variable {Q : Except Exn (PutResult C) → World C → Prop}

theorem wp_putWriting :
    wp (putWriting item suppressEnqueue) Q w ↔
      match w.replies.head with
      | .ok etag versionId => Q (.ok ⟨.uploaded, .etag etag⟩) { w.next with
          nas := w.nas.insert item.key ⟨item.data, some item.sha256, etag, versionId⟩ }
      | .unreachable landed => wp (absorb item suppressEnqueue .endpointConnectionError) Q
          (if landed then { w.next with
              nas := w.nas.insert item.key ⟨item.data, some item.sha256, "", none⟩ }
            else w.next)
      | .clientError code => wp (absorb item suppressEnqueue (.clientError code)) Q w.next
      | .other => Q (.error .botoCoreError) w.next := by
  simp only [putWriting, wp_tryCatch, wp_bind, wp_clientPutObject]
  cases w.replies.head <;> rfl

theorem wp_put :
    wp (put key c sha256 suppressEnqueue) Q w ↔
      match headOutcome w key (sha256.getD (Blob.sha256 c)) with
      | .ok (some r) => Q (.ok r) w.next
      | .ok none => wp (putWriting (putItem key c sha256) suppressEnqueue) Q w.next
      | .error e =>
        if e = .clientError "404" then
          wp (putWriting (putItem key c sha256) suppressEnqueue) Q w.next
        else wp (absorb (putItem key c sha256) suppressEnqueue e) Q w.next := by
  have hput : put key c sha256 suppressEnqueue =
      tryCatch (putWithIdempotency key c (sha256.getD (Blob.sha256 c)))
        (absorb (putItem key c sha256) suppressEnqueue) := rfl
  rw [hput, wp_tryCatch, putWithIdempotency, wp_bind, wp_tryCatch, wp_headDecision]
  cases headOutcome w key (sha256.getD (Blob.sha256 c)) with
  | ok skip =>
    cases skip with
    | some r => rfl
    | none => exact (wp_tryCatch _ _).symm
  | error e =>
    dsimp only
    split
    · exact (wp_tryCatch _ _).symm
    · rename_i hother
      rw [if_neg hother]
      rfl

theorem wp_putStreaming {sha256 : Blob.Digest C} :
    wp (putStreaming path key sha256) Q w ↔
      match headOutcome w key sha256 with
      | .ok (some r) => Q (.ok r) w.next
      | .ok none => wp (streamingUpload path key sha256) Q w.next
      | .error (.clientError code) =>
        if code = "404" then wp (streamingUpload path key sha256) Q w.next
        else match classify4xx code with
          | some reason => Q (.error (.nasOperationalAlert code reason key)) w.next
          | none => Q (.error (.clientError code)) w.next
      | .error e => Q (.error e) w.next := by
  rw [putStreaming, wp_bind, wp_streamingHead]
  cases headOutcome w key sha256 with
  | ok skip => cases skip <;> rfl
  | error e =>
    cases e with
    | clientError code =>
      by_cases h404 : code = "404"
      · simp only [if_pos h404]
      · cases hclass : classify4xx code <;> simp only [if_neg h404, hclass]
    | _ => rfl

/-- What holds of `put` however the HEAD ends: it writes, skips or runs a handler. -/
theorem put_cases (hwrite : wp (putWriting (putItem key c sha256) suppressEnqueue) Q w.next)
    (hskip : ∀ s, Q (.ok ⟨.skippedIdempotent, .sha256 s⟩) w.next)
    (habsorb : ∀ e, wp (absorb (putItem key c sha256) suppressEnqueue e) Q w.next) :
    wp (put key c sha256 suppressEnqueue) Q w := by
  rw [wp_put]
  cases hhead : headOutcome w key (sha256.getD (Blob.sha256 c)) with
  | ok skip =>
    cases skip with
    | none => exact hwrite
    | some r =>
      rw [(headOutcome_eq_some hhead).1]
      exact hskip _
  | error e =>
    dsimp only
    split
    · exact hwrite
    · exact habsorb e

end

/-! ## streaming against bytes -/

/-- Exceptions of one class. -/
def Exn.SameClass (e e' : Exn) : Prop := e.ctorIdx = e'.ctorIdx

/-- Two uploads end with one status, or with exceptions of one class. -/
def EndAlike : Except Exn (PutResult C) → Except Exn (PutResult C) → Prop
  | .ok a, .ok b => a.status = b.status
  | .error e, .error e' => e.SameClass e'
  | _, _ => False

/-- Two uploads end alike and leave one bucket and one retry queue. -/
structure SameEnd (r : Except Exn (PutResult C)) (w : World C) (r' : Except Exn (PutResult C))
    (w' : World C) : Prop where
  alike : EndAlike r r'
  nas : w.nas = w'.nas
  retryQueue : w.retryQueue = w'.retryQueue

/-- Two ways to upload have the same end. -/
def SameUpload (m m' : Prog C (PutResult C)) (w : World C) : Prop :=
  SameEnd (m.result w) (m.after w) (m'.result w) (m'.after w)

/-- A reply to the HEAD that `put` takes for a reason to queue. -/
def HeadQueues : Reply → Prop
  | .unreachable _ => True
  | .clientError code => code ≠ "404" ∧ classify4xx code = none
  | _ => False

section

variable {w w' : World C} {key : Key} {path : Path} {c : C} {item : Item C}

theorem SameEnd.refl (r : Except Exn (PutResult C)) (w : World C) : SameEnd r w r w :=
  ⟨by cases r <;> exact rfl, rfl, rfl⟩

/-- The two programs, taken apart one after the other. -/
theorem sameUpload_iff_wp {m m' : Prog C (PutResult C)} :
    SameUpload m m' w ↔ wp m (fun r w₁ => wp m' (SameEnd r w₁) w) w :=
  Iff.rfl

/-- Once the HEAD said to write, the two paths are the same. -/
theorem streamingUpload_sameUpload (hc : w.files.lookup path = some c) (sha256 : Blob.Digest C) :
    SameUpload (streamingUpload path key sha256) (putWriting ⟨key, c, sha256⟩ false) w := by
  rw [sameUpload_iff_wp, wp_streamingUpload hc]
  simp only [wp_putWriting, absorb]
  cases w.replies.head with
  | ok etag versionId => exact ⟨rfl, rfl, rfl⟩
  | unreachable landed => exact SameEnd.refl _ _
  | clientError code =>
    simp only []
    cases classify4xx code <;> exact SameEnd.refl _ _
  | other => exact SameEnd.refl _ _

/-- Handing an item to the queue never raises. -/
theorem queuedResult_ok (w : World C) (item : Item C) :
    wp (queuedResult item) (fun r _ => ∃ a, r = .ok a) w := by
  rw [wp_queuedResult]
  cases w.retryQueue with
  | none => exact ⟨_, rfl⟩
  | some q =>
    simp only []
    split <;> exact ⟨_, rfl⟩

/-- The reply, as the HEAD of an upload shows it. -/
theorem headQueues_iff (key : Key) (sha256 : Blob.Digest C) :
    HeadQueues w.replies.head ↔
      match headOutcome w key sha256 with
      | .error .endpointConnectionError => True
      | .error (.clientError code) => code ≠ "404" ∧ classify4xx code = none
      | _ => False := by
  unfold headOutcome World.headAnswer
  cases w.replies.head with
  | ok etag versionId =>
    cases w.nas.lookup key with
    | none => simp [HeadQueues, Reply.failure]
    | some o =>
      cases hs : o.sha256 with
      | none => simp [HeadQueues, Reply.failure, hs]
      | some s =>
        by_cases heq : s = sha256 <;> simp [HeadQueues, Reply.failure, hs, heq]
  | _ => simp [HeadQueues, Reply.failure]

/-- **Streaming refines the upload of bytes**, for every file, key, hash, bucket, queue
and every sequence of replies, exactly if the first reply is none that `put` queues for:
`put_streaming` has no handler around its HEAD for an unreachable endpoint or for a code
outside the fail-fast table, and raises where `put` queues. -/
theorem putStreaming_refines_put_iff (w : World C) (path : Path) (key : Key) (c : C)
    (sha256 : Option (Blob.Digest C)) (hc : w.files.lookup path = some c) :
    SameUpload (putStreaming path key (sha256.getD (Blob.sha256 c))) (put key c sha256 false) w ↔
      ¬ HeadQueues w.replies.head := by
  have hwrite : SameUpload (streamingUpload path key (sha256.getD (Blob.sha256 c)))
      (putWriting (putItem key c sha256) false) w.next :=
    streamingUpload_sameUpload (w := w.next) hc _
  -- queueing returns, so it is not alike to a raise
  have hraises : ∀ e, ¬ wp (queuedResult (putItem key c sha256)) (SameEnd (.error e) w.next)
      w.next := by
    intro e h
    obtain ⟨a, ha⟩ := queuedResult_ok w.next (putItem key c sha256)
    unfold wp at h
    rw [ha] at h
    exact h.alike
  rw [sameUpload_iff_wp, wp_putStreaming, headQueues_iff key
    (sha256.getD (Blob.sha256 c))]
  simp only [wp_put]
  cases headOutcome w key (sha256.getD (Blob.sha256 c)) with
  | ok skip =>
    cases skip with
    | none => exact iff_of_true hwrite id
    | some r => exact iff_of_true (SameEnd.refl _ _) id
  | error e =>
    cases e with
    | endpointConnectionError => exact iff_of_false (hraises _) fun h => h trivial
    | clientError code =>
      by_cases h404 : code = "404"
      · simp only [h404, if_true]
        exact iff_of_true hwrite fun h => h.1 rfl
      simp only [if_neg h404, Exn.clientError.injEq, absorb]
      cases hclass : classify4xx code with
      | some reason => exact iff_of_true (SameEnd.refl _ _) (by simp)
      | none => exact iff_of_false (hraises _) fun h => h ⟨h404, rfl⟩
    | _ => exact iff_of_true (SameEnd.refl _ _) id

end

/-- A file at `["a"]`, an empty bucket and an empty queue, and a NAS that always replies
the same. -/
def oneReplyWorld (reply : Reply) : World String where
  files := AList.singleton ["a"] "x"
  dirs := []
  nas := ∅
  retryQueue := some ⟨[], 1⟩
  replies := Stream'.const reply
  unlinkFaults := Stream'.const false

/-- Both paths upload the file to a NAS that answers. -/
theorem putStreaming_refines_put_answering :
    (oneReplyWorld (.ok "e" none)).files.lookup ["a"] = some "x" ∧
      SameUpload (putStreaming ["a"] ["k"] "x") (put ["k"] "x" none false)
        (oneReplyWorld (.ok "e" none)) :=
  ⟨rfl, (putStreaming_refines_put_iff _ ["a"] ["k"] "x" none rfl).mpr nofun⟩

/-- With the endpoint unreachable `put` queues the bytes and `put_streaming` raises. -/
theorem putStreaming_raises_put_queues :
    (putStreaming ["a"] ["k"] "x").result (oneReplyWorld (.unreachable false)) =
        .error .endpointConnectionError ∧
      (∃ r, (put ["k"] "x" none false).result (oneReplyWorld (.unreachable false)) = .ok r ∧
        r.status = .queued) ∧
      ¬ SameUpload (putStreaming ["a"] ["k"] "x") (put ["k"] "x" none false)
        (oneReplyWorld (.unreachable false)) :=
  ⟨rfl, ⟨_, rfl, rfl⟩, fun h => h.alike⟩

/-! ## what a report says about the queue -/

/-- The retry queue holds an entry with the key, the payload and the hash. -/
def HoldsItem (w : World C) (item : Item C) : Prop :=
  ∃ q, w.retryQueue = some q ∧ item ∈ q.items

/-- Whatever the NAS answers: where the call returns a report of this kind, the item is in
the retry queue. -/
def MeansStored {ρ : Type} (m : Prog C ρ) (reported : ρ → Prop) (item : Item C) (w : World C) :
    Prop :=
  ∀ replies r, m.result { w with replies := replies } = .ok r → reported r →
    HoldsItem (m.after { w with replies := replies }) item

/-- A queue is configured and not at its hard floor. -/
def BelowFloor (w : World C) : Prop :=
  ∃ q, w.retryQueue = some q ∧ q.items.length < q.hardFloor

/-- The bytes of the `data` argument. -/
def DataArg.content (w : World C) : DataArg C → Option C
  | .file path => w.files.lookup path
  | .bytes payload => some payload

/-- `write` gets as far as the upload: the hash is that of the payload, and the payload is
not the file at the temporary name. -/
def Accepted (localPath : Path) (data : DataArg C) (sha256 : Blob.Digest C) (c : C) : Prop :=
  Blob.sha256 c = sha256 ∧ data ≠ .file (tmpPath localPath)

/-- The files once the payload was renamed into place. -/
def renamed (w : World C) (localPath : Path) (c : C) : AList fun _ : Path => C :=
  (w.files.erase (tmpPath localPath)).insert localPath c

/-- What an upload attempt does to the queue, and what it may report then. -/
structure QueueEffect (w : World C) (item : Item C) (r : Except Exn (PutResult C))
    (w' : World C) : Prop where
  files : w'.files = w.files
  queue : (w'.retryQueue = w.retryQueue ∧
      ∀ a, r = .ok a → a.status = .queued → w.retryQueue = none) ∨
    (∃ q, w.retryQueue = some q ∧
      w'.retryQueue = some { q with items := q.items ++ [item] } ∧
      ∃ a, r = .ok a ∧ a.status = .queued)

/-- The upload of phase 1. -/
def uploadData (key : Key) (data : DataArg C) (sha256 : Blob.Digest C) : Prog C (PutResult C) :=
  match data with
  | .file path => putStreaming path key sha256
  | .bytes payload => put key payload (some sha256) false

section

variable {w w' w₁ : World C} {key : Key} {path localPath : Path} {c : C} {item : Item C}
  {sha256 : Blob.Digest C} {data : DataArg C} {r : Except Exn (PutResult C)}

theorem HoldsItem.of_queue (h : HoldsItem w item) (hq : w'.retryQueue = w.retryQueue) :
    HoldsItem w' item := by
  obtain ⟨q, hw, hmem⟩ := h
  exact ⟨q, hq.trans hw, hmem⟩

theorem not_holdsItem_of_none (h : w.retryQueue = none) : ¬ HoldsItem w item := by
  rintro ⟨q, hq, -⟩
  exact absurd (hq.symm.trans h) nofun

theorem meansStored_iff_wp {ρ : Type} {m : Prog C ρ} {reported : ρ → Prop} :
    MeansStored m reported item w ↔ ∀ replies, wp m (fun r w' => ∀ a, r = .ok a →
      reported a → HoldsItem w' item) { w with replies := replies } :=
  Iff.rfl

/-- A call that raises reports nothing. -/
theorem meansStored_of_raise {ρ : Type} {m : Prog C ρ} {reported : ρ → Prop}
    (h : wp m (fun r _ => ∃ e, r = .error e) w) :
    wp m (fun r w' => ∀ a, r = .ok a → reported a → HoldsItem w' item) w := by
  refine wp_mono h fun r w' ⟨e, he⟩ a ha => ?_
  exact absurd (he.symm.trans ha) nofun

theorem QueueEffect.same (hfiles : w'.files = w.files) (hq : w'.retryQueue = w.retryQueue)
    (hr : ∀ a, r = .ok a → a.status ≠ .queued) : QueueEffect w item r w' :=
  ⟨hfiles, Or.inl ⟨hq, fun a ha hs => absurd hs (hr a ha)⟩⟩

theorem QueueEffect.of_start (h : QueueEffect w₁ item r w') (hfiles : w₁.files = w.files)
    (hq : w₁.retryQueue = w.retryQueue) : QueueEffect w item r w' :=
  ⟨h.files.trans hfiles, hq ▸ h.queue⟩

/-- A queue that was there holds what is reported as queued, and what it held before. -/
theorem QueueEffect.holds (h : QueueEffect w item r w') {a : PutResult C} (ha : r = .ok a)
    (hs : a.status = .queued) (hq : w.retryQueue ≠ none) : HoldsItem w' item := by
  rcases h.queue with ⟨-, hnone⟩ | ⟨q, -, hq', -⟩
  · exact absurd (hnone a ha hs) hq
  · exact ⟨_, hq', by simp⟩

/-- Any other status leaves the queue alone. -/
theorem QueueEffect.queue_eq (h : QueueEffect w item r w') {a : PutResult C} (ha : r = .ok a)
    (hs : a.status ≠ .queued) : w'.retryQueue = w.retryQueue := by
  rcases h.queue with ⟨hq, -⟩ | ⟨-, -, -, a', ha', hs'⟩
  · exact hq
  · cases ha.symm.trans ha'
    exact absurd hs' hs

theorem queuedResult_effect (w : World C) (item : Item C) :
    wp (queuedResult item) (QueueEffect w item) w := by
  rw [wp_queuedResult]
  cases hq : w.retryQueue with
  | none => exact ⟨rfl, Or.inl ⟨rfl, fun _ _ _ => hq⟩⟩
  | some q =>
    simp only []
    split
    · exact QueueEffect.same rfl rfl fun a ha => by cases ha; nofun
    · exact ⟨rfl, Or.inr ⟨q, hq, rfl, _, rfl, rfl⟩⟩

theorem queueEffect_error (e : Exn) (hfiles : w'.files = w.files)
    (hq : w'.retryQueue = w.retryQueue) : QueueEffect w item (.error e) w' :=
  .same hfiles hq nofun

/-- A failed upload queues the item or raises. -/
theorem absorb_effect (w : World C) (item : Item C) (e : Exn) :
    wp (absorb item false e) (QueueEffect w item) w := by
  cases e with
  | endpointConnectionError => exact queuedResult_effect w item
  | clientError code =>
    simp only [absorb]
    cases classify4xx code with
    | some reason => exact queueEffect_error _ rfl rfl
    | none => exact queuedResult_effect w item
  | _ => exact queueEffect_error _ rfl rfl

theorem putWriting_effect (w : World C) (item : Item C) :
    wp (putWriting item false) (QueueEffect w item) w := by
  rw [wp_putWriting]
  cases w.replies.head with
  | ok etag versionId => exact .same rfl rfl fun a ha => by cases ha; nofun
  | unreachable landed =>
    -- queued whether or not the bytes have landed
    refine wp_mono (absorb_effect _ item _) fun r w' h => ?_
    cases landed <;> exact h.of_start rfl rfl
  | clientError code => exact wp_mono (absorb_effect _ item _) fun r w' h => h.of_start rfl rfl
  | other => exact queueEffect_error _ rfl rfl

theorem put_effect (w : World C) (key : Key) (c : C) (sha256 : Option (Blob.Digest C)) :
    wp (put key c sha256 false) (QueueEffect w (putItem key c sha256)) w := by
  refine put_cases ?_ ?_ ?_
  · exact wp_mono (putWriting_effect w.next _) fun r w' h => h.of_start rfl rfl
  · exact fun s => .same rfl rfl fun a ha => by cases ha; nofun
  · exact fun e => wp_mono (absorb_effect w.next _ e) fun r w' h => h.of_start rfl rfl

theorem streamingUpload_effect (hc : w.files.lookup path = some c) :
    wp (streamingUpload path key sha256) (QueueEffect w ⟨key, c, sha256⟩) w := by
  rw [wp_streamingUpload hc]
  cases w.replies.head with
  | ok etag versionId => exact .same rfl rfl fun a ha => by cases ha; nofun
  | unreachable landed =>
    refine wp_mono (queuedResult_effect _ _) fun r w' h => ?_
    cases landed <;> exact h.of_start rfl rfl
  | clientError code =>
    simp only []
    cases classify4xx code with
    | some reason => exact queueEffect_error _ rfl rfl
    | none => exact wp_mono (queuedResult_effect _ _) fun r w' h => h.of_start rfl rfl
  | other => exact queueEffect_error _ rfl rfl

theorem putStreaming_effect (hc : w.files.lookup path = some c) :
    wp (putStreaming path key sha256) (QueueEffect w ⟨key, c, sha256⟩) w := by
  refine putStreaming_cases (fun _ => ?_) (fun o ho hs => ?_) fun _ e => queueEffect_error e rfl rfl
  · exact wp_mono (streamingUpload_effect (w := w.next) hc) fun r w' h => h.of_start rfl rfl
  · exact .same rfl rfl fun a ha => by cases ha; nofun

/-- Both ways to upload report of the queue alike. -/
theorem uploadData_effect (hc : data.content w = some c) :
    wp (uploadData key data sha256) (QueueEffect w ⟨key, c, sha256⟩) w := by
  cases data with
  | file path => exact putStreaming_effect hc
  | bytes payload =>
    cases hc
    exact put_effect w key c (some sha256)

/-! ## the dual writer -/

variable {Q : Except Exn (PutResult C) → World C → Prop}

/-- Phase 1 on an accepted payload is the upload beside the temporary copy. -/
theorem wp_prepare_accepted
    (hc : data.content w = some c) (hacc : Accepted localPath data sha256 c) :
    wp (prepare localPath key data sha256) Q w ↔
      wp (uploadData key data sha256) (fun r w' => match r with
        | .ok a => Q (.ok a) w'
        | .error e => Q (.error e) { w' with files := w'.files.erase (tmpPath localPath) })
        { w with files := w.files.insert (tmpPath localPath) c } := by
  obtain ⟨hsha, hne⟩ := hacc
  cases data with
  | file path =>
    have hpath : path ≠ tmpPath localPath := fun heq => hne (heq ▸ rfl)
    have hread : w.files.lookup path = some c := hc
    simp only [prepare, wp_bind, wp_readFile hread, hsha, ne_eq, not_true, if_false,
      rollingBack, wp_tryCatch, copy2, hpath, writeFile, unlinkMissingOk, wp_modify,
      wp_throw, uploadData]
    exact wp_congr fun r _ => by cases r <;> rfl
  | bytes payload =>
    cases hc
    simp only [prepare, hsha, ne_eq, not_true, if_false, rollingBack, wp_bind, wp_tryCatch,
      writeFile, unlinkMissingOk, wp_modify, wp_throw, uploadData]
    exact wp_congr fun r _ => by cases r <;> rfl

/-- A payload that is not accepted makes `write` raise. -/
theorem prepare_not_accepted (hc : data.content w = some c)
    (hacc : ¬ Accepted localPath data sha256 c) :
    wp (prepare localPath key data sha256) (fun r _ => ∃ e, r = .error e) w := by
  by_cases hsha : Blob.sha256 c = sha256
  · -- the payload is the file at the temporary name
    have hdata : data = .file (tmpPath localPath) := by
      by_contra hne
      exact hacc ⟨hsha, hne⟩
    subst hdata
    have hread : w.files.lookup (tmpPath localPath) = some c := hc
    simp only [prepare, wp_bind, wp_readFile hread, hsha, ne_eq, not_true, if_false,
      rollingBack, wp_tryCatch, copy2, if_true]
    exact ⟨_, rfl⟩
  · cases data with
    | file path =>
      have hread : w.files.lookup path = some c := hc
      simp only [prepare, wp_bind, wp_readFile hread, ne_eq, hsha, not_false_eq_true, if_true]
      exact ⟨_, rfl⟩
    | bytes payload =>
      cases hc
      simp only [prepare, ne_eq, hsha, not_false_eq_true, if_true]
      exact ⟨_, rfl⟩

/-- What `_promote_after_nas_put` has done when it answers `local_only`: nothing without a
queue, and an `enqueue` of the source, refused or not, with one. -/
theorem promoteAfterNasPut_localOnly (w : World C) (source : Path) (key : Key)
    (sha256 : Blob.Digest C) :
    wp (promoteAfterNasPut source key sha256) (fun r w' => r = .ok .localOnly →
      (w.retryQueue = none ∧ w'.retryQueue = none) ∨
      ∃ q c, w.retryQueue = some q ∧ w.files.lookup source = some c ∧
        w'.retryQueue = some (q.enqueue ⟨key, c, sha256⟩).2) w := by
  refine wp_catch (P := fun r w' => r ≠ .ok .localOnly ∧ PromotePost w source key w') ?_
    (fun a w' h hr => absurd hr h.1) ?_
  · exact wp_seq (promoteL1_post w source key) (fun _ _ h => ⟨fun hr => (by cases hr), h⟩)
      fun _ _ h => ⟨fun hr => (by cases hr), h⟩
  · rintro e w₁ ⟨-, hpost⟩
    cases e with
    | promotionVerifyError why =>
      simp only [enqueueRetryFile, wp_bind, wp_get]
      cases hq : w₁.retryQueue with
      | none => exact fun _ => Or.inl ⟨hpost.queue ▸ hq, hq⟩
      | some q =>
        cases hread : w₁.files.lookup source with
        | none =>
          simp only [wp_bind, wp_readFile_none hread]
          rintro ⟨⟩
        | some c =>
          simp only [wp_bind, wp_readFile hread, enqueueRetry, enqueue, wp_get, hq,
            wp_modify, wp_pure]
          refine fun _ => Or.inr ⟨q, c, hpost.queue ▸ hq, ?_, rfl⟩
          rcases hpost.files with hsame | ⟨herase, -⟩
          · exact hsame ▸ hread
          · rw [herase, AList.lookup_erase] at hread
            cases hread
    | _ => rintro ⟨⟩

variable {q : Backlog C}

/-- An item is in the queue after an `enqueue` below the floor. -/
theorem holdsItem_enqueue (hq : w'.retryQueue = some (q.enqueue item).2)
    (hfloor : q.items.length < q.hardFloor) : HoldsItem w' item := by
  refine ⟨_, hq, ?_⟩
  rw [Backlog.enqueue, if_neg (Nat.not_le.mpr hfloor)]
  simp

/-- What was in the queue is there after an `enqueue`. -/
theorem holdsItem_enqueue_of_mem {item' : Item C} (hq : w'.retryQueue = some (q.enqueue item').2)
    (hmem : item ∈ q.items) :
    HoldsItem w' item := by
  refine ⟨_, hq, ?_⟩
  unfold Backlog.enqueue
  split
  · exact hmem
  · simp [hmem]

variable {source : Path}

/-- The answer `local_only` after a deletion that was not verified. -/
theorem promoteAfterNasPut_stored (h : HoldsItem w ⟨key, c, sha256⟩ ∨
      (w.retryQueue ≠ none ∧ ∀ c', w.files.lookup source = some c' → BelowFloor w ∧ c' = c)) :
    wp (promoteAfterNasPut source key sha256) (fun r w' => r = .ok .localOnly →
      HoldsItem w' ⟨key, c, sha256⟩) w := by
  refine wp_mono (promoteAfterNasPut_localOnly w source key sha256) fun r w' hpost hr => ?_
  rcases hpost hr with ⟨hnone, -⟩ | ⟨q, c', hq, hread, hq'⟩
  · rcases h with h | ⟨hne, -⟩
    · exact absurd h (not_holdsItem_of_none hnone)
    · exact absurd hnone hne
  · rcases h with ⟨q₁, hq₁, hmem⟩ | ⟨-, h⟩
    · cases hq.symm.trans hq₁
      exact holdsItem_enqueue_of_mem hq' hmem
    · obtain ⟨⟨q₁, hq₁, hfloor⟩, rfl⟩ := h c' hread
      cases hq.symm.trans hq₁
      exact holdsItem_enqueue hq' hfloor

/-- The condition on the queue under which `write` of the payload `c` reports truly. -/
def WriteStored (w : World C) (localPath : Path) (data : DataArg C) (item : Item C)
    (sourceToDelete : Option Path) : Prop :=
  HoldsItem w item ∨ (w.retryQueue ≠ none ∧
    ∀ source, deletionTarget localPath data sourceToDelete = some source →
      ∀ c', (renamed w localPath item.data).lookup source = some c' →
        BelowFloor w ∧ c' = item.data)

/-- The upload of phase 1 sees the payload beside its temporary copy. -/
theorem content_with_copy (hc : data.content w = some c) (hacc : Accepted localPath data sha256 c) :
    data.content ({ w with files := w.files.insert (tmpPath localPath) c } : World C) = some c := by
  cases data with
  | file path =>
    have hpath : path ≠ tmpPath localPath := fun heq => hacc.2 (heq ▸ rfl)
    exact (AList.lookup_insert_ne hpath).trans hc
  | bytes payload => exact hc

/-- The rename of phase 2, from the files phase 1 leaves. -/
theorem wp_replace_copy {Q : Except Exn Unit → World C → Prop}
    (hfiles : w₁.files = w.files.insert (tmpPath localPath) c) :
    wp (replace (tmpPath localPath) localPath) Q w₁ ↔
      Q (.ok ()) { w₁ with files := (w₁.files.erase (tmpPath localPath)).insert localPath c } := by
  have hread : w₁.files.lookup (tmpPath localPath) = some c := by
    rw [hfiles, AList.lookup_insert]
  simp only [replace, wp_bind, wp_readFile hread, unlinkMissingOk, writeFile, wp_modify]

theorem lookup_replaced (hfiles : w₁.files = w.files.insert (tmpPath localPath) c) (path : Path) :
    ((w₁.files.erase (tmpPath localPath)).insert localPath c).lookup path =
      (renamed w localPath c).lookup path := by
  rcases eq_or_ne path localPath with rfl | hlocal
  · simp [renamed]
  rcases eq_or_ne path (tmpPath localPath) with rfl | htmp <;> simp [renamed, *]

variable {sourceToDelete : Option Path}

/-- Phase 2 after a committed upload. -/
theorem committed_stored (hfiles : w₁.files = w.files.insert (tmpPath localPath) c)
    (hq : w₁.retryQueue = w.retryQueue)
    (h : WriteStored w localPath data ⟨key, c, sha256⟩ sourceToDelete) :
    wp (do
      replace (tmpPath localPath) localPath
      match deletionTarget localPath data sourceToDelete with
      | some source => promoteAfterNasPut source key sha256
      | none => pure .committed) (fun r w' => r = .ok .localOnly →
        HoldsItem w' ⟨key, c, sha256⟩) w₁ := by
  rw [wp_bind, wp_replace_copy hfiles]
  cases htarget : deletionTarget localPath data sourceToDelete with
  | none => exact nofun
  | some source =>
    refine promoteAfterNasPut_stored ?_
    rcases h with h | ⟨hne, h⟩
    · exact Or.inl (h.of_queue hq)
    · refine Or.inr ⟨hq ▸ hne, fun c' hc' => ?_⟩
      obtain ⟨⟨q, hw, hfloor⟩, heq⟩ :=
        h source htarget c' ((lookup_replaced hfiles source).symm.trans hc')
      exact ⟨⟨q, hq.trans hw, hfloor⟩, heq⟩

theorem WriteStored.hasQueue (h : WriteStored w localPath data item sourceToDelete) :
    w.retryQueue ≠ none := by
  rcases h with h | ⟨hne, -⟩
  · exact fun hnone => not_holdsItem_of_none hnone h
  · exact hne

/-- **`write` reports truly** where the condition holds. -/
theorem write_stored (hc : data.content w = some c) (hacc : Accepted localPath data sha256 c)
    (h : WriteStored w localPath data ⟨key, c, sha256⟩ sourceToDelete) :
    wp (write localPath key data sha256 sourceToDelete) (fun r w' => ∀ a, r = .ok a →
      a.status = .localOnly → HoldsItem w' ⟨key, c, sha256⟩) w := by
  have hprepare : wp (prepare localPath key data sha256) (fun r w' => ∀ a, r = .ok a →
      QueueEffect { w with files := w.files.insert (tmpPath localPath) c } ⟨key, c, sha256⟩
        (.ok a) w') w := by
    refine (wp_prepare_accepted hc hacc).mpr ?_
    refine wp_mono (uploadData_effect (content_with_copy hc hacc)) fun r w' heff => ?_
    cases r with
    | ok a =>
      rintro a' ⟨⟩
      exact heff
    | error e => exact nofun
  refine wp_seq hprepare ?_ fun _ _ _ => nofun
  intro a w₁ heff
  have heff := heff a rfl
  have hfinish : wp (finish localPath key data sha256 sourceToDelete a.status)
      (fun r w' => r = .ok .localOnly → HoldsItem w' ⟨key, c, sha256⟩) w₁ := by
    have hcommitted : a.status ≠ .queued → _ := fun hs =>
      committed_stored heff.files (heff.queue_eq rfl hs) h
    cases hs : a.status with
    | queued =>
      refine (wp_bind _ _).mpr ((wp_replace_copy heff.files).mpr fun _ => ?_)
      exact (heff.holds rfl hs h.hasQueue).of_queue rfl
    | hardFloorBlocked => exact nofun
    | _ => exact hcommitted (by simp [hs])
  refine wp_seq hfinish ?_ fun _ _ _ => nofun
  rintro status w₂ hstored a' ⟨⟩ hlocal
  exact hstored (congrArg _ hlocal)

theorem putL1_stored (hkey : buildNasKey path (some "L1") = some key)
    (hc : w.files.lookup path = some c)
    (h : HoldsItem w ⟨key, c, Blob.sha256 c⟩ ∨ BelowFloor w) :
    wp (putL1 path) (fun r w' => ∀ a, r = .ok a → a.status = .localOnly →
      HoldsItem w' ⟨key, c, Blob.sha256 c⟩) w := by
  have hqueue : w.retryQueue ≠ none := by
    rcases h with h | ⟨q, hq, -⟩
    · exact fun hnone => not_holdsItem_of_none hnone h
    · rw [hq]
      exact Option.some_ne_none q
  simp only [putL1, hkey, wp_bind, wp_readFile hc]
  refine wp_mono (putStreaming_effect hc) fun r w₁ heff => ?_
  cases r with
  | error e => rintro a ⟨⟩
  | ok a =>
    have hfinish : wp (finishL1 path key (Blob.sha256 c) a.status)
        (fun r w' => r = .ok .localOnly → HoldsItem w' ⟨key, c, Blob.sha256 c⟩) w₁ := by
      have hcommitted : a.status ≠ .queued →
          wp (promoteAfterNasPut path key (Blob.sha256 c)) (fun r w' => r = .ok .localOnly →
            HoldsItem w' ⟨key, c, Blob.sha256 c⟩) w₁ := by
        intro hs
        have hq := heff.queue_eq rfl hs
        refine promoteAfterNasPut_stored (h.imp (·.of_queue hq) ?_)
        rintro ⟨q, hw, hfloor⟩
        refine ⟨hq ▸ hqueue, fun c' hc' => ⟨⟨q, hq.trans hw, hfloor⟩, ?_⟩⟩
        rw [heff.files, hc] at hc'
        exact (Option.some.inj hc').symm
      cases hs : a.status with
      | queued => exact fun _ => heff.holds rfl hs hqueue
      | hardFloorBlocked => rintro ⟨⟩
      | _ => exact hcommitted (by simp [hs])
    refine (wp_bind _ _).mp (wp_seq hfinish ?_ fun _ _ _ _ ha => by cases ha)
    rintro status w₂ hstored a' ⟨⟩ hlocal
    exact hstored (congrArg _ hlocal)

/-! ## replies that tell the other states apart -/

/-- The HEAD finds nothing, and every later request is refused. -/
def refusing : Stream' Reply :=
  Stream'.cons (.clientError "404") (Stream'.const (.clientError "500"))

/-- The upload goes through, and every later request is refused. -/
def unverified : Stream' Reply :=
  Stream'.cons (.clientError "404")
    (Stream'.cons (.ok "" none) (Stream'.const (.clientError "500")))

theorem headOutcome_absent (key : Key) (sha256 : Blob.Digest C) {rest : Stream' Reply}
    (h : w.replies = Stream'.cons (.clientError "404") rest) :
    headOutcome w key sha256 = .error (.clientError "404") := by
  rw [headOutcome, World.headAnswer, h]
  rfl

theorem wp_uploadData_refusing (hreplies : w.replies = refusing) (hc : data.content w = some c) :
    wp (uploadData key data sha256) Q w ↔
      wp (queuedResult ⟨key, c, sha256⟩) Q w.next.next := by
  have hhead := headOutcome_absent key sha256 hreplies
  have hnext : w.next.replies.head = .clientError "500" :=
    congrArg (fun replies => replies.tail.head) hreplies
  have hclass : classify4xx "500" = none := rfl
  cases data with
  | file path =>
    have hread : w.next.files.lookup path = some c := hc
    simp only [uploadData, wp_putStreaming, hhead, if_true, wp_streamingUpload hread, hnext, hclass]
  | bytes payload =>
    cases hc
    simp only [uploadData, wp_put, Option.getD_some, hhead, if_true, wp_putWriting, hnext, absorb,
      hclass, Bool.false_eq_true, if_false, putItem]

theorem wp_uploadData_unverified
    (hreplies : w.replies = unverified) (hc : data.content w = some c) :
    wp (uploadData key data sha256) Q w ↔ Q (.ok { status := .uploaded })
      { w.next.next with nas := w.nas.insert key ⟨c, some sha256, "", none⟩ } := by
  have hhead := headOutcome_absent key sha256 hreplies
  have hnext : w.next.replies.head = .ok "" none :=
    congrArg (fun replies => replies.tail.head) hreplies
  cases data with
  | file path =>
    have hread : w.next.files.lookup path = some c := hc
    simp only [uploadData, wp_putStreaming, hhead, if_true, wp_streamingUpload hread, hnext]
    exact Iff.rfl
  | bytes payload =>
    cases hc
    simp only [uploadData, wp_put, hhead, if_true, wp_putWriting, hnext, putItem, Option.getD_some]
    exact Iff.rfl

/-- A deletion whose verification is refused hands its source to the queue. -/
theorem wp_promoteAfterNasPut_refused {Q : Except Exn DualStatus → World C → Prop}
    (hreplies : w.replies.head = .clientError "500") (hq : w.retryQueue = some q)
    (hc : w.files.lookup source = some c) :
    wp (promoteAfterNasPut source key sha256) Q w ↔ Q (.ok .localOnly)
      { w.next with retryQueue := some (q.enqueue ⟨key, c, sha256⟩).2 } := by
  have hq' : w.next.retryQueue = some q := hq
  have hread : w.next.files.lookup source = some c := hc
  simp only [promoteAfterNasPut, promoteL1, wp_tryCatch, wp_bind, wp_get, hc,
    headWithRetry, headLoop, headObject, wp_clientHeadObject, World.headAnswer, hreplies,
    Reply.failure, wp_throw, enqueueRetryFile, hq', wp_readFile hread, enqueueRetry, enqueue,
    wp_modify, wp_pure]

theorem content_replies (replies : Stream' Reply) :
    data.content ({ w with replies := replies } : World C) = data.content w := by
  cases data <;> rfl

/-- Without a queue a refused upload is reported all the same. -/
theorem write_refusing (hnone : w.retryQueue = none) (hc : data.content w = some c)
    (hacc : Accepted localPath data sha256 c) (sourceToDelete : Option Path) :
    wp (write localPath key data sha256 sourceToDelete) (fun r w' =>
      (∃ a, r = .ok a ∧ a.status = .localOnly) ∧ w'.retryQueue = none)
      { w with replies := refusing } := by
  have hc' := (content_replies refusing).trans hc
  rw [write, wp_bind, wp_prepare_accepted hc' hacc,
    wp_uploadData_refusing rfl (content_with_copy hc' hacc), wp_queuedResult]
  have hqueue : ({ w with
      files := w.files.insert (tmpPath localPath) c
      replies := refusing } : World C).next.next.retryQueue = none := hnone
  simp only [hqueue, finish, wp_bind]
  exact (wp_replace_copy rfl).mpr ⟨⟨_, rfl, rfl⟩, hnone⟩

/-- A committed upload whose source cannot be verified. -/
theorem write_unverified {c' : C} (hq : w.retryQueue = some q) (hc : data.content w = some c)
    (hacc : Accepted localPath data sha256 c)
    (htarget : deletionTarget localPath data sourceToDelete = some source)
    (hsource : (renamed w localPath c).lookup source = some c') :
    wp (write localPath key data sha256 sourceToDelete) (fun r w' =>
      (∃ a, r = .ok a ∧ a.status = .localOnly) ∧
        w'.retryQueue = some (q.enqueue ⟨key, c', sha256⟩).2) { w with replies := unverified } := by
  have hc' := (content_replies unverified).trans hc
  rw [write, wp_bind, wp_prepare_accepted hc' hacc,
    wp_uploadData_unverified rfl (content_with_copy hc' hacc)]
  simp only [finish, htarget, wp_bind]
  refine (wp_replace_copy (w := w) (c := c) rfl).mpr ?_
  refine Iff.mpr (wp_promoteAfterNasPut_refused ?_ hq ?_) ⟨⟨_, rfl, rfl⟩, rfl⟩
  · rfl
  · exact (lookup_replaced rfl source).trans hsource

/-- An item that an `enqueue` of another content put into the queue was there before. -/
theorem mem_of_mem_enqueue {c' : C}
    (hmem : (⟨key, c, sha256⟩ : Item C) ∈ (q.enqueue ⟨key, c', sha256⟩).2.items)
    (hno : ¬ (q.items.length < q.hardFloor ∧ c' = c)) : (⟨key, c, sha256⟩ : Item C) ∈ q.items := by
  unfold Backlog.enqueue at hmem
  split at hmem
  · exact hmem
  · rename_i hfloor
    rcases List.mem_append.mp hmem with h | h
    · exact h
    · cases List.mem_singleton.mp h
      exact absurd ⟨Nat.not_le.mp hfloor, rfl⟩ hno

/-- **Where `write` reports truly**, the condition holds. -/
theorem writeStored_of_means (hc : data.content w = some c)
    (hacc : Accepted localPath data sha256 c)
    (h : MeansStored (write localPath key data sha256 sourceToDelete) (·.status = .localOnly)
      ⟨key, c, sha256⟩ w) : WriteStored w localPath data ⟨key, c, sha256⟩ sourceToDelete := by
  cases hq : w.retryQueue with
  | none =>
    obtain ⟨⟨a, ha, hs⟩, hnone⟩ := write_refusing hq hc hacc sourceToDelete
    exact absurd (h refusing a ha hs) (not_holdsItem_of_none hnone)
  | some q =>
    by_cases hheld : HoldsItem w ⟨key, c, sha256⟩
    · exact Or.inl hheld
    refine Or.inr ⟨by rw [hq]; exact Option.some_ne_none q, fun source htarget c' hsource => ?_⟩
    obtain ⟨⟨a, ha, hs⟩, hqueue⟩ := write_unverified hq hc hacc htarget hsource
    obtain ⟨q', hq', hmem⟩ := h unverified a ha hs
    cases hqueue.symm.trans hq'
    by_contra hno
    refine hheld ⟨q, hq, mem_of_mem_enqueue hmem fun hyes => hno ?_⟩
    exact ⟨⟨q, hq, hyes.1⟩, hyes.2⟩

theorem putL1_refusing (hkey : buildNasKey path (some "L1") = some key)
    (hc : w.files.lookup path = some c) (hnone : w.retryQueue = none) :
    wp (putL1 path) (fun r w' =>
      (∃ a, r = .ok a ∧ a.status = .localOnly) ∧ w'.retryQueue = none)
      { w with replies := refusing } := by
  have hread : ({ w with replies := refusing } : World C).files.lookup path = some c := hc
  have hupload : ∀ Q, wp (uploadData key (.file path) (Blob.sha256 c)) Q
      { w with replies := refusing } ↔ _ := fun Q => wp_uploadData_refusing rfl hc
  simp only [putL1, hkey, wp_bind, wp_readFile hread]
  refine (hupload _).mpr (wp_queuedResult.mpr ?_)
  have hqueue : ({ w with replies := refusing } : World C).next.next.retryQueue = none := hnone
  simp only [hqueue, finishL1]
  exact ⟨⟨_, rfl, rfl⟩, hnone⟩

theorem putL1_unverified (hkey : buildNasKey path (some "L1") = some key)
    (hc : w.files.lookup path = some c) (hq : w.retryQueue = some q) :
    wp (putL1 path) (fun r w' => (∃ a, r = .ok a ∧ a.status = .localOnly) ∧
      w'.retryQueue = some (q.enqueue ⟨key, c, Blob.sha256 c⟩).2)
      { w with replies := unverified } := by
  have hread : ({ w with replies := unverified } : World C).files.lookup path = some c := hc
  have hupload : ∀ Q, wp (uploadData key (.file path) (Blob.sha256 c)) Q
      { w with replies := unverified } ↔ _ := fun Q => wp_uploadData_unverified rfl hc
  simp only [putL1, hkey, wp_bind, wp_readFile hread]
  refine (hupload _).mpr ?_
  exact Iff.mpr (wp_promoteAfterNasPut_refused rfl hq hc) ⟨⟨_, rfl, rfl⟩, rfl⟩

/-- With `suppress_enqueue` no handler touches the queue. -/
theorem absorb_suppressed (w : World C) (item : Item C) (e : Exn) :
    wp (absorb item true e) (fun _ w' => w'.retryQueue = w.retryQueue) w := by
  cases e with
  | clientError code =>
    simp only [absorb]
    cases classify4xx code <;> rfl
  | _ => rfl

theorem putWriting_suppressed (w : World C) (item : Item C) :
    wp (putWriting item true) (fun _ w' => w'.retryQueue = w.retryQueue) w := by
  rw [wp_putWriting]
  cases w.replies.head with
  | ok etag versionId => rfl
  | unreachable landed => cases landed <;> exact absorb_suppressed _ item _
  | clientError code => exact absorb_suppressed _ item _
  | other => rfl

section

variable (w : World C) (key : Key) (c : C) (sha256 : Option (Blob.Digest C))

theorem put_suppressed : wp (put key c sha256 true) (fun _ w' => w'.retryQueue = w.retryQueue) w :=
  put_cases (putWriting_suppressed w.next _) (fun _ => rfl) fun e => absorb_suppressed w.next _ e

/-- `put`: with `suppress_enqueue` it may report `queued` without having queued. -/
theorem put_means_stored_iff (suppressEnqueue : Bool) :
    MeansStored (put key c sha256 suppressEnqueue) (·.status = .queued) (putItem key c sha256) w ↔
      HoldsItem w (putItem key c sha256) ∨ (w.retryQueue ≠ none ∧ suppressEnqueue = false) := by
  have hclass : classify4xx "500" = none := rfl
  have hrefused : ∀ suppress Q, wp (put key c sha256 suppress) Q
      { w with replies := Stream'.const (.clientError "500") } ↔
        wp (absorb (putItem key c sha256) suppress (.clientError "500")) Q
          ({ w with replies := Stream'.const (.clientError "500") } : World C).next :=
    fun suppress Q => wp_put
  constructor
  · intro h
    have h500 := (hrefused suppressEnqueue _).mp (meansStored_iff_wp.mp h _)
    simp only [absorb, hclass] at h500
    cases suppressEnqueue with
    | true => exact Or.inl ((h500 _ rfl rfl).of_queue rfl)
    | false =>
      refine Or.inr ⟨fun hnone => ?_, rfl⟩
      simp only [Bool.false_eq_true, if_false] at h500
      have hqueue : ({ w with replies := Stream'.const (.clientError "500") } :
          World C).next.retryQueue = none := hnone
      rw [wp_queuedResult, hqueue] at h500
      exact not_holdsItem_of_none hqueue (h500 _ rfl rfl)
  · intro h replies a ha hs
    cases suppressEnqueue with
    | true =>
      rcases h with h | ⟨-, h⟩
      · exact h.of_queue (put_suppressed { w with replies := replies } key c sha256)
      · cases h
    | false =>
      refine (put_effect { w with replies := replies } key c sha256).holds ha hs ?_
      rcases h with h | h
      · exact fun hnone => not_holdsItem_of_none hnone h
      · exact h.1

end

/-- **When a report means an entry of the queue.** In a state of the disk, the bucket and
the queue, and whatever the NAS answers:

* `put` reports `queued` truly if a queue is configured and not suppressed, or if the
  entry was there before;
* `put_streaming` if a queue is configured;
* `write` reports `local_only` truly if a queue is configured and, where it goes on to
  delete a source, that file holds the payload and the queue is below its hard floor
  (the answer of `enqueue_retry` is dropped), or if the entry was there before;
* `put_l1` if the queue is configured and below its hard floor, or if the entry was there
  before. -/
theorem queued_means_stored_iff (w : World C) :
    (∀ key c sha256 suppressEnqueue,
      MeansStored (put key c sha256 suppressEnqueue) (·.status = .queued) (putItem key c sha256) w ↔
        HoldsItem w (putItem key c sha256) ∨ (w.retryQueue ≠ none ∧ suppressEnqueue = false)) ∧
    (∀ path key c sha256, w.files.lookup path = some c →
      (MeansStored (putStreaming path key sha256) (·.status = .queued) ⟨key, c, sha256⟩ w ↔
        w.retryQueue ≠ none)) ∧
    (∀ localPath key data c sha256 sourceToDelete, DataArg.content w data = some c →
      (MeansStored (write localPath key data sha256 sourceToDelete) (·.status = .localOnly)
        ⟨key, c, sha256⟩ w ↔
        (Accepted localPath data sha256 c →
          WriteStored w localPath data ⟨key, c, sha256⟩ sourceToDelete))) ∧
    (∀ path key c, buildNasKey path (some "L1") = some key → w.files.lookup path = some c →
      (MeansStored (putL1 path) (·.status = .localOnly) ⟨key, c, Blob.sha256 c⟩ w ↔
        HoldsItem w ⟨key, c, Blob.sha256 c⟩ ∨ BelowFloor w)) := by
  refine ⟨put_means_stored_iff w, fun path key c sha256 hc => ⟨fun h hnone => ?_, fun hqueue => ?_⟩,
    fun localPath key data c sha256 sourceToDelete hc => ⟨fun h hacc => ?_, fun h => ?_⟩,
    fun path key c hkey hc => ⟨fun h => ?_, fun h replies => ?_⟩⟩
  · have hupload : wp (uploadData key (.file path) sha256) _ { w with replies := refusing } :=
      meansStored_iff_wp.mp h refusing
    have hqueue : ({ w with replies := refusing } : World C).next.next.retryQueue = none := hnone
    have hc' : DataArg.content ({ w with replies := refusing } : World C) (.file path) = some c :=
      hc
    rw [wp_uploadData_refusing (w := { w with replies := refusing }) rfl hc', wp_queuedResult,
      hqueue] at hupload
    exact not_holdsItem_of_none hqueue (hupload _ rfl rfl)
  · intro replies a ha hs
    exact (putStreaming_effect (w := { w with replies := replies }) hc).holds ha hs hqueue
  · exact writeStored_of_means hc hacc h
  · intro replies
    have hc' := (content_replies replies).trans hc
    by_cases hacc : Accepted localPath data sha256 c
    · exact write_stored hc' hacc (h hacc)
    · refine meansStored_of_raise ?_
      exact wp_seq (prepare_not_accepted hc' hacc) (fun _ _ h => nomatch h)
        fun e _ _ => ⟨e, rfl⟩
  · cases hq : w.retryQueue with
    | none =>
      obtain ⟨⟨a, ha, hs⟩, hnone⟩ := putL1_refusing hkey hc hq
      exact absurd (h refusing a ha hs) (not_holdsItem_of_none hnone)
    | some q =>
      obtain ⟨⟨a, ha, hs⟩, hqueue⟩ := putL1_unverified hkey hc hq
      obtain ⟨q', hq', hmem⟩ := h unverified a ha hs
      cases hqueue.symm.trans hq'
      by_cases hfloor : q.items.length < q.hardFloor
      · exact Or.inr ⟨q, hq, hfloor⟩
      · exact Or.inl ⟨q, hq, mem_of_mem_enqueue hmem fun hyes => hfloor hyes.1⟩
  · exact putL1_stored (w := { w with replies := replies }) hkey hc h

end

/-- With an empty queue that has room, all four reports of the file at `["a"]` are true. -/
theorem queued_means_stored_with_room :
    MeansStored (put ["k"] "x" none false) (·.status = .queued) ⟨["k"], "x", "x"⟩
        (oneReplyWorld .other) ∧
      MeansStored (putStreaming ["a"] ["k"] "x") (·.status = .queued) ⟨["k"], "x", "x"⟩
        (oneReplyWorld .other) ∧
      MeansStored (write ["a"] ["k"] (.file ["a"]) "x" (some ["a"])) (·.status = .localOnly)
        ⟨["k"], "x", "x"⟩ (oneReplyWorld .other) ∧
      MeansStored (putL1 ["a"]) (·.status = .localOnly) ⟨["a"], "x", "x"⟩
        (oneReplyWorld .other) := by
  have hroom : BelowFloor (oneReplyWorld .other) := ⟨_, rfl, by decide⟩
  have hqueue : (oneReplyWorld .other).retryQueue ≠ none := nofun
  obtain ⟨hput, hstream, hwrite, hl1⟩ := queued_means_stored_iff (oneReplyWorld .other)
  refine ⟨(hput ["k"] "x" none false).mpr (Or.inr ⟨hqueue, rfl⟩),
    (hstream ["a"] ["k"] "x" "x" rfl).mpr hqueue,
    (hwrite ["a"] ["k"] (.file ["a"]) "x" "x" (some ["a"]) rfl).mpr fun _ => Or.inr ⟨hqueue, ?_⟩,
    (hl1 ["a"] ["a"] "x" rfl rfl).mpr (Or.inr hroom)⟩
  rintro source ⟨⟩ c' hc'
  exact ⟨hroom, (Option.some.inj hc').symm⟩

/-- The file at `["a"]`, and a queue that is full with another entry. -/
def flooredWorld (replies : Stream' Reply) : World String :=
  { oneReplyWorld .other with
    retryQueue := some ⟨[⟨["o"], "y", "y"⟩], 1⟩
    replies := replies }

/-- Two reports without an entry: `put` without a queue on an unreachable endpoint, and
`put_l1` with a full queue when the uploaded object cannot be verified. -/
theorem queued_without_entry :
    (∃ r, (put ["k"] "x" none false).result
        { oneReplyWorld (.unreachable false) with retryQueue := none } = .ok r ∧
      r.status = .queued) ∧
    ¬ HoldsItem ((put ["k"] "x" none false).after
        { oneReplyWorld (.unreachable false) with retryQueue := none }) ⟨["k"], "x", "x"⟩ ∧
    (∃ r, (putL1 ["a"]).result (flooredWorld unverified) = .ok r ∧ r.status = .localOnly) ∧
    ¬ HoldsItem ((putL1 ["a"]).after (flooredWorld unverified)) ⟨["a"], "x", "x"⟩ := by
  refine ⟨⟨_, rfl, rfl⟩, not_holdsItem_of_none rfl, ⟨_, rfl, rfl⟩, ?_⟩
  rintro ⟨q, hq, hmem⟩
  cases hq
  exact absurd (congrArg Item.key (List.mem_singleton.mp hmem)) (by decide)

end MctraderData.Nas
