import MctraderData.Nas.Uploader

/-!
# mctrader-data — server-side copy and delete

Model of `copy_object` and `delete_object` of `nas_storage/nas_uploader.py`, the two
requests of the re-key migration. A copy looks at both keys first: an object already at
the destination with the sha256 of the source is left alone, one with another sha256 is a
conflict, and one whose sha256 is not known is overwritten.

A request that fails on the way may still have been carried out. The etag and version id
the bucket then gave the copy come from the stream of replies too.

## Results

* `copyObject_nas` — whatever happens, at most the destination is written, with the
  bytes and metadata of the source.
* `copyObject_answered` — what a copy does while the NAS answers.
-/

namespace MctraderData.Nas

open Lib Eff

variable {C : Type} [Blob C]

/-! ## definitions -/

/-- The world with the object at `src` copied to `dst`. -/
def World.withCopy (w : World C) (src dst : Key) (etag : String) (versionId : Option String) :
    World C :=
  match w.nas.lookup src with
  | some o => { w with nas := w.nas.insert dst { o with etag := etag, versionId := versionId } }
  | none => w

/-- `client.copy_object` with `MetadataDirective="COPY"`; returns ETag and VersionId. -/
def clientCopyObject (src dst : Key) : Prog C (String × Option String) := do
  match ← nextReply with
  | .ok etag versionId =>
    match (← get).nas.lookup src with
    | some _ =>
      modify fun w => w.withCopy src dst etag versionId
      pure (etag, versionId)
    | none => throw (.clientError "NoSuchKey")
  | .unreachable landed =>
    if landed then
      match ← nextReply with
      | .ok etag versionId => modify fun w => w.withCopy src dst etag versionId
      | _ => modify fun w => w.withCopy src dst "" none
    throw .endpointConnectionError
  | .clientError code => throw (.clientError code)
  | .other => throw .botoCoreError

/-- `client.delete_object`; deleting an absent key succeeds. -/
def clientDeleteObject (key : Key) : Prog C Unit := do
  match ← nextReply with
  | .ok _ _ => modify fun w => { w with nas := w.nas.erase key }
  | .unreachable landed =>
    if landed then modify fun w => { w with nas := w.nas.erase key }
    throw .endpointConnectionError
  | .clientError code => throw (.clientError code)
  | .other => throw .botoCoreError

inductive CopyStatus where
  | copied
  | alreadyExistsIdempotent
  | sourceNotFound
  | dstConflict
deriving DecidableEq, Repr

/-- `CopyResult`, without the latency. -/
structure CopyResult where
  status : CopyStatus
  srcEtag : String := ""
  dstEtag : String := ""
  srcVersionId : Option String := none
  dstVersionId : Option String := none

/-- A HEAD whose 404 is an answer. -/
def headOrAbsent (key : Key) : Prog C (Option (Obj C)) :=
  tryCatch (do pure (some (← clientHeadObject key))) fun
    | .clientError "404" => pure none
    | e => throw e

/-- What an object at the destination decides: `none` is to go on and copy. -/
def copyDecision (src dst : Obj C) : Option CopyStatus :=
  match src.sha256, dst.sha256 with
  | some s, some d => if s = d then some .alreadyExistsIdempotent else some .dstConflict
  | _, _ => none

/-- The copy itself, after both HEADs. -/
def serverCopy (src dst : Key) (s : Obj C) : Prog C CopyResult := do
  let (etag, versionId) ← clientCopyObject src dst
  pure ⟨.copied, s.etag, etag, s.versionId, versionId⟩

/-- `NASUploader.copy_object` -/
def copyObject (src dst : Key) : Prog C CopyResult := do
  match ← headOrAbsent src with
  | none => pure { status := .sourceNotFound }
  | some s =>
    match ← headOrAbsent dst with
    | none => serverCopy src dst s
    | some d =>
      match copyDecision s d with
      | some status => pure ⟨status, s.etag, d.etag, s.versionId, d.versionId⟩
      | none => serverCopy src dst s

/-- `NASUploader.delete_object` -/
def deleteObject (key : Key) : Prog C Unit :=
  tryCatch (clientDeleteObject key) fun
    | .clientError "404" => pure ()
    | e => throw e

/-! ## rules -/

variable {w w' : World C} {src dst key : Key}

/-- `w` after some replies were consumed and with another bucket. -/
def World.Became (w w' : World C) (nas : AList fun _ : Key => Obj C) : Prop :=
  ∃ n, w' = { w with replies := w.replies.drop n, nas := nas }

theorem World.Became.nas_eq {nas : AList fun _ : Key => Obj C} (h : w.Became w' nas) :
    w'.nas = nas := by
  obtain ⟨n, rfl⟩ := h
  rfl

theorem wp_headOrAbsent {Q : Except Exn (Option (Obj C)) → World C → Prop} :
    wp (headOrAbsent key) Q w ↔
      match w.headAnswer key with
      | .ok o => Q (.ok (some o)) w.next
      | .error e => Q (if e = .clientError "404" then .ok none else .error e) w.next := by
  rw [headOrAbsent, wp_tryCatch, wp_bind, wp_clientHeadObject]
  cases w.headAnswer key with
  | ok o => rfl
  | error e =>
    dsimp only
    split
    · rfl
    · rename_i hother
      rw [if_neg hother]
      rfl

/-- Whatever the NAS replies, a HEAD consumes one reply, and an object it returns is
there. -/
theorem headOrAbsent_post :
    wp (headOrAbsent key) (fun r w' => w' = w.next ∧
      ∀ o, r = .ok (some o) → w.nas.lookup key = some o) w := by
  rw [wp_headOrAbsent]
  cases ho : w.headAnswer key with
  | ok o =>
    refine ⟨rfl, fun o' h => ?_⟩
    cases h
    exact World.lookup_of_headAnswer ho
  | error e =>
    refine ⟨rfl, fun o h => ?_⟩
    split at h <;> cases h

/-- The same for `head_object`. -/
theorem headObject_nas :
    wp (headObject key) (fun r w' => w.Became w' w.nas ∧ ∀ head, r = .ok head →
      ∃ o, w.nas.lookup key = some o ∧ head = o.head) w := by
  rw [headObject, wp_bind, wp_clientHeadObject]
  cases ho : w.headAnswer key with
  | ok o =>
    refine ⟨⟨1, rfl⟩, fun head h => ⟨o, World.lookup_of_headAnswer ho, ?_⟩⟩
    exact (Except.ok.inj h).symm
  | error e => exact ⟨⟨1, rfl⟩, by simp⟩

/-- The bucket is unchanged, or has the object of `src` also at `dst`. -/
def CopyOrNot (w w' : World C) (src dst : Key) : Prop :=
  w.Became w' w.nas ∨ ∃ o etag versionId, w.nas.lookup src = some o ∧
    w.Became w' (w.nas.insert dst { o with etag := etag, versionId := versionId })

theorem CopyOrNot.next (h : CopyOrNot w.next w' src dst) : CopyOrNot w w' src dst := by
  rcases h with ⟨n, rfl⟩ | ⟨o, etag, versionId, ho, n, rfl⟩
  · exact Or.inl ⟨n + 1, rfl⟩
  · exact Or.inr ⟨o, etag, versionId, ho, n + 1, rfl⟩

theorem copyOrNot_withCopy (etag : String) (versionId : Option String) :
    CopyOrNot w (w.withCopy src dst etag versionId) src dst := by
  unfold World.withCopy
  cases ho : w.nas.lookup src with
  | none => exact Or.inl ⟨0, rfl⟩
  | some o => exact Or.inr ⟨o, etag, versionId, ho, 0, rfl⟩

theorem clientCopyObject_nas :
    wp (clientCopyObject src dst) (fun _ w' => CopyOrNot w w' src dst) w := by
  have hsame : CopyOrNot w w.next src dst := Or.inl ⟨1, rfl⟩
  simp only [clientCopyObject, nextReply, wp_bind, wp_get, wp_set, wp_pure]
  cases w.replies.head with
  | ok etag versionId =>
    simp only [wp_bind, wp_get]
    cases w.nas.lookup src with
    | none => exact hsame
    | some o => exact (copyOrNot_withCopy etag versionId).next
  | unreachable landed =>
    cases landed with
    | false => exact hsame
    | true =>
      simp only [if_true, wp_bind, wp_get, wp_set, wp_pure]
      cases w.replies.tail.head with
      | ok etag versionId => exact (copyOrNot_withCopy etag versionId).next.next
      | unreachable | clientError | other => exact (copyOrNot_withCopy "" none).next.next
  | clientError | other => exact hsame

/-- **A copy writes at most its destination**, with what is at its source. -/
theorem copyObject_nas :
    wp (copyObject src dst) (fun _ w' => CopyOrNot w w' src dst) w := by
  have hserver : ∀ s, wp (serverCopy src dst s) (fun _ w' => CopyOrNot w w' src dst)
      w.next.next := by
    intro s
    refine wp_seq clientCopyObject_nas ?_ fun _ _ h => h.next.next
    intro _ w' h
    exact h.next.next
  refine wp_seq headOrAbsent_post ?_ ?_
  · rintro found w₁ ⟨rfl, -⟩
    cases found with
    | none => exact Or.inl ⟨1, rfl⟩
    | some s =>
      refine wp_seq headOrAbsent_post ?_ ?_
      · rintro present w₂ ⟨rfl, -⟩
        cases present with
        | none => exact hserver s
        | some d =>
          show wp (match copyDecision s d with
            | some status => pure ⟨status, s.etag, d.etag, s.versionId, d.versionId⟩
            | none => serverCopy src dst s) _ _
          cases copyDecision s d with
          | none => exact hserver s
          | some status => exact Or.inl ⟨2, rfl⟩
      · rintro e w₂ ⟨rfl, -⟩
        exact Or.inl ⟨2, rfl⟩
  · rintro e w₁ ⟨rfl, -⟩
    exact Or.inl ⟨1, rfl⟩

theorem clientDeleteObject_nas :
    wp (clientDeleteObject key) (fun _ w' =>
      w.Became w' w.nas ∨ w.Became w' (w.nas.erase key)) w := by
  simp only [clientDeleteObject, nextReply, wp_bind, wp_get, wp_set, wp_pure]
  cases w.replies.head with
  | ok etag versionId => exact Or.inr ⟨1, rfl⟩
  | unreachable landed =>
    cases landed with
    | false => exact Or.inl ⟨1, rfl⟩
    | true => exact Or.inr ⟨1, rfl⟩
  | clientError | other => exact Or.inl ⟨1, rfl⟩

/-- **A delete removes at most its key.** -/
theorem deleteObject_nas :
    wp (deleteObject key) (fun _ w' =>
      w.Became w' w.nas ∨ w.Became w' (w.nas.erase key)) w := by
  refine wp_catch clientDeleteObject_nas (fun _ _ h => h) ?_
  intro e w' h
  split <;> exact h

/-! ## while the NAS answers -/

/-- Every request is answered, and the bucket is versioned: a write gets a version id. -/
def Versioned (replies : Stream' Reply) : Prop :=
  ∀ n, ∃ etag versionId, versionId ≠ "" ∧ replies.get n = .ok etag (some versionId)

variable {replies : Stream' Reply}

theorem Versioned.drop (h : Versioned replies) (n : Nat) : Versioned (replies.drop n) :=
  fun k => h (k + n)

theorem Versioned.head (h : Versioned replies) :
    ∃ etag versionId, versionId ≠ "" ∧ replies.head = .ok etag (some versionId) :=
  h 0

theorem Versioned.failure (h : Versioned replies) : replies.head.failure = none := by
  obtain ⟨etag, versionId, -, hhead⟩ := h.head
  exact congrArg Reply.failure hhead

theorem headOrAbsent_answered (h : Versioned w.replies) :
    wp (headOrAbsent key) (fun r w' => w' = w.next ∧ r = .ok (w.nas.lookup key)) w := by
  rw [wp_headOrAbsent, World.headAnswer, h.failure]
  cases w.nas.lookup key <;> exact ⟨rfl, rfl⟩

theorem headObject_answered (h : Versioned w.replies) :
    wp (headObject key) (fun r w' => w' = w.next ∧
      r = match w.nas.lookup key with
        | some o => .ok o.head
        | none => .error (.clientError "404")) w := by
  rw [headObject, wp_bind, wp_clientHeadObject, World.headAnswer, h.failure]
  cases w.nas.lookup key <;> exact ⟨rfl, rfl⟩

theorem deleteObject_answered (h : Versioned w.replies) :
    wp (deleteObject key) (fun r w' => r = .ok () ∧ w.Became w' (w.nas.erase key)) w := by
  obtain ⟨etag, versionId, -, hhead⟩ := h.head
  simp only [deleteObject, clientDeleteObject, nextReply, wp_tryCatch, wp_bind, wp_get,
    wp_set, wp_pure, hhead]
  exact ⟨trivial, 1, rfl⟩

/-- How a copy ends while the NAS answers. -/
inductive CopyOutcome (w w' : World C) (src dst : Key) : Except Exn CopyResult → Prop
  /-- The source is not there. -/
  | missing (hsrc : w.nas.lookup src = none) (hw : w.Became w' w.nas) :
      CopyOutcome w w' src dst (.ok { status := .sourceNotFound })
  /-- The object at the destination decides. -/
  | decided {s d : Obj C} {res : CopyResult} (hsrc : w.nas.lookup src = some s)
      (hdst : w.nas.lookup dst = some d) (hstatus : copyDecision s d = some res.status)
      (hw : w.Became w' w.nas) : CopyOutcome w w' src dst (.ok res)
  /-- The object is copied. -/
  | copied {s : Obj C} {res : CopyResult} {etag versionId : String}
      (hsrc : w.nas.lookup src = some s)
      (hdst : ∀ d, w.nas.lookup dst = some d → copyDecision s d = none)
      (hstatus : res.status = .copied) (hversion : versionId ≠ "")
      (hw : w.Became w' (w.nas.insert dst { s with etag := etag, versionId := some versionId })) :
      CopyOutcome w w' src dst (.ok res)

/-- **A copy while the NAS answers.** -/
theorem copyObject_answered (h : Versioned w.replies) :
    wp (copyObject src dst) (fun r w' => CopyOutcome w w' src dst r) w := by
  have hserver : ∀ s, w.nas.lookup src = some s →
      (∀ d, w.nas.lookup dst = some d → copyDecision s d = none) →
      wp (serverCopy src dst s) (fun r w' => CopyOutcome w w' src dst r) w.next.next := by
    intro s hs hd
    obtain ⟨etag, versionId, hne, hhead⟩ := (h.drop 2).head
    have hreplies : w.next.next.replies.head = .ok etag (some versionId) := hhead
    have hnas : w.next.next.next.nas.lookup src = some s := hs
    simp only [serverCopy, clientCopyObject, nextReply, wp_bind, wp_get, wp_set,
      wp_pure, hreplies]
    show wp (match w.next.next.next.nas.lookup src with
      | some _ => (do
        modify fun w => w.withCopy src dst etag (some versionId)
        pure (etag, some versionId) : Prog C (String × Option String))
      | none => throw (.clientError "NoSuchKey")) _ w.next.next.next
    rw [hnas]
    have hw : w.Became (w.next.next.next.withCopy src dst etag (some versionId))
        (w.nas.insert dst { s with etag := etag, versionId := some versionId }) := by
      refine ⟨3, ?_⟩
      unfold World.withCopy
      rw [hnas]
      rfl
    exact .copied hs hd rfl hne hw
  refine wp_seq (headOrAbsent_answered h) ?_ fun _ _ h => by cases h.2
  rintro found w₁ ⟨rfl, hfound⟩
  cases hs : w.nas.lookup src with
  | none =>
    rw [hs] at hfound
    cases hfound
    exact .missing hs ⟨1, rfl⟩
  | some s =>
    rw [hs] at hfound
    cases hfound
    refine wp_seq (headOrAbsent_answered (h.drop 1)) ?_ fun _ _ h => by cases h.2
    rintro present w₂ ⟨rfl, hpresent⟩
    have hnas : w.next.nas.lookup dst = w.nas.lookup dst := rfl
    cases hd : w.nas.lookup dst with
    | none =>
      rw [hnas, hd] at hpresent
      cases hpresent
      exact hserver s hs fun d hd' => by cases hd.symm.trans hd'
    | some d =>
      rw [hnas, hd] at hpresent
      cases hpresent
      show wp (match copyDecision s d with
        | some status => pure ⟨status, s.etag, d.etag, s.versionId, d.versionId⟩
        | none => serverCopy src dst s) _ _
      cases hdecision : copyDecision s d with
      | none =>
        refine hserver s hs fun d' hd' => ?_
        rw [hd] at hd'
        cases hd'
        exact hdecision
      | some status => exact .decided hs hd hdecision ⟨2, rfl⟩

end MctraderData.Nas
