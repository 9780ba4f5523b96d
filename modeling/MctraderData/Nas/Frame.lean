import MctraderData.Nas.DualWriter

/-!
# mctrader-data — which files the storage code touches

`KeepsOff S m`: however `m` ends, local files outside `S` are as before. The frame
rules of `Lib.Effect` take a program apart; here are the rules of its primitives and the
frame of each storage function up to `DualWriter.write`. No assumption on the bucket or
its replies is needed.
-/

namespace MctraderData.Nas

open Lib Eff

variable {C : Type} [Blob C] {α : Type} {S : Path → Prop}

/-- Files outside `S` are the same. -/
def SameOff (S : Path → Prop) (w w' : World C) : Prop := AgreeOff S w.files w'.files

instance : Std.Refl (SameOff S : World C → World C → Prop) := ⟨fun w => .refl S w.files⟩

instance : IsTrans (World C) (SameOff S) := ⟨fun _ _ _ h h' => AgreeOff.trans h h'⟩

abbrev KeepsOff (S : Path → Prop) (m : Prog C α) : Prop := Eff.Keeps (SameOff S) m

theorem keepsOff_of_files {m : Prog C α} (h : ∀ w, wp m (fun _ w' => w'.files = w.files) w) :
    KeepsOff S m :=
  fun w => AgreeOff.of_eq (h w)

/-! ## local files -/

theorem keepsOff_readFile (path : Path) : KeepsOff S (readFile path : Prog C C) := by
  refine keeps_get.bind fun w => ?_
  cases w.files.lookup path with
  | some c => exact keeps_pure c
  | none => exact keeps_throw _

theorem keepsOff_writeFile {path : Path} (hS : S path) (c : C) :
    KeepsOff S (writeFile path c : Prog C Unit) :=
  keeps_modify fun w => AgreeOff.insert (S := S) hS c w.files

theorem keepsOff_mkdir (dir : Path) : KeepsOff S (mkdir dir : Prog C Unit) :=
  keeps_modify fun w => .refl S w.files

theorem keepsOff_unlinkMissingOk {path : Path} (hS : S path) :
    KeepsOff S (unlinkMissingOk path : Prog C Unit) :=
  keeps_modify fun w => AgreeOff.erase (S := S) hS w.files

theorem keepsOff_copy2 {src dst : Path} (hS : S dst) :
    KeepsOff S (copy2 src dst : Prog C Unit) := by
  refine (keepsOff_readFile src).bind fun c => ?_
  split
  · exact keeps_throw _
  · exact keepsOff_writeFile hS c

theorem keepsOff_replace {src dst : Path} (hsrc : S src) (hdst : S dst) :
    KeepsOff S (replace src dst : Prog C Unit) :=
  (keepsOff_readFile src).bind fun c =>
    (keepsOff_unlinkMissingOk hsrc).bind fun _ => keepsOff_writeFile hdst c

/-! ## requests and the uploader -/

theorem keepsOff_clientPutObject (key : Key) (body : C) (sha256 : Blob.Digest C) :
    KeepsOff S (clientPutObject key body sha256 : Prog C String) := by
  refine keepsOff_of_files fun w => ?_
  rw [wp_clientPutObject]
  cases w.replies.head with
  | ok etag versionId => rfl
  | unreachable landed => cases landed <;> rfl
  | clientError | other => rfl

theorem keepsOff_queuedResult (item : RetryQueue.Item C) :
    KeepsOff S (queuedResult item : Prog C (PutResult C)) := by
  refine keepsOff_of_files fun w => ?_
  rw [wp_queuedResult]
  cases w.retryQueue with
  | none => rfl
  | some q =>
    by_cases hfloor : q.hardFloor ≤ q.items.length
    · simp only [if_pos hfloor]
    · simp only [if_neg hfloor]
      rfl

theorem keepsOff_streamingHead (key : Key) (sha256 : Blob.Digest C) :
    KeepsOff S (streamingHead key sha256 : Prog C (Option (PutResult C))) := by
  refine keepsOff_of_files fun w => wp_streamingHead.mpr ?_
  split
  · split
    · rfl
    · split <;> rfl
  · rfl

theorem keepsOff_streamingUpload (path : Path) (key : Key) (sha256 : Blob.Digest C) :
    KeepsOff S (streamingUpload path key sha256 : Prog C (PutResult C)) := by
  have hqueue : KeepsOff S (do
      let data ← readFile path
      queuedResult ⟨key, data, sha256⟩ : Prog C (PutResult C)) :=
    (keepsOff_readFile path).bind fun c => keepsOff_queuedResult _
  refine Eff.Keeps.tryCatch ((keepsOff_readFile path).bind fun c =>
    (keepsOff_clientPutObject key c sha256).bind fun _ => keeps_pure _) fun e => ?_
  cases e with
  | endpointConnectionError => exact hqueue
  | clientError code =>
    simp only []
    cases classify4xx code with
    | some reason => exact keeps_throw _
    | none => exact hqueue
  | _ => exact keeps_throw _

theorem keepsOff_putStreaming (path : Path) (key : Key) (sha256 : Blob.Digest C) :
    KeepsOff S (putStreaming path key sha256 : Prog C (PutResult C)) := by
  refine (keepsOff_streamingHead key sha256).bind fun skip => ?_
  cases skip with
  | some r => exact keeps_pure r
  | none => exact keepsOff_streamingUpload path key sha256

/-! ## the dual writer -/

theorem keepsOff_promoteAfterNasPut {source : Path} (hS : S source) (key : Key)
    (sha256 : Blob.Digest C) :
    KeepsOff S (promoteAfterNasPut source key sha256 : Prog C DualStatus) := by
  have hpromote : KeepsOff S (promoteL1 source key : Prog C _) := by
    intro w
    rcases (promoteL1_post w source key).files with hsame | ⟨herase, -⟩
    · exact AgreeOff.of_eq hsame
    · show AgreeOff S w.files ((promoteL1 source key) w).2.files
      rw [herase]
      exact AgreeOff.erase (S := S) hS w.files
  refine Eff.Keeps.tryCatch (hpromote.bind fun _ => keeps_pure _) fun e => ?_
  cases e with
  | promotionVerifyError why =>
    refine Eff.Keeps.bind (keepsOff_of_files fun w => ?_) fun _ => keeps_pure _
    exact wp_mono (enqueueRetryFile_post w source) fun _ _ h => h.2
  | fileNotFoundError | sameFileError | osError => exact keeps_pure _
  | _ => exact keeps_throw _

theorem keepsOff_rollingBack {tmp : Path} (hS : S tmp) {m : Prog C α} (h : KeepsOff S m) :
    KeepsOff S (rollingBack tmp m) :=
  h.tryCatch fun _ => (keepsOff_unlinkMissingOk hS).bind fun _ => keeps_throw _

/-- **`write` touches its target, the temporary copy and the file to be deleted.** -/
theorem keepsOff_write {localPath source : Path} (hlocal : S localPath)
    (htmp : S (tmpPath localPath)) (hsource : S source) (key : Key) (data : Path)
    (sha256 : Blob.Digest C) :
    KeepsOff S (write localPath key (.file data) sha256 (some source) :
      Prog C (DualWriteResult C)) := by
  have hprepare :
      KeepsOff S (prepare localPath key (.file data) sha256 : Prog C (PutResult C)) := by
    refine (keepsOff_readFile data).bind fun c => ?_
    split
    · exact keeps_throw _
    · exact (keepsOff_rollingBack htmp (keepsOff_copy2 htmp)).bind fun _ =>
        keepsOff_rollingBack htmp (keepsOff_putStreaming data key sha256)
  have hcommit : KeepsOff S (do
      replace (tmpPath localPath) localPath
      promoteAfterNasPut source key sha256 : Prog C DualStatus) :=
    (keepsOff_replace htmp hlocal).bind fun _ => keepsOff_promoteAfterNasPut hsource key sha256
  refine hprepare.bind fun r => Eff.Keeps.bind ?_ fun _ => keeps_pure _
  cases r.status with
  | uploaded | skippedIdempotent | skippedEtagOverwrite => exact hcommit
  | queued => exact (keepsOff_replace htmp hlocal).bind fun _ => keeps_pure _
  | hardFloorBlocked => exact (keepsOff_unlinkMissingOk htmp).bind fun _ => keeps_pure _

/-! ## put_l1 -/

/-- The changes `put_l1` of a file `c` can make: the file may go, and its object under
`key` may be replaced by `c`. -/
structure PutL1Frame (w w' : World C) (path : Path) (key : Key) (c : C) : Prop where
  files : w'.files = w.files ∨ w'.files = w.files.erase path
  elsewhere : ∀ k, k ≠ key → w'.nas.lookup k = w.nas.lookup k
  atKey : w'.nas.lookup key = w.nas.lookup key ∨ StoredAt w' key c
  truthful : Truthful w'

variable {w : World C} {path : Path} {key : Key} {c : C}

/-- The switch on the uploader's status keeps the bucket, and deletes at most the file. -/
theorem finishL1_files (w : World C) (path : Path) (key : Key) (sha256 : Blob.Digest C)
    (status : RetryQueue.PutStatus) :
    wp (finishL1 path key sha256 status) (fun _ w' => w'.nas = w.nas ∧
      (w'.files = w.files ∨ w'.files = w.files.erase path)) w := by
  have hpromote : wp (promoteAfterNasPut path key sha256) (fun _ w' => w'.nas = w.nas ∧
      (w'.files = w.files ∨ w'.files = w.files.erase path)) w := by
    refine wp_and (wp_mono (promoteAfterNasPut_post w path) fun _ _ h => h.1) ?_
    refine wp_catch (P := fun _ w' => w'.files = w.files ∨ w'.files = w.files.erase path) ?_
      (fun _ _ h => h) ?_
    · have hdelete := wp_mono (promoteL1_post w path key)
        (R := fun _ w' => w'.files = w.files ∨ w'.files = w.files.erase path)
        fun _ _ h => h.files.imp_right And.left
      exact wp_seq hdelete (fun _ _ h => h) fun _ _ h => h
    · intro e w₁ h
      cases e with
      -- enqueueing for another try touches no file
      | promotionVerifyError why =>
        have hkeep : ∀ w₂ : World C, w₂.files = w₁.files →
            (w₂.files = w.files ∨ w₂.files = w.files.erase path) := fun w₂ heq => heq ▸ h
        exact wp_seq (enqueueRetryFile_post w₁ path) (fun _ w₂ h' => hkeep w₂ h'.2)
          fun _ w₂ h' => hkeep w₂ h'.2
      | fileNotFoundError | sameFileError | osError => exact h
      | _ => exact h
  cases status with
  | uploaded | skippedIdempotent | skippedEtagOverwrite => exact hpromote
  | queued | hardFloorBlocked => exact ⟨rfl, Or.inl rfl⟩

theorem putL1_frame (hT : Truthful w) (hkey : buildNasKey path (some "L1") = some key)
    (hc : w.files.lookup path = some c) :
    wp (putL1 path) (fun _ w' => PutL1Frame w w' path key c) w := by
  unfold putL1
  rw [hkey]
  refine (wp_bind _ _).mpr ((wp_readFile hc).mpr ?_)
  refine wp_seq (putStreaming_post hT hc) (fun r w₁ h => ?_) fun e w₁ h => ?_
  · have hpost : ∀ w₂ : World C, w₂.nas = w₁.nas →
        (w₂.files = w₁.files ∨ w₂.files = w₁.files.erase path) → PutL1Frame w w₂ path key c := by
      intro w₂ hnas hfiles
      refine ⟨h.frame.files ▸ hfiles, fun k hk => ?_, ?_, ?_⟩
      · rw [hnas]
        exact h.frame.elsewhere k hk
      · rw [hnas]
        exact h.frame.atKey.imp_right fun hst => hst.of_nas hnas
      · intro k o s ho
        rw [hnas] at ho
        exact h.frame.truthful hT k o s ho
    exact wp_seq (finishL1_files w₁ path key _ r.status) (fun _ w₂ h₂ => hpost w₂ h₂.1 h₂.2)
      fun _ w₂ h₂ => hpost w₂ h₂.1 h₂.2
  · exact ⟨Or.inl h.frame.files, h.frame.elsewhere, h.frame.atKey, h.frame.truthful hT⟩

end MctraderData.Nas
