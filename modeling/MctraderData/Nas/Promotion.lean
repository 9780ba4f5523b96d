import MctraderData.Nas.Uploader

/-!
# mctrader-data — promotion: verify on NAS, then delete locally

Model of `compactor/promotion.py` (`promote_l1`) and of the sweep that applies it
to every local parquet file, `scan_and_cleanup_legacy` of `compactor/runner.py`.

The verification compares the object's sha256 metadata with the file's hash when
the object carries such metadata, its length always, and repeats the HEAD before
the unlink. An object without metadata is compared by length only.

## Results

* `promoteL1_post` — `promote_l1` changes nothing but the local file, and deletes
  it only after the comparison succeeded.
* `promotion_deletes_only_verified` — the same for every file a sweep deletes.
-/

namespace MctraderData.Nas

open Lib Eff

variable {C : Type} [Blob C]

/-! ## definitions -/

inductive PromotionStatus where
  | promoted
  | alreadyPromoted
deriving DecidableEq, Repr

/-- `PromotionResult`, without the `segment_id` that only the log reads. -/
structure PromotionResult where
  status : PromotionStatus
  nasKey : Key
  localPath : Path
  versionId : Option String
  etag : String
deriving DecidableEq, Repr

/-- The loop of `_head_with_retry` with `n` attempts left. -/
def headLoop (key : Key) : Nat → Prog C (Head C)
  | 0 => throw (.promotionVerifyError .headUnreachable)
  | n + 1 => tryCatch (headObject key) fun
    | .clientError code =>
      throw (.promotionVerifyError (if code = "404" then .head404 else .headClientError code))
    | .endpointConnectionError => headLoop key n
    | e => throw e

/-- `_head_with_retry`: the initial attempt and `_HEAD_RETRY_COUNT = 1` retry. -/
def headWithRetry (key : Key) : Prog C (Head C) := headLoop key 2

/-- `promote_l1` -/
def promoteL1 (path : Path) (key : Key) : Prog C PromotionResult := do
  match (← get).files.lookup path with
  | none =>
    let h ← headWithRetry key
    pure ⟨.alreadyPromoted, key, path, h.versionId, h.etag⟩
  | some _ =>
    let h ← headWithRetry key
    let c ← readFile path
    if h.sha256 ≠ none ∧ h.sha256 ≠ some (Blob.sha256 c) then
      throw (.promotionVerifyError .sha256Mismatch)
    else if h.contentLength ≠ Blob.size c then
      throw (.promotionVerifyError .contentLengthMismatch)
    else
      let guardHead ← headWithRetry key
      if guardHead.etag ≠ h.etag ∨ guardHead.contentLength ≠ h.contentLength then
        throw (.promotionVerifyError .guardMismatch)
      else
        unlink path
        pure ⟨.promoted, key, path, h.versionId, h.etag⟩

/-- The counters `scan_and_cleanup_legacy` returns. -/
structure CleanupStats where
  cleaned : Nat := 0
  preserved : Nat := 0
  errors : Nat := 0
deriving DecidableEq, Repr

/-- One file of the sweep: promote it under its legacy key and count. -/
def cleanupOne (parquet : Path) (st : CleanupStats) : Prog C CleanupStats :=
  match buildLegacyNasKey parquet with
  | none => throw .valueError
  | some key =>
    tryCatch (do
      let _ ← promoteL1 parquet key
      pure { st with cleaned := st.cleaned + 1 }) fun
      | .promotionVerifyError _ => pure { st with preserved := st.preserved + 1 }
      | .fileNotFoundError => pure st
      | e => if e.isOSError ∨ e = .runtimeError then pure { st with errors := st.errors + 1 }
        else throw e

/-- The loop of the sweep, which stops at the batch limit. -/
def cleanupLoop (batchLimit : Nat) : List Path → CleanupStats → Prog C CleanupStats
  | [], st => pure st
  | parquet :: rest, st =>
    if batchLimit ≤ st.cleaned + st.preserved + st.errors then pure st
    else do
      let st' ← cleanupOne parquet st
      cleanupLoop batchLimit rest st'

/-- `glob("market/**/*.parquet")` -/
def isMarketParquet (path : Path) : Bool :=
  path.head? = some "market" ∧ 2 ≤ path.length ∧
    ".parquet".toList.isSuffixOf (path.getLastD "").toList

/-- `scan_and_cleanup_legacy` -/
def scanAndCleanupLegacy (batchLimit : Nat) : Prog C CleanupStats := do
  cleanupLoop batchLimit ((← get).files.keys.filter isMarketParquet) {}

/-! ## specifications -/

variable {w w' : World C} {key : Key} {path : Path}

/-- A HEAD changes nothing, and what it reports is the object at the key. -/
structure HeadPost (w : World C) (key : Key) (r : Except Exn (Head C)) (w' : World C) : Prop where
  same : SameButReplies w w'
  found : ∀ h, r = .ok h → ∃ o, w.nas.lookup key = some o ∧ h = o.head

theorem headLoop_post (n : Nat) : wp (headLoop key n) (HeadPost w key) w := by
  induction n generalizing w with
  | zero => exact ⟨.refl w, fun h hr => by cases hr⟩
  | succ n ih =>
    have hraise : ∀ e, HeadPost w key (.error e) w.next :=
      fun e => ⟨.next w, fun h hr => by cases hr⟩
    rw [headLoop, wp_tryCatch, headObject, wp_bind, wp_clientHeadObject]
    cases ho : w.headAnswer key with
    | ok o =>
      refine ⟨.next w, fun h hr => ⟨o, World.lookup_of_headAnswer ho, ?_⟩⟩
      exact (Except.ok.inj hr).symm
    | error e =>
      cases e with
      | endpointConnectionError =>
        refine wp_mono (ih (w := w.next)) fun r w' h => ⟨?_, h.found⟩
        exact (SameButReplies.next w).trans h.same
      | _ => exact hraise _

/-- What the comparison of `promote_l1` establishes about a file and an object. -/
structure Verified (o : Obj C) (c : C) : Prop where
  length : Blob.size o.body = Blob.size c
  sha256 : ∀ s, o.sha256 = some s → s = Blob.sha256 c

/-- With honest metadata, an object that carries a hash has the file's bytes. -/
theorem Verified.same_bytes {o : Obj C} {c : C} (h : Verified o c) (hT : Truthful w)
    (ho : w.nas.lookup key = some o) (hsome : o.sha256.isSome) : o.body = c := by
  obtain ⟨s, hs⟩ := Option.isSome_iff_exists.mp hsome
  have hbody := hT key o s ho hs
  have hfile := h.sha256 s hs
  exact Blob.sha256_injective (hbody.symm.trans hfile)

/-- What `promote_l1` can do to the world. -/
structure PromotePost (w : World C) (path : Path) (key : Key) (w' : World C) : Prop where
  nas : w'.nas = w.nas
  queue : w'.retryQueue = w.retryQueue
  files : w'.files = w.files ∨ w'.files = w.files.erase path ∧
    ∃ c o, w.files.lookup path = some c ∧ w.nas.lookup key = some o ∧ Verified o c

theorem SameButReplies.promotePost (h : SameButReplies w w') : PromotePost w path key w' := by
  obtain ⟨n, rfl⟩ := h
  exact ⟨rfl, rfl, Or.inl rfl⟩

/-- The two comparisons of `promote_l1`, when neither raises. -/
theorem verified_of_checks {o : Obj C} {c : C}
    (hsha : ¬ (o.head.sha256 ≠ none ∧ o.head.sha256 ≠ some (Blob.sha256 c)))
    (hlen : ¬ o.head.contentLength ≠ Blob.size c) : Verified o c where
  length := not_not.mp hlen
  sha256 s hs := by
    by_contra hne
    have hhead : o.head.sha256 = some s := hs
    refine hsha ⟨?_, ?_⟩
    · rw [hhead]
      exact Option.some_ne_none s
    · rw [hhead]
      exact fun heq => hne (Option.some.inj heq)

/-- **`promote_l1` deletes only what it verified**, and nothing else changes. -/
theorem promoteL1_post (w : World C) (path : Path) (key : Key) :
    wp (promoteL1 path key) (fun _ w' => PromotePost w path key w') w := by
  have hhead : ∀ w₁ : World C, wp (headWithRetry key) (HeadPost w₁ key) w₁ :=
    fun w₁ => headLoop_post 2
  rw [promoteL1, wp_bind, wp_get]
  simp only []
  cases hc : w.files.lookup path with
  | none =>
    exact wp_seq (hhead w) (fun hd w₁ h => h.same.promotePost)
      (fun e w₁ h => h.same.promotePost)
  | some c =>
    refine wp_seq (hhead w) (fun hd w₁ h => ?_) (fun e w₁ h => h.same.promotePost)
    obtain ⟨o, ho, rfl⟩ := h.found hd rfl
    have hc₁ : w₁.files.lookup path = some c := h.same.files ▸ hc
    refine (wp_bind _ _).mpr ((wp_readFile hc₁).mpr ?_)
    by_cases hsha : o.head.sha256 ≠ none ∧ o.head.sha256 ≠ some (Blob.sha256 c)
    · simp only [if_pos hsha]
      exact h.same.promotePost
    by_cases hlen : o.head.contentLength ≠ Blob.size c
    · simp only [if_neg hsha, if_pos hlen]
      exact h.same.promotePost
    simp only [if_neg hsha, if_neg hlen]
    refine wp_seq (hhead w₁) (fun guardHead w₂ h₂ => ?_)
      (fun e w₂ h₂ => (h.same.trans h₂.same).promotePost)
    have hsame : SameButReplies w w₂ := h.same.trans h₂.same
    by_cases hguard : guardHead.etag ≠ o.head.etag ∨ guardHead.contentLength ≠ o.head.contentLength
    · simp only [if_pos hguard]
      exact hsame.promotePost
    simp only [if_neg hguard]
    have hpost : PromotePost w path key w₂ := hsame.promotePost
    refine (wp_bind _ _).mpr (wp_unlink (hsame.files ▸ hc) ?_ ?_)
    · refine ⟨hpost.nas, hpost.queue, Or.inr ⟨?_, c, o, hc, ho, verified_of_checks hsha hlen⟩⟩
      show w₂.files.erase path = w.files.erase path
      rw [hsame.files]
    · exact ⟨hpost.nas, hpost.queue, Or.inl hsame.files⟩

/-! ## the sweep -/

/-- The files that are gone were verified under their legacy key, and the others
are as before. -/
structure SweepPost (w w' : World C) : Prop where
  nas : w'.nas = w.nas
  files : ∀ p, w'.files.lookup p = w.files.lookup p ∨ w'.files.lookup p = none ∧
    ∃ c key o, w.files.lookup p = some c ∧ buildLegacyNasKey p = some key ∧
      w.nas.lookup key = some o ∧ Verified o c

theorem SweepPost.refl (w : World C) : SweepPost w w := ⟨rfl, fun _ => Or.inl rfl⟩

variable {w₁ : World C}

theorem SweepPost.promote {w₂ : World C} (h : SweepPost w w₁)
    (hkey : buildLegacyNasKey path = some key) (hp : PromotePost w₁ path key w₂) :
    SweepPost w w₂ := by
  refine ⟨hp.nas.trans h.nas, fun p => ?_⟩
  rcases hp.files with hsame | ⟨herase, c, o, hc, ho, hver⟩
  · rw [hsame]
    exact h.files p
  · rw [herase]
    by_cases hpath : p = path
    · subst hpath
      refine Or.inr ⟨AList.lookup_erase .., c, key, o, ?_, hkey, h.nas ▸ ho, hver⟩
      rcases h.files p with heq | ⟨hgone, -⟩
      · exact heq ▸ hc
      · simp [hgone] at hc
    · rw [AList.lookup_erase_ne hpath]
      exact h.files p

theorem cleanupOne_post (h : SweepPost w w₁) (parquet : Path) (st : CleanupStats) :
    wp (cleanupOne parquet st) (fun _ w₂ => SweepPost w w₂) w₁ := by
  unfold cleanupOne
  cases hkey : buildLegacyNasKey parquet with
  | none => exact h
  | some key =>
    refine wp_catch (P := fun _ w₂ => SweepPost w w₂) ?_ (fun _ _ h₂ => h₂) ?_
    · refine wp_seq (promoteL1_post w₁ parquet key) ?_ ?_
      · exact fun _ w₂ h₂ => h.promote hkey h₂
      · exact fun _ w₂ h₂ => h.promote hkey h₂
    · -- every handler only counts
      intro e w₂ h₂
      cases e <;> simp only [Exn.isOSError] <;> exact h₂

theorem cleanupLoop_post (batchLimit : Nat) (l : List Path) (h : SweepPost w w₁)
    (st : CleanupStats) : wp (cleanupLoop batchLimit l st) (fun _ w₂ => SweepPost w w₂) w₁ := by
  induction l generalizing w₁ st with
  | nil => exact h
  | cons parquet rest ih =>
    rw [cleanupLoop]
    by_cases hlimit : batchLimit ≤ st.cleaned + st.preserved + st.errors
    · rw [if_pos hlimit]
      exact h
    · rw [if_neg hlimit]
      exact wp_seq (cleanupOne_post h parquet st) (fun st' w₂ h₂ => ih h₂ st')
        (fun _ _ h₂ => h₂)

theorem scanAndCleanupLegacy_post (w : World C) (batchLimit : Nat) :
    wp (scanAndCleanupLegacy batchLimit) (fun _ w' => SweepPost w w') w := by
  exact cleanupLoop_post batchLimit _ (SweepPost.refl w) {}

/-- **Deletion soundness.** A local file that `promote_l1`, or a sweep, deletes has
an object at its key of the same length, and with exactly the same bytes whenever
the object carries sha256 metadata. -/
theorem promotion_deletes_only_verified (w : World C) (hT : Truthful w) :
    (∀ (path : Path) (key : Key) (c : C), w.files.lookup path = some c →
      ((promoteL1 path key).after w).files.lookup path = none →
      ∃ o, ((promoteL1 path key).after w).nas.lookup key = some o ∧
        Blob.size o.body = Blob.size c ∧ (o.sha256.isSome → o.body = c)) ∧
    (∀ (batchLimit : Nat) (path : Path) (c : C), w.files.lookup path = some c →
      ((scanAndCleanupLegacy batchLimit).after w).files.lookup path = none →
      ∃ key o, buildLegacyNasKey path = some key ∧
        ((scanAndCleanupLegacy batchLimit).after w).nas.lookup key = some o ∧
        Blob.size o.body = Blob.size c ∧ (o.sha256.isSome → o.body = c)) := by
  constructor
  · intro path key c hc hgone
    have hpost : PromotePost w path key ((promoteL1 path key).after w) := promoteL1_post w path key
    rcases hpost.files with hsame | ⟨-, c', o, hc', ho, hver⟩
    · simp [hsame, hc] at hgone
    · rw [hc, Option.some.injEq] at hc'
      subst hc'
      exact ⟨o, hpost.nas ▸ ho, hver.length, fun hsome => hver.same_bytes hT ho hsome⟩
  · intro batchLimit path c hc hgone
    have hpost : SweepPost w ((scanAndCleanupLegacy batchLimit).after w) :=
      scanAndCleanupLegacy_post w batchLimit
    rcases hpost.files path with hsame | ⟨-, c', key, o, hc', hkey, ho, hver⟩
    · simp [hsame, hc] at hgone
    · rw [hc, Option.some.injEq] at hc'
      subst hc'
      exact ⟨key, o, hkey, hpost.nas ▸ ho, hver.length, fun hsome => hver.same_bytes hT ho hsome⟩

/-- One L1 file, one object at its legacy key, every request answered. -/
def oneFileWorld (content : String) (o : Obj String) : World String where
  files := AList.singleton ["market", "tier=L1", "a.parquet"] content
  nas := AList.singleton ["l1", "market", "tier=L1", "a.parquet"] o
  retryQueue := none
  replies := Stream'.const (.ok "etag" none)
  dirs := []
  unlinkFaults := Stream'.const false

/-- The sweep does delete a file whose object matches. -/
theorem promotion_deletes_verified_file :
    ((scanAndCleanupLegacy 1).after
        (oneFileWorld "AAAA" ⟨"AAAA", some "AAAA", "e", none⟩)).files.lookup
        ["market", "tier=L1", "a.parquet"] = none ∧
      ∃ key o, buildLegacyNasKey ["market", "tier=L1", "a.parquet"] = some key ∧
        ((scanAndCleanupLegacy 1).after
          (oneFileWorld "AAAA" ⟨"AAAA", some "AAAA", "e", none⟩)).nas.lookup key = some o ∧
        Blob.size o.body = Blob.size "AAAA" ∧ (o.sha256.isSome → o.body = "AAAA") := by
  have hgone : ((scanAndCleanupLegacy 1).after
      (oneFileWorld "AAAA" ⟨"AAAA", some "AAAA", "e", none⟩)).files.lookup
      ["market", "tier=L1", "a.parquet"] = none := by decide
  exact ⟨hgone, (promotion_deletes_only_verified _
    (truthful_singleton rfl fun s hs => (Option.some.inj hs).symm)).2 1 _ "AAAA" rfl hgone⟩

/-- An object without sha256 metadata is compared by length alone: `promote_l1`
deletes the only copy of `AAAA` while the object holds `BBBB`. -/
theorem promotion_deletes_unequal_bytes :
    Truthful (oneFileWorld "AAAA" ⟨"BBBB", none, "e", none⟩) ∧
      (oneFileWorld "AAAA" ⟨"BBBB", none, "e", none⟩).files.lookup
        ["market", "tier=L1", "a.parquet"] = some "AAAA" ∧
      ((promoteL1 ["market", "tier=L1", "a.parquet"]
          ["l1", "market", "tier=L1", "a.parquet"]).after
        (oneFileWorld "AAAA" ⟨"BBBB", none, "e", none⟩)).files.lookup
        ["market", "tier=L1", "a.parquet"] = none ∧
      ¬ HoldsNas ((promoteL1 ["market", "tier=L1", "a.parquet"]
          ["l1", "market", "tier=L1", "a.parquet"]).after
        (oneFileWorld "AAAA" ⟨"BBBB", none, "e", none⟩))
        ["l1", "market", "tier=L1", "a.parquet"] "AAAA" := by
  refine ⟨truthful_singleton rfl (by simp), rfl, by decide, ?_⟩
  rintro ⟨o, ho, hbody⟩
  have hstored : some "BBBB" = some o.body := congrArg (Option.map Obj.body) ho
  rw [hbody] at hstored
  exact absurd hstored (by decide)

end MctraderData.Nas
