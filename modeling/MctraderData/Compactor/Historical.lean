import MctraderData.Compactor.Discovery

/-!
# mctrader-data — reclaim after the historical promotion

Model of `compactor/historical_reclaim.py`: once a partition of a date was promoted, its local L1
files are deleted, if

* NAS lists some object in the L2 prefix of the date, and
* a local L2 date directory exists.

A sentinel file says that it was done. Logs and metrics are left out.

## Results

* `nasListsAny_post` — what the listing before the reclaim says.
* `reclaimFiles_removes` — the deletion adds no file but the sentinel, and without a refused
  `unlink` no part file is left.
-/

namespace MctraderData.Compactor

open Lib Eff
open Nas

variable {W R : Type} [Blob (Content W R)]

/-! ## reclaim_partition_l1_local -/

/-- `ReclaimOutcome.outcome` -/
inductive ReclaimStatus where
  | ok
  | skipSentinel
  | skipTodayWindow
  | skipForwardInFlight
  | skipNasMissing
  | failVerify
deriving DecidableEq, Repr

/-- `ReclaimOutcome`; of the error texts only the paths are kept. -/
structure ReclaimOutcome where
  outcome : ReclaimStatus
  filesUnlinked : Nat := 0
  bytesFreed : Nat := 0
  errors : List Path := []

/-- `_write_sentinel_atomic` -/
def writeSentinelAtomic (sentinel : Path) : Prog (Content W R) Unit := do
  mkdir sentinel.dropLast
  writeFile sentinel (.text "")

/-- `f.stat().st_size` and `f.unlink()`. -/
def statAndUnlink (path : Path) : Prog (Content W R) Nat := do
  let c ← readFile path
  unlink path
  pure (Blob.size c)

/-- The unlink loop; an `OSError` keeps its file and goes on. -/
def unlinkL1Files : List Path → ReclaimOutcome → Prog (Content W R) ReclaimOutcome
  | [], r => pure r
  | path :: rest, r => do
    let r' ← tryCatch (do
      let size ← statAndUnlink path
      pure { r with filesUnlinked := r.filesUnlinked + 1, bytesFreed := r.bytesFreed + size }) fun
      | .fileNotFoundError => pure r
      | e => if e.isOSError then pure { r with errors := r.errors ++ [path] } else throw e
    unlinkL1Files rest r'

/-- `list_prefix_count(prefix, max_keys=1)` -/
def listPrefixCount (pfx : Key) : Prog (Content W R) Nat := do
  let keys ← clientListObjects pfx
  pure (min keys.length 1)

/-- The date directories of one partition under any schema version. -/
def partitionDirs (env : Env R) (w : World (Content W R)) (p : Partition) (tier : String) :
    List Path :=
  (dateDirs w p.channel tier).filter fun dir =>
    dir.drop 4 == ["exchange=" ++ p.exchange, "symbol=" ++ p.symbol,
      "date=" ++ env.isoformat p.dateUtc]

/-- `l1_date_dirs[0]`, or the canonical directory. -/
def reclaimDir (env : Env R) (w : World (Content W R)) (p : Partition) : Path :=
  (partitionDirs env w p "L1").headD
    (p.tierDir env ((schemaVersion p.channel).getD "v1") "L1")

/-- The part of the reclaim that deletes. -/
def reclaimFiles (dateDir : Path) : Prog (Content W R) ReclaimOutcome := do
  let w ← get
  if w.dirExists dateDir then
    let r ← unlinkL1Files (rglobParts w dateDir) { outcome := .ok }
    writeSentinelAtomic (dateDir ++ [".l1-promoted"])
    pure r
  else
    writeSentinelAtomic (dateDir ++ [".l1-promoted"])
    pure { outcome := .ok }

/-- Whether NAS lists an object under the prefix; `none` is a listing that failed with
a `ClientError` or `BotoCoreError`. -/
def nasListsAny (pfx : Key) : Prog (Content W R) (Option Bool) :=
  tryCatch (do
    let n ← listPrefixCount pfx
    pure (some (decide (0 < n)))) fun _ => pure none

/-- `reclaim_partition_l1_local` -/
def reclaimPartitionL1Local (env : Env R) (p : Partition) (nowSnapshot : Int) :
    Prog (Content W R) ReclaimOutcome := do
  let w ← get
  let dateDir := reclaimDir env w p
  if (w.files.lookup (dateDir ++ [".l1-promoted"])).isSome then
    pure { outcome := .skipSentinel }
  else if nowSnapshot - 1 ≤ p.dateUtc then
    pure { outcome := .skipTodayWindow }
  else if (w.files.lookup (dateDir ++ [".forward-processing"])).isSome then
    pure { outcome := .skipForwardInFlight }
  else do
    let listed ← nasListsAny (p.tierDir env ((schemaVersion p.channel).getD "v1") "L2")
    match listed with
    | none => pure { outcome := .failVerify }
    | some false => pure { outcome := .skipNasMissing }
    | some true =>
      if partitionDirs env w p "L2" = [] then pure { outcome := .failVerify }
      else reclaimFiles dateDir

/-! ## specifications -/

section

variable {w : World (Content W R)}

theorem writeSentinelAtomic_post (sentinel : Path) :
    wp (writeSentinelAtomic sentinel) (fun r w' => r = .ok () ∧
      w'.files = w.files.insert sentinel (.text "") ∧ w'.nas = w.nas) w :=
  ⟨rfl, rfl, rfl⟩

/-- The listing before the reclaim; if it is answered, it says whether the prefix has
an object. -/
theorem nasListsAny_post (pfx : Key) :
    wp (nasListsAny pfx) (fun r w' => SameButReplies w w' ∧ ∃ o, r = .ok o ∧
      (Answering w.replies → o = some (decide (w.nas.keys.filter pfx.isPrefixOf ≠ [])))) w := by
  refine wp_catch (P := fun r w' => SameButReplies w w' ∧ match r with
    | .ok o => o = some (decide (w.nas.keys.filter pfx.isPrefixOf ≠ []))
    | .error _ => ¬ Answering w.replies) ?_ ?_ ?_
  · unfold listPrefixCount
    rw [wp_bind, wp_bind]
    refine wp_request_of ⟨.next w, ?_⟩ fun e hno => ⟨.next w, hno⟩
    have hlen : (sortKeys (w.nas.keys.filter pfx.isPrefixOf)).length =
        (w.nas.keys.filter pfx.isPrefixOf).length :=
      (List.perm_insertionSort _ _).length_eq
    refine congrArg some (decide_eq_decide.mpr ?_)
    show 0 < min (sortKeys (w.nas.keys.filter pfx.isPrefixOf)).length 1 ↔ _
    rw [hlen, ← List.length_pos_iff]
    omega
  · rintro o w₁ ⟨hsame, rfl⟩
    exact ⟨hsame, _, rfl, fun _ => rfl⟩
  · rintro e w₁ ⟨hsame, hno⟩
    exact ⟨hsame, none, rfl, fun hans => absurd hans hno⟩

/-- No file was added, at most one `unlink` was made, and if that one is not refused,
the file is gone. -/
structure Unlinked (w w' : World (Content W R)) (path : Path) : Prop where
  removed : w.unlinkFaults.head = false → w'.files.lookup path = none
  others : ∀ path', w.files.lookup path' = none → w'.files.lookup path' = none
  faults : ∃ k ≤ 1, w'.unlinkFaults = w.unlinkFaults.drop k

theorem statAndUnlink_removes (path : Path) :
    wp (statAndUnlink path) (fun r w' => (∀ e, r = .error e → e.isOSError = true) ∧
      Unlinked w w' path) w := by
  unfold statAndUnlink
  cases hc : w.files.lookup path with
  | none =>
    refine (wp_bind _ _).mpr ((wp_readFile_none hc).mpr ?_)
    exact ⟨fun e he => by cases he; rfl, fun _ => hc, fun _ h => h, 0, by decide, rfl⟩
  | some c =>
    refine (wp_bind _ _).mpr ((wp_readFile hc).mpr ?_)
    simp only [unlink, wp_bind, wp_get, wp_set]
    cases hfault : w.unlinkFaults.head with
    | true =>
      refine ⟨fun e he => by cases he; rfl, fun hno => ?_, fun _ h => h, 1, by decide, rfl⟩
      simp [hfault] at hno
    | false =>
      simp only [Bool.false_eq_true, if_false, hc]
      refine ⟨fun e he => (by cases he), fun _ => AList.lookup_erase _ _, fun path' h => ?_, 1,
        by decide, rfl⟩
      by_cases heq : path' = path
      · rw [heq]
        exact AList.lookup_erase _ _
      · exact (AList.lookup_erase_ne heq).trans h

/-- The loop returns and adds no file; when no `unlink` of it is refused, every listed
file is gone. -/
theorem unlinkL1Files_removes {paths : List Path} (r : ReclaimOutcome) :
    wp (unlinkL1Files paths r) (fun res w' =>
      (∃ r', res = .ok r' ∧ r'.outcome = r.outcome) ∧
      (∀ path, w.files.lookup path = none → w'.files.lookup path = none) ∧
      ((∀ i < paths.length, w.unlinkFaults.get i = false) →
        ∀ path ∈ paths, w'.files.lookup path = none)) w := by
  induction paths generalizing w r with
  | nil => exact ⟨⟨r, rfl, rfl⟩, fun _ h => h, nofun⟩
  | cons path rest ih =>
    have hstep : wp (tryCatch (do
        let size ← statAndUnlink path
        pure { r with filesUnlinked := r.filesUnlinked + 1, bytesFreed := r.bytesFreed + size }) fun
        | .fileNotFoundError => pure r
        | e => if e.isOSError then pure { r with errors := r.errors ++ [path] } else throw e)
        (fun res w' => (∃ r', res = .ok r' ∧ r'.outcome = r.outcome) ∧ Unlinked w w' path) w := by
      refine wp_catch (P := fun res w' => match res with
        | .ok r' => r'.outcome = r.outcome ∧ Unlinked w w' path
        | .error e => e.isOSError = true ∧ Unlinked w w' path) ?_ ?_ ?_
      · exact wp_seq (statAndUnlink_removes path) (fun _ _ h => ⟨rfl, h.2⟩) fun e _ h =>
          ⟨h.1 e rfl, h.2⟩
      · exact fun r' w₁ h => ⟨⟨r', rfl, h.1⟩, h.2⟩
      · rintro e w₁ ⟨hos, h⟩
        cases e with
        | fileNotFoundError => exact ⟨⟨r, rfl, rfl⟩, h⟩
        | sameFileError | osError => exact ⟨⟨_, rfl, rfl⟩, h⟩
        | _ => cases hos
    refine wp_seq hstep ?_ ?_
    swap
    · rintro e w₁ ⟨⟨r', hr', -⟩, -⟩
      cases hr'
    rintro r₁ w₁ ⟨⟨r', hr', houtcome⟩, hremoved, hothers, k, hk, hfaults⟩
    cases hr'
    refine wp_mono (ih r₁) fun res w₂ ⟨⟨r₂, hok, houtcome₂⟩, hothers₂, hrest⟩ =>
      ⟨⟨r₂, hok, houtcome₂.trans houtcome⟩, fun path' h => hothers₂ path' (hothers path' h), ?_⟩
    intro hgood
    refine List.forall_mem_cons.mpr ⟨hothers₂ path (hremoved (hgood 0 (Nat.succ_pos _))), ?_⟩
    refine hrest fun i hi => ?_
    -- the remaining calls are among the next ones of the stream
    rw [hfaults]
    exact hgood (i + k) (by rw [List.length_cons]; omega)

/-- Without the directory there is nothing in it. -/
theorem rglobParts_of_not_dirExists {dir : Path} (h : w.dirExists dir = false) :
    rglobParts w dir = [] := by
  refine List.filter_eq_nil_iff.mpr fun path hpath hglob => ?_
  rw [Bool.and_eq_true] at hglob
  have hexists : w.dirExists dir = true := by
    unfold World.dirExists
    rw [Bool.or_eq_true, List.any_eq_true, List.any_eq_true]
    exact Or.inr ⟨path, hpath, hglob.1⟩
  simp [h] at hexists

/-- The deletion returns `ok` and adds no file but the sentinel; when no `unlink` of it
is refused, every part file of the directory is gone. -/
theorem reclaimFiles_removes (dateDir : Path) :
    wp (reclaimFiles dateDir) (fun r w' => (∃ o, r = .ok o ∧ o.outcome = .ok) ∧
      (∀ path, path ≠ dateDir ++ [".l1-promoted"] → w.files.lookup path = none →
        w'.files.lookup path = none) ∧
      ((∀ i < (rglobParts w dateDir).length, w.unlinkFaults.get i = false) →
        ∀ path ∈ rglobParts w dateDir, w'.files.lookup path = none)) w := by
  unfold reclaimFiles
  rw [wp_bind, wp_get]
  simp only []
  cases hdir : w.dirExists dateDir with
  | false =>
    refine wp_seq (writeSentinelAtomic_post _) ?_ fun _ _ h => by cases h.1
    rintro - w₁ ⟨-, hfiles, -⟩
    refine (wp_pure _).mpr ⟨⟨_, rfl, rfl⟩, fun path hne h => ?_, fun _ path hpath => ?_⟩
    · rw [hfiles, AList.lookup_insert_ne hne]
      exact h
    · simp [rglobParts_of_not_dirExists hdir] at hpath
  | true =>
    simp only [if_true]
    refine wp_seq (unlinkL1Files_removes _) ?_ ?_
    swap
    · rintro e w₁ ⟨⟨_, hr, -⟩, -⟩
      cases hr
    rintro r w₁ ⟨⟨r', hr, houtcome⟩, hothers, hremoved⟩
    cases hr
    refine wp_seq (writeSentinelAtomic_post _) ?_ fun _ _ h => by cases h.1
    rintro - w₂ ⟨-, hfiles, -⟩
    refine (wp_pure r).mpr
      ⟨⟨r, rfl, houtcome⟩, fun path hne h => ?_, fun hgood path hpath => ?_⟩
    · rw [hfiles, AList.lookup_insert_ne hne]
      exact hothers path h
    · rw [hfiles, AList.lookup_insert_ne]
      · exact hremoved hgood path hpath
      · -- the sentinel is no part file
        intro heq
        have hpart := (mem_rglobParts.mp hpath).2.2
        rw [heq, List.getLastD_concat] at hpart
        exact absurd hpart (by decide)

end

end MctraderData.Compactor
