import Mathlib.Algebra.Order.Floor.Div
import Mathlib.GroupTheory.GroupAction.Ring
import MctraderData.Lib.BoundedSweep
import MctraderData.Nas.Promotion

/-!
# mctrader-data — how fast the legacy sweep clears the disk

`scan_and_cleanup_legacy` stops after `batch_limit` files and keeps no cursor: the next
call lists the tree again and counts on the removed files being gone. A file whose
verification fails is not removed, so it takes a place in every call that lists it early.

In which order `glob` lists the tree is up to the file system, and it may change from
call to call (`Relisted`). The sweep is the one of `Lib.BoundedSweep`.

## Results

* `scanAndCleanupLegacy_sweeps` — a call removes the matching files among the first
  `batch_limit` it lists.
* `legacyCleanup_bounded_iff` — when `⌈(n + m) / b⌉` calls clear all `n` matching files.
-/

namespace MctraderData.Nas

open Lib Eff

variable {C : Type} [Blob C]

/-! ## definitions -/

/-- The files a sweep lists, in the order of the listing. -/
def World.marketFiles (w : World C) : List Path := w.files.keys.filter isMarketParquet

/-- The NAS object of the file matches it: the comparisons of `promote_l1` succeed. -/
def verifies (w : World C) (path : Path) : Bool :=
  match w.files.lookup path, (buildLegacyNasKey path).bind fun key => w.nas.lookup key with
  | some c, some o =>
    decide (o.sha256 = none ∨ o.sha256 = some (Blob.sha256 c)) &&
      decide (Blob.size o.body = Blob.size c)
  | _, _ => false

/-- The number of files whose NAS object matches. -/
def matching (w : World C) : ℕ := w.marketFiles.countP (verifies w)

/-- The number of files whose verification fails. -/
def failing (w : World C) : ℕ := w.marketFiles.countP fun path => !verifies w path

/-- Every request is answered, and the operating system refuses no `unlink`. -/
structure Undisturbed (w : World C) : Prop where
  replies : Answering w.replies
  unlinks : ∀ n, w.unlinkFaults.get n = false

/-- The same tree, listed in another order. -/
def Relisted (w w' : World C) : Prop :=
  ∃ files : AList fun _ : Path => C, files.entries.Perm w.files.entries ∧
    w' = { w with files := files }

/-- `w'` is `w` after some calls of the sweep, each on a listing of its own. -/
inductive Cleanups (batchLimit : ℕ) : ℕ → World C → World C → Prop where
  | none (w : World C) : Cleanups batchLimit 0 w w
  | call {n : ℕ} {w w₁ w₂ : World C} : Cleanups batchLimit n w w₁ → Relisted w₁ w₂ →
      Cleanups batchLimit (n + 1) w ((scanAndCleanupLegacy batchLimit).after w₂)

/-! ## one file -/

section

variable {w w' : World C} {key : Key} {path : Path} {c : C}

theorem Undisturbed.next (h : Undisturbed w) : Undisturbed w.next := ⟨h.replies.tail, h.unlinks⟩

/-- An answered `_head_with_retry`. -/
theorem wp_headWithRetry {Q : Except Exn (Head C) → World C → Prop} (h : Undisturbed w) :
    wp (headWithRetry key) Q w ↔
      match w.nas.lookup key with
      | some o => Q (.ok o.head) w.next
      | none => Q (.error (.promotionVerifyError .head404)) w.next := by
  rw [headWithRetry, headLoop, wp_tryCatch, headObject, wp_bind, wp_clientHeadObject,
    World.headAnswer, h.replies.failure]
  cases w.nas.lookup key <;> rfl

variable (h : Undisturbed w) (hc : w.files.lookup path = some c)
include h hc

/-- An `unlink` of a present file that is not refused. -/
theorem wp_unlink_undisturbed {Q : Except Exn Unit → World C → Prop} :
    wp (unlink path) Q w ↔
      Q (.ok ()) { w with files := w.files.erase path, unlinkFaults := w.unlinkFaults.tail } := by
  have hhead : w.unlinkFaults.head = false := h.unlinks 0
  simp only [unlink, wp_bind, wp_get, wp_set, hhead, Bool.false_eq_true, if_false, hc,
    wp_modify]

/-- `promote_l1` on a file that is there, by the object at its key. -/
theorem wp_promoteL1 {Q : Except Exn PromotionResult → World C → Prop} :
    wp (promoteL1 path key) Q w ↔
      match w.nas.lookup key with
      | none => Q (.error (.promotionVerifyError .head404)) w.next
      | some o =>
        if o.head.sha256 ≠ none ∧ o.head.sha256 ≠ some (Blob.sha256 c) then
          Q (.error (.promotionVerifyError .sha256Mismatch)) w.next
        else if o.head.contentLength ≠ Blob.size c then
          Q (.error (.promotionVerifyError .contentLengthMismatch)) w.next
        else Q (.ok ⟨.promoted, key, path, o.versionId, o.etag⟩)
          { w.next.next with
            files := w.files.erase path
            unlinkFaults := w.unlinkFaults.tail } := by
  rw [promoteL1, wp_bind, wp_get]
  simp only [hc]
  rw [wp_bind, wp_headWithRetry h]
  cases ho : w.nas.lookup key with
  | none => rfl
  | some o =>
    have hread : w.next.files.lookup path = some c := hc
    simp only [wp_bind, wp_readFile hread]
    by_cases hsha : o.head.sha256 ≠ none ∧ o.head.sha256 ≠ some (Blob.sha256 c)
    · simp only [if_pos hsha, wp_throw]
    by_cases hlen : o.head.contentLength ≠ Blob.size c
    · simp only [if_neg hsha, if_pos hlen, wp_throw]
    -- the guard sees the same object again
    have ho' : w.next.nas.lookup key = some o := ho
    have hguard : ¬ (o.head.etag ≠ o.head.etag ∨ o.head.contentLength ≠ o.head.contentLength) := by
      simp
    simp only [if_neg hsha, if_neg hlen, wp_bind, wp_headWithRetry h.next, ho', if_neg hguard]
    exact wp_unlink_undisturbed h.next.next hc

/-- What happens to one file: it is removed and counted if it matches, counted if not. -/
theorem cleanupOne_undisturbed (hkey : buildLegacyNasKey path = some key) (st : CleanupStats) :
    wp (cleanupOne path st) (fun r w' => Undisturbed w' ∧ w'.nas = w.nas ∧
      if verifies w path then
        r = .ok { st with cleaned := st.cleaned + 1 } ∧ w'.files = w.files.erase path
      else r = .ok { st with preserved := st.preserved + 1 } ∧ w'.files = w.files) w := by
  rw [cleanupOne, hkey]
  simp only [wp_tryCatch, wp_bind, wp_promoteL1 h hc, verifies, hc, hkey, Option.bind_some]
  cases ho : w.nas.lookup key with
  | none =>
    exact ⟨h.next, rfl, rfl, rfl⟩
  | some o =>
    by_cases hsha : o.head.sha256 ≠ none ∧ o.head.sha256 ≠ some (Blob.sha256 c)
    · have hno : ¬ (o.sha256 = none ∨ o.sha256 = some (Blob.sha256 c)) := not_or.mpr hsha
      simp only [if_pos hsha, decide_eq_false hno, Bool.false_and, Bool.false_eq_true, if_false]
      exact ⟨h.next, rfl, rfl, rfl⟩
    have hyes : o.sha256 = none ∨ o.sha256 = some (Blob.sha256 c) := by
      by_contra hno
      exact hsha (not_or.mp hno)
    by_cases hlen : o.head.contentLength ≠ Blob.size c
    · have hno : ¬ Blob.size o.body = Blob.size c := hlen
      simp only [if_neg hsha, if_pos hlen, decide_eq_false hno, Bool.and_false,
        Bool.false_eq_true, if_false]
      exact ⟨h.next, rfl, rfl, rfl⟩
    have hsize : Blob.size o.body = Blob.size c := not_not.mp hlen
    simp only [if_neg hsha, if_neg hlen, decide_eq_true hyes, decide_eq_true hsize,
      Bool.and_self, if_true]
    exact ⟨⟨h.next.next.replies, fun n => h.unlinks (n + 1)⟩, rfl, rfl, rfl⟩

end

/-! ## one call -/

/-- Exactly the files `gone` are gone. -/
structure Without (w w' : World C) (gone : List Path) : Prop where
  undisturbed : Undisturbed w'
  nas : w'.nas = w.nas
  keys : w'.files.keys = w.files.keys.filter fun path => decide (path ∉ gone)
  lookup : ∀ path ∉ gone, w'.files.lookup path = w.files.lookup path

section

variable {w w' w'' : World C}

theorem Without.refl (h : Undisturbed w) : Without w w [] :=
  ⟨h, rfl, by simp, fun _ _ => rfl⟩

variable {path : Path}

theorem Without.cons {gone : List Path} (h : Without w' w'' gone) (hnas : w'.nas = w.nas)
    (hfiles : w'.files = w.files.erase path) :
    Without w w'' (path :: gone) where
  undisturbed := h.undisturbed
  nas := h.nas.trans hnas
  keys := by
    rw [h.keys, hfiles, keys_erase_eq_filter, List.filter_filter]
    refine List.filter_congr fun p _ => ?_
    by_cases hp : p = path <;> simp [hp]
  lookup p hp := by
    obtain ⟨hne, hp⟩ := not_or.mp (fun h => hp (List.mem_cons.mpr h))
    rw [h.lookup p hp, hfiles, AList.lookup_erase_ne hne]

theorem Without.of_same {gone : List Path} (h : Without w' w'' gone) (hnas : w'.nas = w.nas)
    (hfiles : w'.files = w.files) : Without w w'' gone where
  undisturbed := h.undisturbed
  nas := h.nas.trans hnas
  keys := hfiles ▸ h.keys
  lookup := hfiles ▸ h.lookup

/-- Whether a file matches depends on the file and the bucket only. -/
theorem verifies_congr (hnas : w'.nas = w.nas)
    (hlookup : w'.files.lookup path = w.files.lookup path) :
    verifies w' path = verifies w path := by
  unfold verifies
  rw [hnas, hlookup]

theorem buildLegacyNasKey_isSome (h : isMarketParquet path) :
    ∃ key, buildLegacyNasKey path = some key := by
  have hne : path ≠ [] := by
    rintro rfl
    exact absurd h (by decide)
  unfold buildLegacyNasKey
  rw [if_neg hne]
  split
  · exact ⟨_, rfl⟩
  · exact ⟨_, rfl⟩

/-- **The loop** over a list of files that are there: what is left of the budget is spent
from the front of the list. -/
theorem cleanupLoop_undisturbed (batchLimit : ℕ) {l : List Path} (h : Undisturbed w)
    (hl : ∀ path ∈ l, isMarketParquet path ∧ path ∈ w.files) (hnodup : l.Nodup)
    (st : CleanupStats) :
    wp (cleanupLoop batchLimit l st) (fun r w' => (∃ st', r = .ok st') ∧
      Without w w'
        (swept (verifies w) (batchLimit - (st.cleaned + st.preserved + st.errors)) l)) w := by
  induction l generalizing w st with
  | nil =>
    rw [swept, List.take_nil, List.filter_nil]
    exact ⟨⟨st, rfl⟩, Without.refl h⟩
  | cons path rest ih =>
    obtain ⟨hpath, hrest⟩ := List.nodup_cons.mp hnodup
    obtain ⟨⟨hmarket, hmem⟩, hl'⟩ := List.forall_mem_cons.mp hl
    rw [cleanupLoop]
    by_cases hlimit : batchLimit ≤ st.cleaned + st.preserved + st.errors
    · rw [if_pos hlimit, Nat.sub_eq_zero_of_le hlimit, swept_zero]
      exact ⟨⟨st, rfl⟩, Without.refl h⟩
    rw [if_neg hlimit]
    obtain ⟨c, hc⟩ := exists_lookup hmem
    obtain ⟨key, hkey⟩ := buildLegacyNasKey_isSome hmarket
    obtain ⟨budget, hbudget⟩ : ∃ budget,
        batchLimit - (st.cleaned + st.preserved + st.errors) = budget + 1 :=
      ⟨_, (Nat.succ_pred_eq_of_pos (by omega)).symm⟩
    rw [hbudget, swept_succ_cons]
    refine wp_seq (cleanupOne_undisturbed h hc hkey st) ?_ ?_
    · rintro st' w₁ ⟨h₁, hnas, hone⟩
      -- the files still to come are as they were
      have hsame : ∀ p ∈ rest, w₁.files.lookup p = w.files.lookup p := by
        intro p hp
        have hne : p ≠ path := fun heq => hpath (heq ▸ hp)
        by_cases hver : verifies w path
        · rw [if_pos hver] at hone
          rw [hone.2, AList.lookup_erase_ne hne]
        · rw [if_neg hver] at hone
          rw [hone.2]
      have hl₁ : ∀ p ∈ rest, isMarketParquet p ∧ p ∈ w₁.files := fun p hp =>
        ⟨(hl' p hp).1, AList.lookup_isSome.mp (hsame p hp ▸ AList.lookup_isSome.mpr (hl' p hp).2)⟩
      have hver₁ : ∀ p ∈ rest, verifies w₁ p = verifies w p := fun p hp =>
        verifies_congr hnas (hsame p hp)
      refine wp_mono (ih h₁ hl₁ hrest st') fun r w₂ hpost => ⟨hpost.1, ?_⟩
      have hwithout := hpost.2
      rw [swept_congr hver₁] at hwithout
      by_cases hver : verifies w path
      · rw [if_pos hver] at hone ⊢
        cases hone.1
        have hleft : batchLimit - (st.cleaned + 1 + st.preserved + st.errors) = budget := by omega
        exact (hleft ▸ hwithout).cons hnas hone.2
      · rw [if_neg hver] at hone ⊢
        cases hone.1
        have hleft : batchLimit - (st.cleaned + (st.preserved + 1) + st.errors) = budget := by
          omega
        exact (hleft ▸ hwithout).of_same hnas hone.2
    · rintro e w₁ ⟨-, -, hone⟩
      split at hone
      · cases hone.1
      · cases hone.1

/-- What a call leaves of the listing. -/
structure SweptOnce (batchLimit : ℕ) (w w' : World C) : Prop where
  undisturbed : Undisturbed w'
  nas : w'.nas = w.nas
  marketFiles : w'.marketFiles = sweep (verifies w) batchLimit w.marketFiles
  lookup : ∀ path ∈ w'.marketFiles, w'.files.lookup path = w.files.lookup path

/-- **One call** removes the matching files among the first `batch_limit` of its listing. -/
theorem scanAndCleanupLegacy_sweeps (h : Undisturbed w) (batchLimit : ℕ) :
    SweptOnce batchLimit w ((scanAndCleanupLegacy batchLimit).after w) := by
  have hfiles : ∀ path ∈ w.marketFiles, isMarketParquet path ∧ path ∈ w.files := fun path hp =>
    ⟨List.of_mem_filter hp, AList.mem_keys.mpr (List.mem_of_mem_filter hp)⟩
  have hnodup : w.marketFiles.Nodup := w.files.keys_nodup.filter _
  have hloop : wp (scanAndCleanupLegacy batchLimit) (fun _ w' =>
      Without w w' (swept (verifies w) batchLimit w.marketFiles)) w := by
    rw [scanAndCleanupLegacy, wp_bind, wp_get]
    exact wp_mono (cleanupLoop_undisturbed batchLimit h hfiles hnodup {}) fun _ _ h => h.2
  have hwithout : Without w ((scanAndCleanupLegacy batchLimit).after w) _ := hloop
  have hmarket : ((scanAndCleanupLegacy batchLimit).after w).marketFiles =
      w.marketFiles.filter fun path =>
        decide (path ∉ swept (verifies w) batchLimit w.marketFiles) := by
    unfold World.marketFiles at hwithout ⊢
    rw [hwithout.keys, List.filter_filter, List.filter_filter]
    exact List.filter_congr fun _ _ => Bool.and_comm _ _
  refine ⟨hwithout.undisturbed, hwithout.nas, ?_, fun path hp => ?_⟩
  · rw [hmarket, filter_eq_sweep hnodup fun _ => decide_eq_true_iff]
  · rw [hmarket] at hp
    exact hwithout.lookup path (of_decide_eq_true (List.mem_filter.mp hp).2)

end

/-! ## many calls -/

section

variable {w w' w₁ w₂ : World C}

theorem Relisted.lookup (h : Relisted w w') (path : Path) :
    w'.files.lookup path = w.files.lookup path := by
  obtain ⟨files, hperm, rfl⟩ := h
  exact AList.perm_lookup hperm

theorem Relisted.marketFiles_perm (h : Relisted w w') : w'.marketFiles.Perm w.marketFiles := by
  obtain ⟨files, hperm, rfl⟩ := h
  exact (hperm.map Sigma.fst).filter _

theorem Relisted.undisturbed (h : Relisted w w') (hw : Undisturbed w) : Undisturbed w' := by
  obtain ⟨files, -, rfl⟩ := h
  exact ⟨hw.replies, hw.unlinks⟩

theorem Relisted.verifies (h : Relisted w w') (path : Path) :
    verifies w' path = verifies w path := by
  refine verifies_congr ?_ (h.lookup path)
  obtain ⟨files, -, rfl⟩ := h
  rfl

/-- The part of the tree that is left after some calls, as the first world saw it. -/
structure LeftOver (w w' : World C) : Prop where
  undisturbed : Undisturbed w'
  subset : ∀ path ∈ w'.marketFiles, path ∈ w.marketFiles
  verifies : ∀ path ∈ w'.marketFiles, verifies w' path = verifies w path
  failing : failing w' = failing w

theorem LeftOver.refl (h : Undisturbed w) : LeftOver w w :=
  ⟨h, fun _ hp => hp, fun _ _ => rfl, rfl⟩

theorem matching_relisted (h : Relisted w w') : matching w' = matching w := by
  unfold matching
  rw [(h.marketFiles_perm).countP_eq]
  exact List.countP_congr fun path _ => by rw [h.verifies]

theorem failing_relisted (h : Relisted w w') : failing w' = failing w := by
  unfold failing
  rw [(h.marketFiles_perm).countP_eq]
  exact List.countP_congr fun path _ => by rw [h.verifies]

section

variable {batchLimit : ℕ}

/-- The remaining files match the bucket as before. -/
theorem SweptOnce.verifies (h : SweptOnce batchLimit w w') {path : Path}
    (hp : path ∈ w'.marketFiles) : verifies w' path = verifies w path :=
  verifies_congr h.nas (h.lookup path hp)

theorem SweptOnce.matching (h : SweptOnce batchLimit w w') :
    matching w' = (sweep (Nas.verifies w) batchLimit w.marketFiles).countP (Nas.verifies w) := by
  rw [← h.marketFiles]
  exact List.countP_congr fun path hp => by rw [h.verifies hp]

theorem SweptOnce.failing (h : SweptOnce batchLimit w w') : failing w' = failing w := by
  unfold Nas.failing
  rw [← countP_bad_sweep batchLimit w.marketFiles, ← h.marketFiles]
  exact List.countP_congr fun path hp => by rw [h.verifies hp]

theorem LeftOver.call (h : LeftOver w w₁) (hre : Relisted w₁ w₂) :
    LeftOver w ((scanAndCleanupLegacy batchLimit).after w₂) := by
  have honce := scanAndCleanupLegacy_sweeps (hre.undisturbed h.undisturbed) batchLimit
  have hmem : ∀ path ∈ ((scanAndCleanupLegacy batchLimit).after w₂).marketFiles,
      path ∈ w₁.marketFiles := fun path hp =>
    hre.marketFiles_perm.mem_iff.mp (mem_of_mem_sweep (honce.marketFiles ▸ hp))
  refine ⟨honce.undisturbed, fun path hp => h.subset path (hmem path hp), fun path hp => ?_, ?_⟩
  · rw [honce.verifies hp, hre.verifies, h.verifies path (hmem path hp)]
  · rw [honce.failing, failing_relisted hre, h.failing]

/-- Every call makes room for at least `b - m` more of the matching files. -/
theorem Cleanups.progress {n : ℕ} (h : Cleanups batchLimit n w w') (hw : Undisturbed w) :
    LeftOver w w' ∧ matching w' ≤ matching w - n * (batchLimit - failing w) := by
  induction h with
  | none w => exact ⟨LeftOver.refl hw, by omega⟩
  | @call n w w₁ w₂ _ hre ih =>
    obtain ⟨hleft, hle⟩ := ih hw
    refine ⟨hleft.call hre, ?_⟩
    have hfail : Nas.failing w₂ = Nas.failing w := (failing_relisted hre).trans hleft.failing
    have hfewer : matching ((scanAndCleanupLegacy batchLimit).after w₂) ≤
        matching w₁ - (batchLimit - Nas.failing w) := by
      rw [(scanAndCleanupLegacy_sweeps (hre.undisturbed hleft.undisturbed) batchLimit).matching,
        ← matching_relisted hre, ← hfail]
      exact countP_sweep_le batchLimit w₂.marketFiles
    rw [Nat.succ_mul]
    omega

/-! ## the worst listing -/

/-- The entries of the failing files before all others. -/
def failingFirst (w : World C) : AList fun _ : Path => C where
  entries := w.files.entries.filter (fun e => !verifies w e.1) ++
    w.files.entries.filter fun e => verifies w e.1
  nodupKeys := by
    have hperm : (w.files.entries.filter (fun e => !verifies w e.1) ++
        w.files.entries.filter fun e => verifies w e.1).Perm w.files.entries := by
      simpa using List.filter_append_perm (fun e : Sigma fun _ : Path => C => !verifies w e.1)
        w.files.entries
    exact (List.perm_nodupKeys hperm).mpr w.files.nodupKeys

theorem relisted_failingFirst (w : World C) : Relisted w { w with files := failingFirst w } := by
  refine ⟨failingFirst w, ?_, rfl⟩
  simpa [failingFirst] using
    List.filter_append_perm (fun e : Sigma fun _ : Path => C => !verifies w e.1) w.files.entries

/-- In that listing a call removes no more than it has to. -/
theorem matching_after_failingFirst (h : Undisturbed w) :
    matching ((scanAndCleanupLegacy batchLimit).after { w with files := failingFirst w }) =
      matching w - (batchLimit - failing w) := by
  have hre := relisted_failingFirst w
  have hlist : ({ w with files := failingFirst w } : World C).marketFiles =
      (w.marketFiles.filter fun path => !verifies w path) ++
        w.marketFiles.filter fun path => verifies w path := by
    have hpart : ∀ q : Path → Bool,
        ((w.files.entries.filter fun e => q e.1).map Sigma.fst).filter isMarketParquet =
          w.marketFiles.filter q := by
      intro q
      have hkeys : (w.files.entries.filter fun e => q e.1).map Sigma.fst =
          w.files.keys.filter q := (List.filter_map ..).symm
      rw [hkeys, World.marketFiles, List.filter_filter, List.filter_filter]
      exact List.filter_congr fun _ _ => Bool.and_comm _ _
    rw [← hpart, ← hpart, ← List.filter_append, ← List.map_append]
    rfl
  rw [(scanAndCleanupLegacy_sweeps (hre.undisturbed h) batchLimit).matching, hlist]
  have hver : verifies ({ w with files := failingFirst w } : World C) = verifies w :=
    funext hre.verifies
  rw [hver, countP_sweep_badFirst (fun path hp => by simpa using List.of_mem_filter hp)
    fun path hp => List.of_mem_filter hp]
  rw [matching, failing, List.countP_eq_length_filter, List.countP_eq_length_filter]

/-- Calls that all meet the worst listing. -/
theorem exists_slowest (h : Undisturbed w) (batchLimit n : ℕ) :
    ∃ w', Cleanups batchLimit n w w' ∧
      matching w' = matching w - n * (batchLimit - failing w) := by
  induction n with
  | zero => exact ⟨w, .none w, by omega⟩
  | succ n ih =>
    obtain ⟨w₁, hrun, hmatching⟩ := ih
    obtain ⟨hleft, -⟩ := hrun.progress h
    refine ⟨_, hrun.call (relisted_failingFirst w₁), ?_⟩
    rw [matching_after_failingFirst hleft.undisturbed, hmatching, hleft.failing, Nat.succ_mul,
      Nat.sub_sub]

/-! ## main result -/

/-- All matching files are gone when none is left to be counted. -/
theorem LeftOver.all_gone_iff (h : LeftOver w w') :
    (∀ path ∈ w.marketFiles, Nas.verifies w path → w'.files.lookup path = none) ↔
      matching w' = 0 := by
  rw [Nas.matching, List.countP_eq_zero]
  constructor
  · intro hgone path hp hver
    rw [h.verifies path hp] at hver
    have hmem : path ∈ w'.files := AList.mem_keys.mpr (List.mem_of_mem_filter hp)
    exact AList.lookup_eq_none.mp (hgone path (h.subset path hp) hver) hmem
  · intro hnone path hp hver
    refine AList.lookup_eq_none.mpr fun hmem => ?_
    have hp' : path ∈ w'.marketFiles :=
      List.mem_filter.mpr ⟨AList.mem_keys.mp hmem, List.of_mem_filter hp⟩
    exact hnone path hp' ((h.verifies path hp').trans hver)

end

/-- **When the sweep makes the progress its batch limit promises.** With `n` matching and
`m` failing files and the limit `b`, all matching files are gone after `⌈(n + m) / b⌉`
calls, in whatever order each call lists the tree, exactly if that many calls have room
for the `n` files beside the `m` that stay. -/
theorem legacyCleanup_bounded_iff (w : World C) (h : Undisturbed w) (batchLimit : ℕ) :
    (∀ w', Cleanups batchLimit ((matching w + failing w) ⌈/⌉ batchLimit) w w' →
      ∀ path ∈ w.marketFiles, verifies w path → w'.files.lookup path = none) ↔
    matching w ≤ ((matching w + failing w) ⌈/⌉ batchLimit) * (batchLimit - failing w) := by
  constructor
  · intro hall
    obtain ⟨w', hrun, hmatching⟩ := exists_slowest h batchLimit
      ((matching w + failing w) ⌈/⌉ batchLimit)
    have hzero := (hrun.progress h).1.all_gone_iff.mp (hall w' hrun)
    omega
  · intro hroom w' hrun
    obtain ⟨hleft, hle⟩ := hrun.progress h
    exact hleft.all_gone_iff.mpr (by omega)

end

/-- A file without an object and a file with a matching one, listed in this order. -/
def starvingWorld : World String where
  files := (AList.singleton ["market", "b.parquet"] "B").insert ["market", "a.parquet"] "A"
  nas := AList.singleton ["market", "b.parquet"] ⟨"B", some "B", "e", none⟩
  retryQueue := none
  replies := Stream'.const (.ok "etag" none)
  dirs := []
  unlinkFaults := Stream'.const false

theorem starvingWorld_undisturbed : Undisturbed starvingWorld :=
  ⟨Answering.const _ _, fun _ => rfl⟩

/-- With room for two files the matching one is gone after the first call. -/
theorem legacyCleanup_clears_two : Undisturbed starvingWorld ∧
    ∀ w', Cleanups 2 ((matching starvingWorld + failing starvingWorld) ⌈/⌉ 2) starvingWorld w' →
      ∀ path ∈ starvingWorld.marketFiles, verifies starvingWorld path →
        w'.files.lookup path = none :=
  ⟨starvingWorld_undisturbed,
    (legacyCleanup_bounded_iff starvingWorld starvingWorld_undisturbed 2).mpr (by decide)⟩

/-- With a limit of one file every call looks at the file without an object: after the
two calls that should do, the matching file is still there. -/
theorem legacyCleanup_starves :
    Undisturbed starvingWorld ∧ matching starvingWorld = 1 ∧ failing starvingWorld = 1 ∧
      ∃ w', Cleanups 1 ((matching starvingWorld + failing starvingWorld) ⌈/⌉ 1) starvingWorld w' ∧
        ["market", "b.parquet"] ∈ starvingWorld.marketFiles ∧
        verifies starvingWorld ["market", "b.parquet"] = true ∧
        w'.files.lookup ["market", "b.parquet"] = some "B" := by
  have hsame : ∀ w : World String, Relisted w w := fun w => ⟨w.files, .refl _, rfl⟩
  refine ⟨starvingWorld_undisturbed, by decide, by decide, _,
    ((Cleanups.none starvingWorld).call (hsame _)).call (hsame _), by decide, by decide, by decide⟩

end MctraderData.Nas
