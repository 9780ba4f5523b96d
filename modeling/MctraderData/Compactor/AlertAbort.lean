import MctraderData.Compactor.Runner

/-!
# mctrader-data — an alert and the pass it happens in

`_dispatch_dual_write` raises a `NASOperationalAlert` again, so that the pass is aborted
and an operator looks at it. Its callers are the loop bodies of `_run_l2` and `_run_l3`,
which log every exception and go on. This module lists the uploads of a pass, each with
the state it is issued in, and says what an abort would be.

## Results

* `runL2ForParquet_result`, `runL3ForParquet_result` — an alert leaves the loop body.
* `forwardPass_run` — a pass makes all its calls, each in the state the one before left.
* `pass_aborts_iff` — a pass aborts on an alert exactly when there is none.
* `alert_does_not_abort` — two uploads, the first refused with a 403.
-/

namespace MctraderData.Compactor

open Lib Eff
open Nas

variable {W R : Type} [Blob (Content W R)]

/-! ## the uploads of a pass -/

/-- A dual write that is issued: the file, and the state in which it is. -/
abbrev Upload (W R : Type) [Blob (Content W R)] := Path × World (Content W R)

/-- The upload of a compaction, if it has an output. -/
def uploadAfter (compact : Prog (Content W R) (Option Path)) (w : World (Content W R)) :
    Option (Upload W R) :=
  match compact w with
  | (.ok (some path), w') => some (path, w')
  | _ => none

/-- The state after a list of calls, each of which may have raised. -/
def afterCalls {κ : Type} (f : κ → Prog (Content W R) Unit) (ks : List κ)
    (w : World (Content W R)) : World (Content W R) :=
  ks.foldl (fun w k => (f k).after w) w

/-- The uploads of a list of calls, each made in the state the one before left, whether
it returned or raised. -/
def attemptUploads {κ : Type} (f : κ → Prog (Content W R) Unit)
    (upload : κ → World (Content W R) → Option (Upload W R)) :
    List κ → World (Content W R) → List (Upload W R)
  | [], _ => []
  | k :: ks, w => (upload k w).toList ++ attemptUploads f upload ks ((f k).after w)

/-- The uploads of the channel loop. -/
def passUploads {κ : Type} (env : Env R) (f : κ → Prog (Content W R) Unit)
    (upload : κ → World (Content W R) → Option (Upload W R)) (calls : Partition → List κ)
    (tier : String) (today : Int) :
    List String → World (Content W R) → List (Upload W R)
  | [], _ => []
  | channel :: rest, w =>
    let ks := (forwardPartitions env w channel today tier).flatMap calls
    attemptUploads f upload ks w ++
      passUploads env f upload calls tier today rest ((attemptAll f ks).after w)

section

variable [Timed R] (env : Env R)

/-- The upload of `_run_l2_for_parquet`, after the sentinel. -/
def l2Upload (call : Partition × Nat) (w : World (Content W R)) : Option (Upload W R) :=
  uploadAfter (do
    touchSentinel (forwardSentinel env w call.1)
    compactHour env true call.1 call.2) w

/-- The upload of `_run_l3_for_parquet`. -/
def l3Upload (p : Partition) : World (Content W R) → Option (Upload W R) :=
  uploadAfter (compactDay env true p)

/-- The uploads `_run_l2` issues, in their order. -/
def l2Uploads (today : Int) : World (Content W R) → List (Upload W R) :=
  passUploads env (fun call => runL2ForParquet env call.1 call.2) (l2Upload env) hourCalls "L1"
    today channelsForL2

/-- The uploads `_run_l3` issues, in their order. -/
def l3Uploads (today : Int) : World (Content W R) → List (Upload W R) :=
  passUploads env (runL3ForParquet env) (l3Upload env) (fun p => [p]) "L2" today channelsForL2

end

/-! ## a call and its upload -/

variable {compact : Prog (Content W R) (Option Path)} {w : World (Content W R)}

theorem uploadAfter_eq_some {u : Upload W R} :
    uploadAfter compact w = some u ↔ compact w = (.ok (some u.1), u.2) := by
  unfold uploadAfter
  rcases compact w with ⟨_ | (_ | path), w'⟩ <;> simp [Prod.ext_iff]

/-- A compaction with an output, and the dual write of it. -/
theorem compactAndDispatch_of_upload {tier : String} {u : Upload W R}
    (h : uploadAfter compact w = some u) :
    compactAndDispatch compact tier w = dispatchDualWrite u.1 tier u.2 :=
  bind_ok (uploadAfter_eq_some.mp h)

section

variable [Timed R] {env : Env R} {w : World (Content W R)} {u : Upload W R}

/-- What the dual write of an L3 call returns or raises, the call does. -/
theorem runL3ForParquet_result {p : Partition} (h : l3Upload env p w = some u) :
    (runL3ForParquet env p).result w = (dispatchDualWrite u.1 "L3").result u.2 :=
  congrArg Prod.fst (compactAndDispatch_of_upload h)

omit [Timed R] in
theorem touchSentinel_ok (sentinel : Option Path) (w : World (Content W R)) :
    ∃ w', touchSentinel sentinel w = (.ok (), w') := by
  cases sentinel with
  | none => exact ⟨w, rfl⟩
  | some sentinel =>
    refine (?_ : wp (touchSentinel (some sentinel)) (fun r s => ∃ w', (r, s) = (.ok (), w')) w)
    unfold touchSentinel touch
    simp only [mkdir, wp_bind, wp_modify, wp_get]
    split <;> exact ⟨_, rfl⟩

omit [Timed R] in
theorem unlinkSentinel_ok (sentinel : Option Path) (w : World (Content W R)) :
    ∃ w', unlinkSentinel sentinel w = (.ok (), w') := by
  cases sentinel with
  | none => exact ⟨w, rfl⟩
  | some sentinel => exact ⟨_, rfl⟩

/-- What the dual write of an L2 call returns or raises, the call does: the `finally`
only removes the sentinel. -/
theorem runL2ForParquet_result {p : Partition} {hourUtc : Nat}
    (h : l2Upload env (p, hourUtc) w = some u) :
    (runL2ForParquet env p hourUtc).result w = (dispatchDualWrite u.1 "L2").result u.2 := by
  obtain ⟨w₁, htouch⟩ := touchSentinel_ok (forwardSentinel env w p) w
  have hcompact : compactHour env true p hourUtc w₁ = (.ok (some u.1), u.2) := by
    rw [← uploadAfter_eq_some.mp h]
    exact (bind_ok (f := fun _ => compactHour env true p hourUtc) htouch).symm
  have hdispatch : compactAndDispatch (compactHour env true p hourUtc) "L2" w₁ =
      dispatchDualWrite u.1 "L2" u.2 :=
    compactAndDispatch_of_upload (uploadAfter_eq_some.mpr hcompact)
  refine (?_ : wp (runL2ForParquet env p hourUtc)
    (fun r _ => r = (dispatchDualWrite u.1 "L2").result u.2) w)
  unfold runL2ForParquet
  rw [wp_bind, wp_get]
  refine wp_bind_ok htouch (wp_seq
    (P := fun r _ => r = (dispatchDualWrite u.1 "L2").result u.2) ?_ ?_ fun _ _ h => h)
  · refine wp_catch (P := fun r w' => (r, w') = dispatchDualWrite u.1 "L2" u.2) hdispatch
      (fun _ _ h => congrArg Prod.fst h) fun e w' h => ?_
    obtain ⟨w'', hunlink⟩ := unlinkSentinel_ok (forwardSentinel env w p) w'
    exact wp_bind_ok hunlink ((wp_throw e).mpr (congrArg Prod.fst h))
  · intro _ w' h
    obtain ⟨w'', hunlink⟩ := unlinkSentinel_ok (forwardSentinel env w p) w'
    exact (congrArg Prod.fst hunlink).trans h

end

/-! ## a pass goes on -/

section

variable {κ : Type} {f : κ → Prog (Content W R) Unit}

theorem attemptAll_run (ks : List κ) (w : World (Content W R)) :
    attemptAll f ks w = (.ok ks, afterCalls f ks w) := by
  induction ks generalizing w with
  | nil => rfl
  | cons k ks ih =>
    have hk : (tryCatch (f k) fun _ => pure () : Prog (Content W R) Unit) w =
        (.ok (), (f k).after w) := by
      refine wp_catch (Q := fun r w' => (r, w') = (.ok (), (f k).after w))
        (P := fun _ w' => w' = (f k).after w) rfl ?_ ?_
      · rintro - w' rfl
        rfl
      · rintro e w' rfl
        rfl
    exact (bind_ok hk).trans (bind_ok (ih _))

theorem attemptUploads_append (upload : κ → World (Content W R) → Option (Upload W R))
    (ks ks' : List κ) (w : World (Content W R)) :
    attemptUploads f upload (ks ++ ks') w =
      attemptUploads f upload ks w ++ attemptUploads f upload ks' (afterCalls f ks w) := by
  induction ks generalizing w with
  | nil => rfl
  | cons k ks ih =>
    show (upload k w).toList ++ attemptUploads f upload (ks ++ ks') ((f k).after w) = _
    rw [ih, ← List.append_assoc]
    rfl

/-- The calls of a pass: those of the partitions that are found, channel by channel, where each
channel is looked at in the state after the calls of the channels before it. -/
def passCalls (env : Env R) (f : κ → Prog (Content W R) Unit) (calls : Partition → List κ)
    (tier : String) (today : Int) : List String → World (Content W R) → List κ
  | [], _ => []
  | channel :: rest, w =>
    let ks := (forwardPartitions env w channel today tier).flatMap calls
    ks ++ passCalls env f calls tier today rest (afterCalls f ks w)

/-- **A pass goes on.** It returns, whatever its calls raise; the calls are made one after the
other, each in the state the one before left; and its uploads are theirs. -/
theorem forwardPass_run (env : Env R)
    (upload : κ → World (Content W R) → Option (Upload W R)) (calls : Partition → List κ)
    (tier : String) (today : Int) (channels : List String) (w : World (Content W R)) :
    forwardPass env f calls tier today channels w =
        (.ok (passCalls env f calls tier today channels w),
          afterCalls f (passCalls env f calls tier today channels w) w) ∧
      passUploads env f upload calls tier today channels w =
        attemptUploads f upload (passCalls env f calls tier today channels w) w := by
  induction channels generalizing w with
  | nil => exact ⟨rfl, rfl⟩
  | cons channel rest ih =>
    let ks := (forwardPartitions env w channel today tier).flatMap calls
    let later := passCalls env f calls tier today rest (afterCalls f ks w)
    have hks := attemptAll_run (f := f) ks w
    obtain ⟨hlater, huploads⟩ := ih (afterCalls f ks w)
    have hafter : afterCalls f (ks ++ later) w = afterCalls f later (afterCalls f ks w) :=
      List.foldl_append
    constructor
    · show forwardPass env f calls tier today (channel :: rest) w =
        (.ok (ks ++ later), afterCalls f (ks ++ later) w)
      rw [hafter]
      exact (bind_ok rfl).trans ((bind_ok hks).trans (bind_ok hlater))
    · show attemptUploads f upload ks w ++
        passUploads env f upload calls tier today rest ((attemptAll f ks).after w) =
          attemptUploads f upload (ks ++ later) w
      rw [show (attemptAll f ks).after w = afterCalls f ks w from congrArg Prod.snd hks, huploads,
        attemptUploads_append]

end

/-! ## aborting -/

/-- `except NASOperationalAlert` -/
def IsAlert : Exn → Prop
  | .nasOperationalAlert .. => True
  | _ => False

/-- The dual write raises a `NASOperationalAlert`. -/
def RaisesAlert (tier : String) (u : Upload W R) : Prop :=
  ∃ e, IsAlert e ∧ (dispatchDualWrite u.1 tier).result u.2 = .error e

/-- An upload that raises an alert is the last one of its pass, and the pass raises
that alert. -/
def AbortsOnAlert {α : Type} (tier : String) (uploads : List (Upload W R))
    (result : Except Exn α) : Prop :=
  ∀ before u later e, uploads = before ++ u :: later → IsAlert e →
    (dispatchDualWrite u.1 tier).result u.2 = .error e → later = [] ∧ result = .error e

/-- What never raises can abort only if it is never asked to. -/
theorem abortsOnAlert_of_returns {α : Type} {tier : String} {uploads : List (Upload W R)} {a : α} :
    AbortsOnAlert tier uploads (.ok a) ↔ ∀ u ∈ uploads, ¬ RaisesAlert tier u := by
  constructor
  · rintro h u hu ⟨e, halert, hraise⟩
    obtain ⟨before, later, hsplit⟩ := List.append_of_mem hu
    cases (h before u later e hsplit halert hraise).2
  · intro h before u later e hsplit halert hraise
    refine absurd ⟨e, halert, hraise⟩ (h u ?_)
    rw [hsplit]
    exact List.mem_append_right before List.mem_cons_self

/-- **An alert never aborts a pass.** In every state, for every list of partitions found
there and all answers of the NAS: an L2 pass, and an L3 pass, stops at an upload that
raises an alert and lets the alert out exactly when none of its uploads raises one. -/
theorem pass_aborts_iff [Timed R] (env : Env R) (today : Int) (w : World (Content W R)) :
    (AbortsOnAlert "L2" (l2Uploads env today w) ((runL2 env today).result w) ↔
      ∀ u ∈ l2Uploads env today w, ¬ RaisesAlert "L2" u) ∧
    (AbortsOnAlert "L3" (l3Uploads env today w) ((runL3 env today).result w) ↔
      ∀ u ∈ l3Uploads env today w, ¬ RaisesAlert "L3" u) := by
  obtain ⟨calls2, hrun2, -⟩ := runL2_calls env w today
  obtain ⟨calls3, hrun3, -⟩ := runL3_calls env w today
  rw [hrun2, hrun3]
  exact ⟨abortsOnAlert_of_returns, abortsOnAlert_of_returns⟩

/-! ## two symbols, the first refused -/

/-- An L2 file of a symbol. -/
def l2FileOf (symbol : String) : Path :=
  ["market", "transaction", "schema_version=tick.v1", "tier=L2", "exchange=b", "symbol=" ++ symbol,
    "date=1", "part-0.parquet"]

/-- The L3 file of a symbol. -/
def l3FileOf (symbol : String) : Path :=
  ["market", "transaction", "schema_version=tick.v1", "tier=L3", "exchange=b", "symbol=" ++ symbol,
    "date=1", "node=MERGED", "part-0123456789abcdef.parquet"]

/-- The L2 files of two symbols, on the disk and on NAS. The listing and the read for the
first symbol and the HEAD of its upload are answered, the PUT is refused with a 403, and
everything after it is answered. -/
def refusedOnce : World (Content Int Int) where
  files := List.toAList [⟨l2FileOf "A", .text ""⟩, ⟨l2FileOf "B", .text ""⟩]
  dirs := []
  nas := List.toAList
    [⟨l2FileOf "A", .parquet ⟨"", [[1]], true⟩, none, "", none⟩,
      ⟨l2FileOf "B", .parquet ⟨"", [[2]], true⟩, none, "", none⟩]
  retryQueue := none
  replies := .cons (.ok "etag" none) (.cons (.ok "etag" none) (.cons (.ok "etag" none)
    (.cons (.clientError "403") (.const (.ok "etag" none)))))
  unlinkFaults := .const false

/-- The first upload of the pass raises the alert, the second one is issued nevertheless
and returns, and so does the pass. -/
theorem alert_does_not_abort :
    ∃ u v, l3Uploads tallyEnv 1 refusedOnce = [u, v] ∧
      (dispatchDualWrite u.1 "L3").result u.2 =
        .error (.nasOperationalAlert "403" "policy_denied" u.1) ∧
      (dispatchDualWrite v.1 "L3").result v.2 = .ok () ∧
      (∃ calls, (runL3 tallyEnv 1).result refusedOnce = .ok calls) ∧
      ¬ AbortsOnAlert "L3" (l3Uploads tallyEnv 1 refusedOnce)
        ((runL3 tallyEnv 1).result refusedOnce) := by
  have hresults : (l3Uploads tallyEnv 1 refusedOnce).map
      (fun u => (u.1, (dispatchDualWrite u.1 "L3").result u.2)) =
      [(l3FileOf "A", .error (.nasOperationalAlert "403" "policy_denied" (l3FileOf "A"))),
        (l3FileOf "B", .ok ())] := by decide +kernel
  obtain ⟨u, v, huploads⟩ : ∃ u v, l3Uploads tallyEnv 1 refusedOnce = [u, v] :=
    List.length_eq_two.mp (by simpa using congrArg List.length hresults)
  rw [huploads] at hresults ⊢
  simp only [List.map_cons, List.map_nil, List.cons.injEq, Prod.mk.injEq, and_true] at hresults
  obtain ⟨⟨hu, hraise⟩, -, hreturn⟩ := hresults
  rw [← hu] at hraise
  obtain ⟨calls, hcalls, -⟩ := runL3_calls tallyEnv refusedOnce 1
  refine ⟨u, v, rfl, hraise, hreturn, ⟨calls, hcalls⟩, fun habort => ?_⟩
  cases (habort [] u [v] (.nasOperationalAlert "403" "policy_denied" u.1) rfl trivial hraise).1

end MctraderData.Compactor
