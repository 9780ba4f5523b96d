import MctraderData.Migration.RekeySweep

/-!
# mctrader-data — resuming a re-key migration

Whether one more undisturbed live run finishes what crashed runs have left. It does not
always: a run that finds no candidate any more leaves its manifest as it is, and exits
with an error if no entry is `done`; the last object of a migration, deleted by a run that
died before it wrote `done`, ends so. Two old keys with one partition id share one entry
and one sentinel, and a destination that holds another object stays a failure.

`CanFinish` says of the site before the run what it takes, and the run finishes exactly
then.

## Results

* `rekey_converges_iff` — when a further run finishes.
* `rekey_manifests_truthful` — what the manifests say in every reachable state.
-/

namespace MctraderData.Migration

open Lib
open Nas

variable {C : Type} [Blob C] {digest : Digest16} {cfg : RekeyConfig}

/-! ## what is asked of a run, and what it takes -/

/-- The migration of the bucket `nas₀` is finished: each candidate is at its new key only,
and every entry of the manifest is done. -/
structure Converged (cfg : RekeyConfig) (nas₀ : AList fun _ : Key => Obj C) (s : Site C) :
    Prop where
  moved : ∀ key ∈ candidates cfg nas₀, s.nas.lookup key = none ∧
    ∃ o, nas₀.lookup key = some o ∧ HoldsNas s.world (buildNewKey key) o.body
  entries : ∀ e ∈ manifestOf cfg s, e.status = .done

/-- What it takes for an undisturbed live run to finish the migration. -/
structure CanFinish (digest : Digest16) (cfg : RekeyConfig) (s : Site C) : Prop where
  /-- Without candidates the manifest says that all is done. -/
  found : candidates cfg s.nas = [] →
    manifestOf cfg s ≠ [] ∧ ∀ e ∈ manifestOf cfg s, e.status = .done
  /-- No candidate has a sentinel. -/
  fresh : ∀ key ∈ candidates cfg s.nas, ¬ Marked digest cfg s.sentinels key
  /-- An entry with the id of a candidate is about it, and is not at an end. -/
  own : ∀ key ∈ candidates cfg s.nas, ∀ e ∈ manifestOf cfg s,
    e.partitionId = buildPartitionId key → e.oldKey = key ∧ e.status.midFlight = true
  /-- Candidates have different ids. -/
  apart : ∀ key ∈ candidates cfg s.nas, ∀ key' ∈ candidates cfg s.nas,
    buildPartitionId key = buildPartitionId key' → key = key'
  /-- Every entry is done, or can be resumed. -/
  resumes : ∀ e ∈ manifestOf cfg s, e.status = .done ∨
    (e.status.midFlight = true ∧ (bucketOf s.nas).CanSettle e.line)
  /-- A candidate without an entry can be moved. -/
  moves : ∀ key ∈ candidates cfg s.nas,
    (∀ e ∈ manifestOf cfg s, e.partitionId ≠ buildPartitionId key) →
      (bucketOf s.nas).CanMove key (buildNewKey key)

variable {nas₀ : AList fun _ : Key => Obj C} {s s' : Site C} {e : PartitionEntry C} {key : Key}

/-! ## the rows a run has to settle -/

/-- After the candidates were registered, every entry is done or can be resumed, and every
candidate has an open entry of its own. -/
structure AllSettle (digest : Digest16) (cfg : RekeyConfig) (s : Site C) : Prop where
  entries : ∀ e ∈ registered digest cfg s, e.status = .done ∨
    (e.status.midFlight = true ∧ (bucketOf s.nas).CanSettle e.line)
  covered : ∀ key ∈ candidates cfg s.nas, ∃ e ∈ registered digest cfg s,
    e.status.midFlight = true ∧ e.oldKey = key

theorem not_midFlight_done : Status.done.midFlight ≠ true := by decide

/-- What the manifest must be like before the candidates are registered. -/
theorem AllSettle.canFinish (hok : ManifestOk nas₀ s.nas (registered digest cfg s))
    (h : AllSettle digest cfg s) (hwork : candidates cfg s.nas ≠ []) : CanFinish digest cfg s := by
  have hfresh : ∀ key ∈ candidates cfg s.nas, ¬ Marked digest cfg s.sentinels key := by
    intro key hkey hmarked
    obtain ⟨e, he, hmid, rfl⟩ := h.covered key hkey
    have hdone : e.status = .done := populate_done hkey hmarked he (hok.entries e he).partitionId
    rw [hdone] at hmid
    exact not_midFlight_done hmid
  -- the open entry of a candidate is the only one with its id
  have hown : ∀ key ∈ candidates cfg s.nas, ∀ e ∈ registered digest cfg s,
      e.partitionId = buildPartitionId key → e.oldKey = key ∧ e.status.midFlight = true := by
    intro key hkey e he hid
    obtain ⟨e', he', hmid, rfl⟩ := h.covered key hkey
    have heq : e' = e := List.inj_on_of_nodup_map hok.nodup he' he
      ((hok.entries e' he').partitionId.trans hid.symm)
    subst heq
    exact ⟨rfl, hmid⟩
  have hsubset : manifestOf cfg s ⊆ registered digest cfg s := subset_populate hfresh
  refine ⟨fun hnone => absurd hnone hwork, hfresh, ?_, ?_, ?_, ?_⟩
  · intro key hkey e he
    exact hown key hkey e (hsubset he)
  · intro key hkey key' hkey' hid
    obtain ⟨e, he, -, rfl⟩ := h.covered key hkey
    have hpid : e.partitionId = buildPartitionId key' := (hok.entries e he).partitionId.trans hid
    exact (hown key' hkey' e he hpid).1
  · intro e he
    exact h.entries e (hsubset he)
  · intro key hkey hnew
    obtain ⟨e, he, hid⟩ : ∃ e ∈ registered digest cfg s, e.partitionId = buildPartitionId key :=
      exists_mem_populate hfresh hkey
    obtain ⟨hold, hmid⟩ := hown key hkey e he hid
    have hpending : e = pendingEntry key := by
      rcases mem_populate hfresh he with hmem | ⟨k, hk, rfl, -⟩
      · exact absurd hid (hnew e hmem)
      · exact congrArg pendingEntry hold
    rcases h.entries e he with hdone | ⟨-, hsettles⟩
    · rw [hdone] at hmid
      exact absurd hmid not_midFlight_done
    · rw [hpending] at hsettles
      exact hsettles

theorem CanFinish.allSettle (h : CanFinish digest cfg s) : AllSettle digest cfg s where
  entries := by
    intro e he
    rcases mem_populate h.fresh he with hmem | ⟨k, hk, rfl, hnew⟩
    · exact h.resumes e hmem
    · exact Or.inr ⟨rfl, h.moves k hk hnew⟩
  covered := by
    intro key hkey
    obtain ⟨e, he, hid⟩ : ∃ e ∈ registered digest cfg s, e.partitionId = buildPartitionId key :=
      exists_mem_populate h.fresh hkey
    refine ⟨e, he, ?_⟩
    rcases mem_populate h.fresh he with hmem | ⟨k, hk, rfl, -⟩
    · obtain ⟨hold, hmid⟩ := h.own key hkey e hmem hid
      exact ⟨hmid, hold⟩
    · exact ⟨rfl, h.apart k hk key hkey hid⟩

/-! ## a run with candidates -/

section

variable (hok : ManifestOk nas₀ s.nas (registered digest cfg s))
  (hswept : Swept digest cfg (reachedLines digest cfg s) (s.begun digest cfg) (s'.view cfg))

include hok hswept in
/-- If the manifest ends all done, every entry was done or could be resumed. -/
theorem entries_of_done (hdone : ∀ e ∈ manifestOf cfg s', e.status = .done) :
    ∀ e ∈ registered digest cfg s, e.status = .done ∨
      (e.status.midFlight = true ∧ (bucketOf s.nas).CanSettle e.line) := by
  intro e he
  have hline : (bucketOf s.nas).outcome (reachedLines digest cfg s) e.line ∈
      (manifestOf cfg s').map PartitionEntry.line := by
    rw [manifestOf_swept hswept]
    exact List.mem_map_of_mem he
  obtain ⟨e', he', heq⟩ := List.mem_map.mp hline
  have hstatus : ((bucketOf s.nas).outcome (reachedLines digest cfg s) e.line).status = .done := by
    rw [← heq]
    exact hdone e' he'
  rcases Bucket.outcome_cases (b := bucketOf s.nas) (reachedLines digest cfg s) e.line with
    ⟨l, hl, hid, houtcome⟩ | ⟨-, houtcome⟩
  · rw [houtcome] at hstatus
    obtain ⟨hmid, rfl⟩ := eq_line_of_partitionId hok (mem_openLines_of_reached hl) he hid
    have hne := (line_ok hok he).oldKey_ne_newKey
    exact Or.inr ⟨hmid, (Bucket.verdict_eq_done hne).mp hstatus⟩
  · rw [houtcome] at hstatus
    exact Or.inl hstatus

include hok hswept in
/-- If a candidate is gone at the end, it had an open entry. -/
theorem covered_of_gone (hkey : key ∈ candidates cfg s.nas) (hgone : s'.nas.lookup key = none) :
    ∃ e ∈ registered digest cfg s, e.status.midFlight = true ∧ e.oldKey = key := by
  have hthere : bucketOf s.nas key ≠ none := by
    intro hnone
    rw [bucketOf_eq_none] at hnone
    have hsome := (mem_candidates.mp hkey).1.2
    simp [hnone] at hsome
  have howned : ∃ l ∈ reachedLines digest cfg s, l.Owns key := by
    by_contra hnot
    push Not at hnot
    have hsame : bucketOf s'.nas key = bucketOf s.nas key := hswept.elsewhere key hnot
    rw [bucketOf_eq_none.mpr hgone] at hsame
    exact hthere hsame.symm
  obtain ⟨l, hl, howns⟩ := howned
  obtain ⟨e, he, hmid, rfl⟩ := mem_openLines.mp (mem_openLines_of_reached hl)
  have hline := line_ok hok he
  refine ⟨e, he, hmid, ?_⟩
  rcases howns with rfl | hnew
  · rfl
  · rw [hline.newKey] at hnew
    exact absurd hnew (ne_buildNewKey (legacy_of_candidate hkey) hline.legacy)

end

section

variable (h : AllSettle digest cfg s) (hok : ManifestOk nas₀ s.nas (registered digest cfg s))
include h hok

/-- If everything can be settled, the batch comes to every open row. -/
theorem AllSettle.reachedLines_eq :
    reachedLines digest cfg s = openLines digest cfg s ∧
      ∀ l ∈ openLines digest cfg s, (bucketOf s.nas).verdict l = .done := by
  have hverdict : ∀ l ∈ openLines digest cfg s, (bucketOf s.nas).verdict l = .done := by
    intro l hl
    obtain ⟨e, he, hmid, rfl⟩ := mem_openLines.mp hl
    have hne := (line_ok hok he).oldKey_ne_newKey
    rcases h.entries e he with hdone | ⟨-, hsettles⟩
    · rw [hdone] at hmid
      exact absurd hmid not_midFlight_done
    · exact (Bucket.verdict_eq_done hne).mpr hsettles
  refine ⟨?_, hverdict⟩
  unfold reachedLines
  rw [reached_of_not_fails]
  intro l hl
  unfold Bucket.fails
  rw [hverdict l hl]
  rfl

/-- **A run that can settle everything finishes the migration.** -/
theorem AllSettle.converged (hmarkers : ∀ k, Sealed k → s.nas.lookup k = nas₀.lookup k)
    (hlive : cfg.dryRun = false)
    (hswept : Swept digest cfg (reachedLines digest cfg s) (s.begun digest cfg) (s'.view cfg))
    (hinv' : Inv nas₀ s') (htruthful : ∀ key o sha, nas₀.lookup key = some o →
      o.sha256 = some sha → sha = Blob.sha256 o.body) : Converged cfg nas₀ s' := by
  obtain ⟨hreached, hverdict⟩ := h.reachedLines_eq hok
  have hentries := manifestOf_swept hswept
  rw [hreached] at hswept hentries
  -- the old key of a settled row is empty
  have herased : ∀ l ∈ openLines digest cfg s, bucketOf s'.nas l.oldKey = none := by
    intro l hl
    have hown : bucketOf s'.nas l.oldKey = (bucketOf s.nas).settled cfg.dryRun l l.oldKey :=
      hswept.own l hl _ (Or.inl rfl)
    rw [hown]
    unfold Bucket.settled
    rw [if_pos ⟨hverdict l hl, hlive⟩, Function.update_self]
  refine ⟨?_, ?_⟩
  · intro key hkey
    have hlegacy := legacy_of_candidate hkey
    have hgone : bucketOf s'.nas key = none := by
      by_cases howned : ∃ l ∈ openLines digest cfg s, l.oldKey = key
      · obtain ⟨l, hl, rfl⟩ := howned
        exact herased l hl
      · have hnot : ∀ l ∈ openLines digest cfg s, ¬ l.Owns key := by
          intro l hl howns
          rcases howns with heq | heq
          · exact howned ⟨l, hl, heq.symm⟩
          · have hline := openLines_ok hok l hl
            rw [hline.newKey] at heq
            exact ne_buildNewKey hlegacy hline.legacy heq
        have hsame : bucketOf s'.nas key = bucketOf s.nas key := hswept.elsewhere key hnot
        rw [hsame, bucketOf_eq_none]
        by_contra hthere
        -- a candidate that is still there has an open row
        have hcandidate := mem_candidates_of_markers hmarkers hkey
          (Option.isSome_iff_ne_none.mpr hthere)
        obtain ⟨e, he, hmid, rfl⟩ := h.covered key hcandidate
        exact howned ⟨e.line, mem_openLines.mpr ⟨e, he, hmid, rfl⟩, rfl⟩
    rw [bucketOf_eq_none] at hgone
    refine ⟨hgone, ?_⟩
    obtain ⟨o, ho⟩ := Option.isSome_iff_exists.mp (mem_candidates.mp hkey).1.2
    refine ⟨o, ho, ?_⟩
    rcases hinv'.legacy key hlegacy with hsame | ⟨-, hcopied⟩
    · simp [hgone, ho] at hsame
    · exact hinv'.holds htruthful ho hcopied
  · intro e' he'
    have hline : e'.line ∈ (manifestOf cfg s').map PartitionEntry.line := List.mem_map_of_mem he'
    rw [hentries] at hline
    obtain ⟨e, he, heq⟩ := List.mem_map.mp hline
    have hstatus : e'.status =
        ((bucketOf s.nas).outcome (openLines digest cfg s) e.line).status := by
      rw [heq]
      rfl
    rw [hstatus]
    rcases Bucket.outcome_cases (b := bucketOf s.nas) (openLines digest cfg s) e.line with
      ⟨l, hl, -, houtcome⟩ | ⟨hnot, houtcome⟩
    · rw [houtcome]
      exact hverdict l hl
    · rw [houtcome]
      rcases h.entries e he with hdone | ⟨hmid, -⟩
      · exact hdone
      · exact absurd rfl (hnot e.line (mem_openLines.mpr ⟨e, he, hmid, rfl⟩))

end

/-! ## every history -/

/-- A candidate of a later bucket was one of the first. -/
theorem candidate_of_inv (hinv : Inv nas₀ s)
    (hmarkers : ∀ k, Sealed k → s.nas.lookup k = nas₀.lookup k)
    (hkey : key ∈ candidates cfg s.nas) : key ∈ candidates cfg nas₀ := by
  obtain ⟨o, ho⟩ := Option.isSome_iff_exists.mp (mem_candidates.mp hkey).1.2
  refine mem_candidates_of_markers (fun k hk => (hmarkers k hk).symm) hkey ?_
  rw [hinv.original (legacy_of_candidate hkey) ho]
  rfl

/-- Without candidates nothing happens, and all must be done already. -/
theorem idle_converges_iff
    (hmarkers : ∀ k, Sealed k → s.nas.lookup k = nas₀.lookup k)
    (htruthful : ∀ key o sha, nas₀.lookup key = some o →
      o.sha256 = some sha → sha = Blob.sha256 o.body)
    (hnone : candidates cfg s.nas = []) (hnas : s'.nas = s.nas)
    (hmanifests : s'.manifests = s.manifests) (hinv' : Inv nas₀ s') :
    ((∃ m, s.manifests.lookup (manifestName cfg) = some m ∧ m.finished ≠ []) ∧
      Converged cfg nas₀ s') ↔ CanFinish digest cfg s := by
  have hsame : manifestOf cfg s' = manifestOf cfg s := by
    unfold manifestOf
    rw [hmanifests]
  have hno : ∀ k, k ∉ candidates cfg s.nas := by
    rw [hnone]
    exact fun k => List.not_mem_nil
  constructor
  · rintro ⟨⟨m, hm, hfinished⟩, hconverged⟩
    have hmanifest := manifestOf_eq hm
    have hentries : ∀ e ∈ manifestOf cfg s, e.status = .done := by
      rw [← hsame]
      exact hconverged.entries
    refine ⟨fun _ => ⟨?_, hentries⟩, fun k hk => absurd hk (hno k), fun k hk => absurd hk (hno k),
      fun k hk => absurd hk (hno k), fun e he => Or.inl (hentries e he),
      fun k hk => absurd hk (hno k)⟩
    intro hnil
    rw [hmanifest] at hnil
    rw [hnil] at hfinished
    exact hfinished rfl
  · intro hcan
    obtain ⟨hne, hentries⟩ := hcan.found hnone
    refine ⟨?_, ?_, ?_⟩
    · cases hm : s.manifests.lookup (manifestName cfg) with
      | none =>
        unfold manifestOf at hne
        rw [hm] at hne
        exact absurd rfl hne
      | some m =>
        rw [manifestOf_eq hm] at hne hentries
        refine ⟨m, rfl, ?_⟩
        obtain ⟨e, he⟩ := List.exists_mem_of_ne_nil m hne
        refine List.ne_nil_of_mem (List.mem_filter.mpr ⟨he, ?_⟩)
        exact decide_eq_true (hentries e he)
    · intro key hkey
      have hgone : s'.nas.lookup key = none := by
        rw [hnas]
        by_contra hthere
        have hcandidate := mem_candidates_of_markers hmarkers hkey
          (Option.isSome_iff_ne_none.mpr hthere)
        exact hno key hcandidate
      refine ⟨hgone, ?_⟩
      obtain ⟨o, ho⟩ := Option.isSome_iff_exists.mp (mem_candidates.mp hkey).1.2
      refine ⟨o, ho, ?_⟩
      rcases hinv'.legacy key (legacy_of_candidate hkey) with heq | ⟨-, hcopied⟩
      · simp [hgone, ho] at heq
      · exact hinv'.holds htruthful ho hcopied
    · rw [hsame]
      exact hentries

/-- **When a migration is finished by one more run.** After any history of runs, with any
failures of the NAS and any deaths, an undisturbed live run returns and leaves the
migration finished if and only if `CanFinish` holds before it. -/
theorem rekey_converges_iff {site : Site C} (huntouched : site.Untouched)
    (htruthful : Truthful site.world)
    (hreaches : (rekeyMachine digest site).Reaches Machine.anyStep s) {a : Attempt}
    (hlive : a.config.dryRun = false) (hready : Ready a.config a.launch (a.start s))
    (hroomy : Roomy digest a.config s) :
    ((∃ result, a.returns digest s = .ok result) ∧
      Converged a.config site.nas (a.leaves digest s)) ↔ CanFinish digest a.config s := by
  have hinv : Inv site.nas s := inv_of_reaches huntouched htruthful hreaches
  have hmarkers := markers_of_reaches huntouched hreaches
  have hinv' : Inv site.nas (a.leaves digest s) := hinv.leaves a
  have hok : ManifestOk site.nas s.nas (registered digest a.config s) :=
    hinv.manifestOf_ok.registered
  by_cases hnone : candidates a.config s.nas = []
  · obtain ⟨hnas, hmanifests, -, hreturns⟩ : Eff.wp (run digest a.config a.launch) _ (a.start s) :=
      run_idle hready hlive hnone
    rw [← idle_converges_iff hmarkers htruthful hnone hnas hmanifests hinv']
    exact and_congr_left' hreturns
  · obtain ⟨hreturns, hswept⟩ := Attempt.leaves_swept hok hready hroomy (Or.inr hnone)
    constructor
    · rintro ⟨-, hconverged⟩
      have hsettle : AllSettle digest a.config s := {
        entries := entries_of_done hok hswept hconverged.entries
        covered := fun key hkey => covered_of_gone hok hswept hkey
          (hconverged.moved key (candidate_of_inv hinv hmarkers hkey)).1 }
      exact hsettle.canFinish hok hnone
    · intro hcan
      exact ⟨hreturns, hcan.allSettle.converged hok hmarkers hlive hswept hinv' htruthful⟩

/-- A live run that dies at its `n`-th point. -/
def dyingRun (n : Nat) : Attempt := { liveRun with crashes := fun k => decide (k = n) }

/-- What `oneObject` is after a run that died before the delete. -/
def beforeDelete : Site String := (dyingRun 11).leaves String.ofList oneObject

/-- What `oneObject` is after a run that died after the delete. -/
def afterDelete : Site String := (dyingRun 12).leaves String.ofList oneObject

/-- One candidate, with one open entry that is about to delete. -/
theorem canFinish_of_deleting (hcandidates : candidates cfg s.nas = [key])
    (hmanifest : (manifestOf cfg s).map PartitionEntry.line =
      [⟨buildPartitionId key, key, buildNewKey key, .deleting⟩])
    (hsentinels : s.sentinels = []) : CanFinish digest cfg s := by
  have hkeys : ∀ k ∈ candidates cfg s.nas, k = key := by
    rw [hcandidates]
    exact fun k => List.mem_singleton.mp
  have hentry : ∀ e ∈ manifestOf cfg s, e.line =
      ⟨buildPartitionId key, key, buildNewKey key, .deleting⟩ := by
    intro e he
    have hline : e.line ∈ (manifestOf cfg s).map PartitionEntry.line := List.mem_map_of_mem he
    rw [hmanifest] at hline
    exact List.mem_singleton.mp hline
  have hstatus : ∀ e ∈ manifestOf cfg s, e.status = .deleting :=
    fun e he => congrArg Line.status (hentry e he)
  refine ⟨?_, ?_, ?_, ?_, ?_, ?_⟩
  · intro hnone
    simp [hcandidates] at hnone
  · intro k _ hmarked
    rw [hsentinels] at hmarked
    cases hmarked
  · intro k hk e he _
    rw [hkeys k hk, hstatus e he]
    exact ⟨congrArg Line.oldKey (hentry e he), rfl⟩
  · intro k hk k' hk' _
    rw [hkeys k hk, hkeys k' hk']
  · intro e he
    rw [hentry e he, hstatus e he]
    exact Or.inr ⟨rfl, trivial⟩
  · intro k hk hnew
    have hline : Line.mk (buildPartitionId key) key (buildNewKey key) .deleting ∈
        (manifestOf cfg s).map PartitionEntry.line := by
      rw [hmanifest]
      exact List.mem_cons_self
    obtain ⟨e, he, heq⟩ := List.mem_map.mp hline
    refine absurd ?_ (hnew e he)
    rw [hkeys k hk]
    exact congrArg Line.partitionId heq

theorem canFinish_beforeDelete : CanFinish String.ofList liveRun.config beforeDelete := by
  have hcandidates : candidates liveRun.config beforeDelete.nas = [exampleKey "a"] := by
    decide +kernel
  exact canFinish_of_deleting hcandidates (by decide +kernel) (by decide +kernel)

/-- A run that died before the delete is finished by the next one. -/
theorem rekey_converges_before_delete :
    (∃ result, liveRun.returns String.ofList beforeDelete = .ok result) ∧
      Converged liveRun.config oneObject.nas (liveRun.leaves String.ofList beforeDelete) := by
  have hreaches : (rekeyMachine String.ofList oneObject).Reaches Machine.anyStep beforeDelete :=
    .step (a := dyingRun 11) (.init rfl) trivial rfl
  have hlength : (registered String.ofList liveRun.config beforeDelete).resumable.length = 1 := by
    decide +kernel
  exact (rekey_converges_iff ⟨rfl, rfl, rfl, rfl⟩ oneObject_truthful hreaches rfl
    (ready_of_versioning (Or.inr rfl) (by decide) (by decide +kernel))
    (roomy_of_length hlength (by decide) rfl)).mpr canFinish_beforeDelete

/-- **A run that died after the delete is not.** The NAS answered throughout; the next run
finds no candidate and no finished entry, and exits. -/
theorem rekey_stalls_after_delete :
    (rekeyMachine String.ofList oneObject).Reaches
      (fun _ a => a.config.dryRun = false ∧ Versioned a.replies) afterDelete ∧
    Ready liveRun.config liveRun.launch (liveRun.start afterDelete) ∧
    Roomy String.ofList liveRun.config afterDelete ∧
    liveRun.returns String.ofList afterDelete = .error (.systemExit 4) ∧
    ((liveRun.leaves String.ofList afterDelete).manifests.lookup
      (manifestName liveRun.config)).map (List.map PartitionEntry.status) = some [.deleting] := by
  have hlength : (registered String.ofList liveRun.config afterDelete).resumable.length = 1 := by
    decide +kernel
  refine ⟨.step (a := dyingRun 12) (.init rfl) ⟨rfl, fun _ => ⟨"", "v", by decide, rfl⟩⟩ rfl,
    ready_of_versioning (Or.inr rfl) (by decide) (by decide +kernel),
    roomy_of_length hlength (by decide) rfl, ?_, ?_⟩
  · decide +kernel
  · decide +kernel

/-! ## what a resumed run goes by -/

/-- **A manifest says no more than is so.** After every history of runs and deaths the entries
of a manifest on disk have distinct ids and the names of their old keys, and an entry that the
next run deletes without another look has its bytes at its new key. -/
theorem rekey_manifests_truthful {site : Site C} (huntouched : site.Untouched)
    (htruthful : Truthful site.world) (h : (rekeyMachine digest site).Reaches Machine.anyStep s)
    {name : String} {m : Manifest C} (hm : s.manifests.lookup name = some m) :
    (m.map PartitionEntry.partitionId).Nodup ∧ ∀ e ∈ m,
      e.newKey = buildNewKey e.oldKey ∧ e.partitionId = buildPartitionId e.oldKey ∧
        (e.status.skipsVerify = true →
          ∃ o, site.nas.lookup e.oldKey = some o ∧ HoldsNas s.world e.newKey o.body) := by
  have hinv := inv_of_reaches huntouched htruthful h
  obtain ⟨hentries, hnodup⟩ := hinv.filed name m hm
  refine ⟨hnodup, fun e he => ?_⟩
  obtain ⟨-, hnew, hid, hcopied⟩ := hentries e he
  refine ⟨hnew, hid, fun hskips => ?_⟩
  obtain ⟨-, o, -, -, ho, -⟩ := hcopied hskips
  exact ⟨o, ho, hnew ▸ hinv.holds htruthful ho (hcopied hskips)⟩

/-- The run that died after its delete left its entry as `deleting`, and the bytes are at the
new key. -/
theorem rekey_manifest_after_delete :
    ∃ m e, afterDelete.manifests.lookup (manifestName liveRun.config) = some m ∧ e ∈ m ∧
      e.status = .deleting ∧ ∃ o, oneObject.nas.lookup e.oldKey = some o ∧
        HoldsNas afterDelete.world e.newKey o.body := by
  have hfiled : (afterDelete.manifests.lookup (manifestName liveRun.config)).map
      (List.map PartitionEntry.status) = some [.deleting] := by decide +kernel
  obtain ⟨m, hm, hstatus⟩ := Option.map_eq_some_iff.mp hfiled
  obtain ⟨e, rfl, hdeleting⟩ := List.map_eq_singleton_iff.mp hstatus
  have hentry := (rekey_manifests_truthful ⟨rfl, rfl, rfl, rfl⟩ oneObject_truthful
    (.step (a := dyingRun 12) (.init rfl) trivial rfl) hm).2 e List.mem_cons_self
  exact ⟨_, e, hm, List.mem_cons_self, hdeleting, hentry.2.2 (by rw [hdeleting]; rfl)⟩

end MctraderData.Migration
