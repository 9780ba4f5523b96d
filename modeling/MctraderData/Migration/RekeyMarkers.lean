import MctraderData.Migration.RekeyCalm

/-!
# mctrader-data — the candidates of a re-key run and their markers

An object `k` is a candidate if its marker `k.compacted` is in the bucket too. No run
touches a marker, because no marker is a candidate: an object that was a candidate stays
one until it is deleted.

## Results

* `mem_candidates` — what `_discover_l1_objects` finds.
* `markers_of_reaches` — the markers of a bucket are never touched.
-/

namespace MctraderData.Migration

open Lib Eff
open Nas
open Compactor (hasSuffix hasSuffix_append)

variable {C : Type} [Blob C] {digest : Digest16} {cfg : RekeyConfig}

/-! ## candidates and their markers -/

/-- The key of a marker. -/
def Sealed (key : Key) : Prop := hasSuffix ".compacted" (key.getLastD "") = true

variable (cfg) in
/-- The filters on one key. -/
def Listed (key : Key) : Prop :=
  legacyDiscoveryPrefix cfg.channel <+: key ∧
    ("/exchange=" ++ cfg.exchange ++ "/").toList <:+: keyText key ∧
    "/tier=L1/".toList <:+: keyText key

variable {nas nas' : AList fun _ : Key => Obj C} {key : Key}

theorem sealed_compactedMarker (key : Key) : Sealed (compactedMarker key) := by
  unfold Sealed compactedMarker
  rw [List.getLastD_concat]
  exact hasSuffix_append _ _

theorem mem_candidates :
    key ∈ candidates cfg nas ↔ (Listed cfg key ∧ (nas.lookup key).isSome = true) ∧ ¬ Sealed key ∧
      Listed cfg (compactedMarker key) ∧ (nas.lookup (compactedMarker key)).isSome = true := by
  have hlisted : ∀ k, (k ∈ (sortKeys (nas.keys.filter
      (legacyDiscoveryPrefix cfg.channel).isPrefixOf)).filter fun k =>
        decide (("/exchange=" ++ cfg.exchange ++ "/").toList <:+: keyText k) &&
          decide ("/tier=L1/".toList <:+: keyText k)) ↔
      Listed cfg k ∧ (nas.lookup k).isSome = true := by
    intro k
    rw [List.mem_filter, mem_sortKeys, List.mem_filter, ← AList.mem_keys, ← AList.lookup_isSome,
      List.isPrefixOf_iff_prefix, Bool.and_eq_true, decide_eq_true_eq, decide_eq_true_eq, Listed]
    tauto
  unfold candidates candidateKeys
  rw [List.mem_filter, hlisted, Bool.and_eq_true, Bool.not_eq_true', decide_eq_true_eq, hlisted]
  unfold Sealed
  rw [Bool.not_eq_true]

theorem legacy_of_listed (h : Listed cfg key) : Legacy key :=
  List.IsPrefix.trans ⟨[cfg.channel], rfl⟩ h.1

theorem legacy_of_candidate (h : key ∈ candidates cfg nas) : Legacy key :=
  legacy_of_listed (mem_candidates.mp h).1.1

/-- The candidates that are still there, if the markers are. -/
theorem mem_candidates_of_markers
    (hmarkers : ∀ k, Sealed k → nas'.lookup k = nas.lookup k)
    (h : key ∈ candidates cfg nas) (hthere : (nas'.lookup key).isSome = true) :
    key ∈ candidates cfg nas' := by
  obtain ⟨⟨hlisted, -⟩, hopen, hmarker, hmarked⟩ := mem_candidates.mp h
  refine mem_candidates.mpr ⟨⟨hlisted, hthere⟩, hopen, hmarker, ?_⟩
  rw [hmarkers _ (sealed_compactedMarker key)]
  exact hmarked

/-! ## the markers stay -/

/-- No row is about a marker. -/
def Unsealed (m : Manifest C) : Prop :=
  ∀ i ∈ m.map PartitionEntry.ident, ¬ Sealed i.2.1 ∧ ¬ Sealed i.2.2

/-- All manifests of a site, the one in memory included. -/
def Site.Unsealed (s : Site C) : Prop :=
  (∀ name m, s.manifests.lookup name = some m → Migration.Unsealed m) ∧ Migration.Unsealed s.memory

/-- The markers of the bucket stay, and no manifest comes to be about one. -/
def Spares (s s' : Site C) : Prop :=
  s.Unsealed → s'.Unsealed ∧ ∀ key, Sealed key → s'.nas.lookup key = s.nas.lookup key

instance : Std.Refl (Spares (C := C)) := ⟨fun _ h => ⟨h, fun _ _ => rfl⟩⟩

instance : IsTrans (Site C) Spares := ⟨fun s s' s'' h h' hs => by
  obtain ⟨hs', hsame⟩ := h hs
  obtain ⟨hs'', hsame'⟩ := h' hs'
  exact ⟨hs'', fun key hkey => (hsame' key hkey).trans (hsame key hkey)⟩⟩

theorem spares_idle : Idle (Spares (C := C)) := fun _ _ _ hnas hs =>
  ⟨hs, fun key _ => congrArg (AList.lookup key) hnas⟩

theorem spares_alive : Eff.Keeps Spares (alive : Job C Unit) := keeps_alive spares_idle

/-- A request that leaves the markers alone. -/
theorem spares_within {α : Type} {m : Prog C α}
    (h : ∀ w : World C, wp m (fun _ w' => ∀ key, Sealed key →
      w'.nas.lookup key = w.nas.lookup key) w) :
    Eff.Keeps Spares (Eff.within Site.world (fun w s => { s with world := w }) Abort.raised m :
      Job C α) := by
  intro s hs
  refine (?_ : wp (Eff.within Site.world _ Abort.raised m)
    (fun _ s' => s'.Unsealed ∧ ∀ key, Sealed key → s'.nas.lookup key = s.nas.lookup key) s)
  rw [wp_within]
  refine wp_mono (h s.world) fun r w' hsame => ?_
  cases r <;> exact ⟨hs, hsame⟩

theorem spares_onNas {α : Type} {m : Prog C α}
    (h : ∀ w : World C, wp m (fun _ w' => ∀ key, Sealed key →
      w'.nas.lookup key = w.nas.lookup key) w) : Eff.Keeps Spares (onNas m : Job C α) :=
  spares_alive.bind fun _ => spares_within h

variable {f : PartitionEntry C → PartitionEntry C} {partitionId : String}

theorem Unsealed.update {m : Manifest C} (h : Unsealed m) (hf : ∀ e, (f e).ident = e.ident) :
    Unsealed (m.update partitionId f) := by
  rwa [Unsealed, map_ident_update hf]

theorem spares_setEntry (partitionId : String) (hf : ∀ e, (f e).ident = e.ident) :
    Eff.Keeps Spares (setEntry partitionId f) :=
  keeps_modify fun _ hs => ⟨⟨hs.1, hs.2.update hf⟩, fun _ _ => rfl⟩

theorem spares_writeAtomic : Eff.Keeps Spares (writeAtomic cfg : Job C Unit) := by
  refine spares_alive.bind fun _ => keeps_modify fun s hs => ⟨⟨?_, hs.2⟩, fun _ _ => rfl⟩
  intro name m hm
  rcases lookup_insert_eq_some.mp hm with ⟨-, rfl⟩ | ⟨-, hm⟩
  · exact hs.2
  · exact hs.1 name m hm

theorem spares_writeSentinel (partitionId : String) :
    Eff.Keeps Spares (writeSentinel digest cfg partitionId : Job C Unit) := by
  refine spares_alive.bind fun _ => keeps_modify fun s hs => ?_
  split <;> exact ⟨hs, fun _ _ => rfl⟩

/-- A row is changed, the manifest is written, and the block goes on. -/
theorem spares_record {α : Type} {k : Job C α} (hf : ∀ e, (f e).ident = e.ident)
    (hk : Eff.Keeps Spares k) : Eff.Keeps Spares (do setEntry partitionId f; writeAtomic cfg; k) :=
  (spares_setEntry partitionId hf).bind fun _ => spares_writeAtomic.bind fun _ => hk

theorem spares_headObject (key : Key) :
    Eff.Keeps Spares (onNas (headObject key) : Job C (Head C)) := by
  refine spares_onNas fun w => wp_mono headObject_nas fun _ _ h k _ => ?_
  rw [h.1.nas_eq]

theorem spares_bookkeeping : Bookkeeping cfg (Spares (C := C)) where
  setEntry partitionId _ hf _ := spares_setEntry partitionId hf
  writeAtomic := spares_writeAtomic
  writeSentinel _ := spares_writeSentinel
  headObject := spares_headObject

variable {entry : PartitionEntry C}

theorem spares_copyObject (hnew : ¬ Sealed entry.newKey) :
    Eff.Keeps Spares (onNas (copyObject entry.oldKey entry.newKey) : Job C CopyResult) := by
  refine spares_onNas fun w => wp_mono copyObject_nas fun _ w' h k hk => ?_
  have hne : k ≠ entry.newKey := fun heq => hnew (heq ▸ hk)
  rcases h with hsame | ⟨o, etag, versionId, -, hcopied⟩
  · rw [hsame.nas_eq]
  · rw [hcopied.nas_eq, AList.lookup_insert_ne hne]

theorem spares_verify4head (entry : PartitionEntry C) : Eff.Keeps Spares (verify4head entry) := by
  refine (keeps_attempt (spares_headObject entry.oldKey)).bind fun r => ?_
  cases r with
  | error e =>
    cases e with
    | clientError code =>
      simp only
      split
      · exact keeps_pure _
      · exact keeps_throw _
    | _ => exact keeps_throw _
  | ok src =>
    refine (keeps_attempt (spares_headObject entry.newKey)).bind fun r => ?_
    cases r with
    | error e =>
      cases e with
      | clientError code => exact keeps_pure _
      | _ => exact keeps_throw _
    | ok dst =>
      refine Eff.Keeps.bind (spares_setEntry _ ?_) fun _ => keeps_pure _
      exact fun _ => rfl

theorem spares_stepVerify (entry : PartitionEntry C) : Eff.Keeps Spares (stepVerify cfg entry) := by
  refine spares_record ?_ ((spares_verify4head entry).bind fun r => ?_)
  · exact fun _ => rfl
  cases r with
  | none => exact (spares_bookkeeping.fail _ _).bind fun _ => keeps_pure _
  | some heads =>
    simp only
    split
    all_goals
      refine spares_record ?_ (keeps_pure _)
      exact fun _ => rfl

theorem spares_issueDelete (hkey : ¬ Sealed key) :
    Eff.Keeps Spares (issueDelete key : Job C Unit) := by
  have hdelete : ∀ w : World C, wp (deleteObject key) (fun _ w' => ∀ k, Sealed k →
      w'.nas.lookup k = w.nas.lookup k) w := by
    intro w
    refine wp_mono deleteObject_nas fun _ w' h k hk => ?_
    have hne : k ≠ key := fun heq => hkey (heq ▸ hk)
    rcases h with hsame | herased
    · rw [hsame.nas_eq]
    · rw [herased.nas_eq, AList.lookup_erase_ne hne]
  refine spares_alive.bind fun _ => Eff.Keeps.bind ?_ fun _ => spares_within hdelete
  exact keeps_modify fun _ hs => ⟨hs, fun _ _ => rfl⟩

theorem spares_stepDelete (hold : ¬ Sealed entry.oldKey) :
    Eff.Keeps Spares (stepDelete digest cfg entry) := by
  have hdelete : Eff.Keeps Spares
      (if cfg.dryRun then pure () else issueDelete entry.oldKey : Job C Unit) := by
    split
    · exact keeps_pure _
    · exact spares_issueDelete hold
  refine spares_record ?_ ((keeps_attempt hdelete).bind fun r => ?_)
  · exact fun _ => rfl
  cases r with
  | error e => exact spares_bookkeeping.fail _ _
  | ok _ =>
    refine (spares_writeSentinel _).bind fun _ => spares_record ?_ (keeps_pure _)
    exact fun _ => rfl

theorem spares_processPartition (hold : ¬ Sealed entry.oldKey) (hnew : ¬ Sealed entry.newKey) :
    Eff.Keeps Spares (processPartition digest cfg entry) := by
  have hverify : Eff.Keeps Spares (verifyThenDelete digest cfg entry) := by
    refine (spares_stepVerify entry).bind fun r => ?_
    cases r with
    | some status => exact keeps_pure _
    | none => exact spares_stepDelete hold
  unfold processPartition
  split
  · exact spares_stepDelete hold
  · split
    · exact hverify
    · refine (spares_bookkeeping.stepCopy (spares_copyObject hnew)).bind fun r => ?_
      cases r with
      | some status => exact keeps_pure _
      | none => exact hverify

variable {launch : Launch}

theorem spares_batch {entries : List (PartitionEntry C)} {processed failedInBatch : Nat}
    {result : RekeyResult} (h : Unsealed entries) :
    Eff.Keeps Spares (batch digest cfg launch entries processed failedInBatch result) := by
  induction entries generalizing processed failedInBatch result with
  | nil => exact keeps_pure _
  | cons entry rest ih =>
    have hrest : Unsealed rest := fun i hi => h i (List.mem_cons_of_mem _ hi)
    obtain ⟨hold, hnew⟩ := h entry.ident List.mem_cons_self
    unfold batch
    iterate 3
      split
      · exact keeps_pure _
    refine (spares_processPartition hold hnew).bind fun status => ?_
    cases status with
    | failed =>
      simp only
      split
      · exact keeps_pure _
      · exact ih hrest
    | _ => exact ih hrest

theorem sealed_buildNewKey (h : Legacy key) : Sealed (buildNewKey key) ↔ Sealed key := by
  obtain ⟨rest, rfl, hnew⟩ := h.eq
  unfold Sealed
  rw [hnew, List.getLastD_cons, List.getLastD_cons, List.getLastD_cons]

theorem Unsealed.populate {sentinels : List Path} {keys : List Key} {m : Manifest C}
    (h : Unsealed m) (hkeys : ∀ k ∈ keys, Legacy k ∧ ¬ Sealed k) :
    Unsealed (populate digest cfg sentinels keys m) := by
  induction keys generalizing m with
  | nil => exact h
  | cons key rest ih =>
    obtain ⟨hlegacy, hopen⟩ := hkeys key List.mem_cons_self
    refine ih ?_ fun k hk => hkeys k (List.mem_cons_of_mem key hk)
    split
    · exact h.update fun _ => rfl
    · unfold Manifest.upsertPending
      split
      · exact h
      · intro i hi
        rw [List.map_append, List.mem_append] at hi
        rcases hi with hi | hi
        · exact h i hi
        · cases List.mem_singleton.mp hi
          exact ⟨hopen, fun hsealed => hopen ((sealed_buildNewKey hlegacy).mp hsealed)⟩

theorem spares_migrate {keys : List Key} (hkeys : ∀ k ∈ keys, Legacy k ∧ ¬ Sealed k) :
    Eff.Keeps Spares (migrate digest cfg launch keys : Job C RekeyResult) := by
  intro s hs
  have hloaded : Unsealed ((s.manifests.lookup (manifestName cfg)).getD []) := by
    cases hm : s.manifests.lookup (manifestName cfg) with
    | none => exact fun i hi => absurd hi List.not_mem_nil
    | some m => exact hs.1 _ m hm
  have hmemory : Unsealed (populate digest cfg s.sentinels keys
      ((s.manifests.lookup (manifestName cfg)).getD [])) := hloaded.populate hkeys
  refine (?_ : wp (migrate digest cfg launch keys) (fun _ s' => s'.Unsealed ∧
    ∀ key, Sealed key → s'.nas.lookup key = s.nas.lookup key) s)
  simp only [migrate, load, wp_bind, wp_modify, wp_get]
  -- of the populated manifest only that it is unsealed matters from here
  generalize populate digest cfg s.sentinels keys
    ((s.manifests.lookup (manifestName cfg)).getD []) = m at hmemory ⊢
  have hresumable : Unsealed m.resumable := by
    intro i hi
    obtain ⟨e, he, rfl⟩ := List.mem_map.mp hi
    exact hmemory e.ident (List.mem_map_of_mem (List.mem_of_mem_filter he))
  have hbegun : Site.Unsealed { s with memory := m } := ⟨hs.1, hmemory⟩
  refine wp_mono (spares_writeAtomic.wp { s with memory := m }) fun r s₁ h₁ => ?_
  obtain ⟨hs₁, hsame₁⟩ := h₁ hbegun
  cases r with
  | error e => exact ⟨hs₁, hsame₁⟩
  | ok _ =>
    refine wp_mono ((spares_batch hresumable).wp s₁) fun _ s₂ h₂ => ?_
    obtain ⟨hs₂, hsame₂⟩ := h₂ hs₁
    exact ⟨hs₂, fun key hkey => (hsame₂ key hkey).trans (hsame₁ key hkey)⟩

/-- **A run spares the markers**, however it ends. -/
theorem spares_run : Eff.Keeps Spares (run digest cfg launch : Job C RekeyResult) := by
  refine keeps_run spares_idle fun nas => spares_migrate fun k hk => ?_
  have hcandidate : k ∈ candidates cfg nas := hk
  exact ⟨legacy_of_candidate hcandidate, (mem_candidates.mp hcandidate).2.1⟩

/-- **The markers are never touched.** -/
theorem markers_of_reaches {site s : Site C} (huntouched : site.Untouched)
    {g : Site C → Attempt → Prop} (h : (rekeyMachine digest site).Reaches g s) :
    ∀ key, Sealed key → s.nas.lookup key = site.nas.lookup key := by
  have hspares : s.Unsealed ∧ ∀ key, Sealed key → s.nas.lookup key = site.nas.lookup key := by
    refine Machine.Reaches.invariant (I := fun s : Site C => s.Unsealed ∧
      ∀ key, Sealed key → s.nas.lookup key = site.nas.lookup key) ?_ ?_ h
    · rintro s₀ rfl
      obtain ⟨hmanifests, -, -, hmemory⟩ := huntouched
      refine ⟨⟨?_, ?_⟩, fun _ _ => rfl⟩
      · intro name m hm
        simp [hmanifests, AList.lookup_empty] at hm
      · simp [hmemory, Unsealed]
    · rintro s₀ a s₁ ⟨hs₀, hsame₀⟩ - hstep
      cases Option.some.inj hstep
      have hrun : Eff.Keeps Spares (run digest a.config a.launch : Job C RekeyResult) := spares_run
      obtain ⟨hs₁, hsame₁⟩ := hrun (a.start s₀) hs₀
      exact ⟨hs₁, fun key hkey => (hsame₁ key hkey).trans (hsame₀ key hkey)⟩
  exact hspares.2

end MctraderData.Migration
