import MctraderData.Migration.RekeySweep

/-!
# mctrader-data — a dry run before the live run

A dry run of the migration is not free of effects: it copies, verifies, marks a partition
`done` in the manifest and writes its sentinel, and leaves out the delete. The live run
after it takes the sentinel for the end of the partition and skips it, so the old keys
stay. What a dry run changes nothing for is a bucket with nothing to move.

## Results

* `verdict_pending` — how a new partition ends, in terms of the two stored objects.
* `dryRun_then_live_iff` — when a dry run before the live run makes no difference.
-/

namespace MctraderData.Migration

open Lib
open Nas

variable {C : Type} [Blob C] {digest : Digest16} {cfg : RekeyConfig}

/-! ## what is compared, and when it is the same -/

/-- The bytes and the sha256 metadata at a key. -/
def Site.objectAt (s : Site C) (key : Key) : Option (C × Option (Blob.Digest C)) :=
  (s.nas.lookup key).map fun o => (o.body, o.sha256)

/-- The same object map, and the same keys deleted. -/
structure SameEnd (s s' : Site C) : Prop where
  objects : ∀ key, s.objectAt key = s'.objectAt key
  deletes : ∀ key, key ∈ s.deletes.map Prod.fst ↔ key ∈ s'.deletes.map Prod.fst

/-- The candidates without those whose partition id an earlier one has. -/
def firstOfEach (keys : List Key) : List Key :=
  keys.foldl (fun taken k =>
    if taken.any fun t => buildPartitionId t = buildPartitionId k then taken else taken ++ [k]) []

/-- At the new key there is an object that forbids the copy, or a copy that fails the
checks. -/
def Bucket.blocked (b : Bucket C) (key : Key) : Bool :=
  match b key, b (buildNewKey key) with
  | some src, some dst => src.comparable dst && !src.passes dst
  | _, _ => false

/-- What a batch over `keys` comes to, and what it leaves. -/
def comesTo (cfg : RekeyConfig) (b : Bucket C) (keys : List Key) : List Key × List Key :=
  reached cfg.threshold b.blocked keys 0 0

/-- What the first batch over a bucket comes to, and what it leaves. -/
def firstBatch (cfg : RekeyConfig) (nas : AList fun _ : Key => Obj C) : List Key × List Key :=
  comesTo cfg (bucketOf nas) (firstOfEach (candidates cfg nas))

/-- What a second batch comes to. -/
def secondBatch (cfg : RekeyConfig) (nas : AList fun _ : Key => Obj C) : List Key :=
  (comesTo cfg (bucketOf nas) (firstBatch cfg nas).2).1

/-- There is nothing to move, as far as two batches come. -/
structure NothingToMove (cfg : RekeyConfig) (nas : AList fun _ : Key => Obj C) : Prop where
  first : ∀ key ∈ (firstBatch cfg nas).1, ¬ (bucketOf nas).CanMove key (buildNewKey key)
  second : ∀ key ∈ secondBatch cfg nas, ¬ (bucketOf nas).CanMove key (buildNewKey key)
  /-- What has no sha256 is copied and not deleted: the second batch must find the copy. -/
  copies : ∀ key ∈ secondBatch cfg nas, ∀ src, bucketOf nas key = some src → src.sha256 = none →
    ∃ dst, bucketOf nas (buildNewKey key) = some dst ∧ dst.body = src.body ∧ dst.sha256 = none

/-! ## new partitions -/

variable {b b' : Bucket C} {key : Key} {s s' : Site C} {ls : List Line} {l : Line}

/-- The row a candidate is registered with. -/
def pendingLine (key : Key) : Line := ⟨buildPartitionId key, key, buildNewKey key, .pending⟩

theorem passes_self (src : Stored C) : src.passes { src with versioned := true } = true := by
  unfold Stored.passes
  cases src.sha256 <;> simp

variable {src : Stored C}

/-- **How a new partition ends.** -/
theorem verdict_pending (hkey : Legacy key) (hsrc : b key = some src) :
    b.verdict (pendingLine key) =
      if b.blocked key then .failed
      else if src.sha256.isNone then .legacyNoSha256 else .done := by
  have hne : key ≠ buildNewKey key := ne_buildNewKey hkey hkey
  have hverdict : b.verdict (pendingLine key) =
      (b.copied key (buildNewKey key)).checked key (buildNewKey key) :=
    Bucket.verdict_of_source rfl hsrc
  rw [hverdict, Bucket.checked, Bucket.copied_of_ne hne, hsrc]
  by_cases hany : (b (buildNewKey key)).any src.comparable = true
  · obtain ⟨dst, hdst, hcomparable⟩ := (Option.any_eq_true _ _).mp hany
    have hsha : src.sha256.isNone = false :=
      Option.isNone_eq_false_iff.mpr ((Bool.and_eq_true _ _).mp hcomparable).1
    rw [Bucket.copied_of_comparable hsrc hdst hcomparable, hdst]
    simp only [Bucket.blocked, hsrc, hdst, hcomparable, hsha, Bool.true_and, Bool.false_and]
    cases src.passes dst <;> rfl
  · have hnew : b.copied key (buildNewKey key) (buildNewKey key) =
        some { src with versioned := true } := by
      simp only [Bucket.copied, hsrc, if_neg hany, Function.update_self]
    have hblocked : b.blocked key = false := by
      cases hdst : b (buildNewKey key) <;> simp_all [Bucket.blocked]
    rw [hnew, hblocked]
    simp [passes_self]

theorem fails_pending (hkey : Legacy key) (hsrc : b key = some src) :
    b.fails (pendingLine key) = b.blocked key := by
  unfold Bucket.fails
  rw [verdict_pending hkey hsrc]
  cases b.blocked key <;> cases src.sha256.isNone <;> rfl

theorem verdict_pending_done (hkey : Legacy key) :
    b.verdict (pendingLine key) = .done ↔ b.CanMove key (buildNewKey key) :=
  Bucket.verdict_eq_done (l := pendingLine key) (ne_buildNewKey hkey hkey)

/-- A partition that is not moved is blocked, or it has no sha256. -/
theorem blocked_or_unhashed (hkey : Legacy key) (hsrc : b key = some src)
    (hends : b.verdict (pendingLine key) ≠ .done) : b.blocked key = true ∨ src.sha256 = none := by
  rw [verdict_pending hkey hsrc] at hends
  by_contra hneither
  rw [not_or, ← Option.isNone_iff_eq_none] at hneither
  rw [if_neg hneither.1, if_neg hneither.2] at hends
  exact hends rfl

/-- A blocked partition copies nothing. -/
theorem copied_of_blocked (hblocked : b.blocked key = true) :
    b.copied key (buildNewKey key) = b := by
  unfold Bucket.blocked at hblocked
  split at hblocked
  case h_1 src dst hsrc hdst =>
    exact Bucket.copied_of_comparable hsrc hdst ((Bool.and_eq_true _ _).mp hblocked).1
  case h_2 => cases hblocked

/-- What has no sha256 is always copied. -/
theorem copied_of_unhashed (hsrc : b key = some src) (hsha : src.sha256 = none) :
    b.copied key (buildNewKey key) (buildNewKey key) = some { src with versioned := true } := by
  have hany : ¬ (b (buildNewKey key)).any src.comparable = true := by
    intro hany
    obtain ⟨dst, -, hcomparable⟩ := (Option.any_eq_true _ _).mp hany
    unfold Stored.comparable at hcomparable
    rw [hsha] at hcomparable
    cases hcomparable
  simp only [Bucket.copied, hsrc, if_neg hany, Function.update_self]

/-- Without a delete, live and dry are the same. -/
theorem settled_pending {dryRun : Bool} (h : b.verdict (pendingLine key) ≠ .done) :
    b.settled dryRun (pendingLine key) = b.copied key (buildNewKey key) := by
  unfold Bucket.settled
  rw [if_neg fun hdone => h hdone.1]
  rfl

/-! ## the manifest of a first run -/

/-- A first run registers one new entry for each partition id. -/
theorem populate_first (keys : List Key) :
    populate digest cfg [] keys ([] : Manifest C) = (firstOfEach keys).map pendingEntry := by
  have hgo : ∀ (keys taken : List Key), populate digest cfg [] keys
      ((taken.map pendingEntry : Manifest C)) =
      (keys.foldl (fun taken k =>
        if taken.any fun t => buildPartitionId t = buildPartitionId k then taken
        else taken ++ [k]) taken).map pendingEntry := by
    intro keys
    induction keys with
    | nil => exact fun _ => rfl
    | cons k rest ih =>
      intro taken
      rw [populate_cons_fresh List.not_mem_nil, List.foldl_cons, ← ih]
      unfold Manifest.upsertPending
      have hany : ((taken.map pendingEntry : Manifest C).any fun e =>
          e.partitionId = buildPartitionId k) =
            taken.any fun t => buildPartitionId t = buildPartitionId k := by
        rw [List.any_map]
        rfl
      rw [hany]
      split
      · rfl
      · rw [List.map_append]
        rfl
  exact hgo keys []

/-- Candidates that all have an entry, and no sentinel, leave a manifest as it is. -/
theorem populate_eq_self {sentinels : List Path} {keys : List Key} {m : Manifest C}
    (hfresh : ∀ k ∈ keys, ¬ Marked digest cfg sentinels k)
    (hthere : ∀ k ∈ keys, ∃ e ∈ m, e.partitionId = buildPartitionId k) :
    populate digest cfg sentinels keys m = m := by
  induction keys with
  | nil => rfl
  | cons k rest ih =>
    obtain ⟨e, he, hid⟩ := hthere k List.mem_cons_self
    have hany : m.any (fun e => e.partitionId = buildPartitionId k) = true :=
      List.any_eq_true.mpr ⟨e, he, decide_eq_true hid⟩
    rw [populate_cons_fresh (hfresh k List.mem_cons_self)]
    unfold Manifest.upsertPending
    rw [if_pos hany]
    exact ih (fun k' hk' => hfresh k' (List.mem_cons_of_mem k hk'))
      fun k' hk' => hthere k' (List.mem_cons_of_mem k hk')

theorem mem_firstOfEach {keys : List Key} (h : key ∈ firstOfEach keys) : key ∈ keys := by
  refine List.foldlRecOn (motive := fun taken => ∀ k ∈ taken, k ∈ keys) keys _
    (fun _ hk => absurd hk List.not_mem_nil) (fun taken htaken k hk => ?_) key h
  split
  · exact htaken
  · intro x hx
    rcases List.mem_append.mp hx with hx | hx
    · exact htaken x hx
    · exact List.mem_singleton.mp hx ▸ hk

/-- The rows that are left open when those of `ls` have come to an end. -/
theorem filter_outcome {rest : List Line} (hapart : Apart (ls ++ rest))
    (hended : ∀ l ∈ ls, (b.verdict l).midFlight = false)
    (hopen : ∀ l ∈ rest, l.status.midFlight = true) :
    ((ls ++ rest).map (b.outcome ls)).filter (fun l => l.status.midFlight) = rest := by
  rw [List.map_append, List.filter_append]
  have hcross := (List.pairwise_append.mp hapart).2.2
  have hended' : (ls.map (b.outcome ls)).filter (fun l => l.status.midFlight) = [] := by
    rw [List.filter_eq_nil_iff]
    intro x hx
    obtain ⟨l, hl, rfl⟩ := List.mem_map.mp hx
    rcases Bucket.outcome_cases (b := b) ls l with ⟨l', hl', -, houtcome⟩ | ⟨hnot, -⟩
    · rw [houtcome]
      exact Bool.eq_false_iff.mp (hended l' hl')
    · exact absurd rfl (hnot l hl)
  have hopen' : rest.map (b.outcome ls) = rest := by
    refine (List.map_congr_left fun l hl => ?_).trans (List.map_id _)
    exact Bucket.outcome_of_not_mem fun l' hl' => hcross l' hl' l hl
  rw [hended', hopen', List.nil_append, List.filter_eq_self]
  exact hopen

/-- A partition is at an end after its processing. -/
theorem verdict_ends (b : Bucket C) (l : Line) :
    (b.verdict l).midFlight = false ∧ (b.verdict l).skipsVerify = false := by
  have hchecked : ∀ (b : Bucket C) (old new : Key),
      (b.checked old new).midFlight = false ∧ (b.checked old new).skipsVerify = false := by
    intro b old new
    unfold Bucket.checked
    repeat' split
    all_goals exact ⟨rfl, rfl⟩
  unfold Bucket.verdict
  split
  · exact ⟨rfl, rfl⟩
  split
  · exact hchecked _ _ _
  split
  · split <;> exact ⟨rfl, rfl⟩
  · exact hchecked _ _ _

theorem outcome_eq (b : Bucket C) (ls : List Line) (l : Line) :
    ∃ status, b.outcome ls l = { l with status := status } ∧
      (l.status.skipsVerify = false → status.skipsVerify = false) := by
  rcases Bucket.outcome_cases (b := b) ls l with ⟨l', -, -, houtcome⟩ | ⟨-, houtcome⟩
  · exact ⟨_, houtcome, fun _ => (verdict_ends b l').2⟩
  · exact ⟨l.status, houtcome, id⟩

variable {nas : AList fun _ : Key => Obj C}

/-- Rows that came to an end are still rows of the same partitions. -/
theorem ManifestOk.outcome {nas₀ nas' nas'' : AList fun _ : Key => Obj C} {m m' : Manifest C}
    (h : ManifestOk nas₀ nas m) (hstatus : ∀ e ∈ m, e.status.skipsVerify = false)
    (hlines : m'.map PartitionEntry.line = m.map fun e => b.outcome ls e.line) :
    ManifestOk nas' nas'' m' where
  entries e' he' := by
    have hline : e'.line ∈ m'.map PartitionEntry.line := List.mem_map_of_mem he'
    rw [hlines] at hline
    obtain ⟨e, he, heq⟩ := List.mem_map.mp hline
    obtain ⟨status, houtcome, hskips⟩ := outcome_eq b ls e.line
    obtain ⟨hid, hold, hnew, hends⟩ := Line.mk.inj (heq.symm.trans houtcome)
    refine ⟨hold ▸ (h.entries e he).legacy, ?_, ?_, ?_⟩
    · rw [hnew, hold]
      exact (h.entries e he).newKey
    · rw [hid, hold]
      exact (h.entries e he).partitionId
    · intro hverified
      rw [hends, hskips (hstatus e he)] at hverified
      cases hverified
  nodup := by
    have hids : m'.map PartitionEntry.partitionId = m.map PartitionEntry.partitionId := by
      have hpid := congrArg (List.map Line.partitionId) hlines
      rw [List.map_map, List.map_map] at hpid
      refine hpid.trans (List.map_congr_left fun e _ => ?_)
      obtain ⟨status, houtcome, -⟩ := outcome_eq b ls e.line
      exact congrArg Line.partitionId houtcome
    rw [hids]
    exact h.nodup

theorem source_of_candidate (h : key ∈ candidates cfg nas) :
    Legacy key ∧ ∃ src, bucketOf nas key = some src := by
  obtain ⟨o, ho⟩ := Option.isSome_iff_exists.mp (mem_candidates.mp h).1.2
  exact ⟨legacy_of_candidate h, stored o, congrArg (Option.map stored) ho⟩

/-! ## the first run -/

section

variable {site : Site C} (huntouched : site.Untouched)

include huntouched

theorem registered_untouched :
    registered digest cfg site =
      (firstOfEach (candidates cfg site.nas)).map pendingEntry := by
  obtain ⟨hmanifests, hsentinels, -, -⟩ := huntouched
  unfold registered
  rw [hmanifests, hsentinels, AList.lookup_empty]
  exact populate_first _

theorem registered_untouched_ok :
    ManifestOk site.nas site.nas (registered digest cfg site) := by
  refine ManifestOk.registered ?_
  unfold manifestOf
  rw [huntouched.1, AList.lookup_empty]
  exact manifestOk_nil

theorem openLines_untouched :
    openLines digest cfg site =
      (firstOfEach (candidates cfg site.nas)).map pendingLine := by
  unfold openLines
  rw [registered_untouched huntouched]
  have hall : Manifest.resumable ((firstOfEach (candidates cfg site.nas)).map
      (pendingEntry (C := C))) = (firstOfEach (candidates cfg site.nas)).map pendingEntry := by
    unfold Manifest.resumable
    rw [List.filter_eq_self]
    intro e he
    obtain ⟨k, -, rfl⟩ := List.mem_map.mp he
    rfl
  rw [hall, List.map_map]
  rfl

theorem reached_untouched :
    reached cfg.threshold (bucketOf site.nas).fails (openLines digest cfg site) 0 0 =
      ((firstBatch cfg site.nas).1.map pendingLine,
        (firstBatch cfg site.nas).2.map pendingLine) := by
  rw [openLines_untouched huntouched, reached_map]
  have hcongr : reached cfg.threshold (fun k => (bucketOf site.nas).fails (pendingLine k))
      (firstOfEach (candidates cfg site.nas)) 0 0 = firstBatch cfg site.nas := by
    refine reached_congr fun k hk => ?_
    obtain ⟨hlegacy, src, hsrc⟩ := source_of_candidate (mem_firstOfEach hk)
    exact fails_pending hlegacy hsrc
  rw [hcongr]

theorem reachedLines_untouched :
    reachedLines digest cfg site = (firstBatch cfg site.nas).1.map pendingLine :=
  congrArg Prod.fst (reached_untouched huntouched)

/-- The rows of a first run are those it comes to and the rest. -/
theorem rows_untouched :
    (registered digest cfg site).map PartitionEntry.line =
      reachedLines digest cfg site ++ (firstBatch cfg site.nas).2.map pendingLine := by
  have happend : (reached cfg.threshold (bucketOf site.nas).fails
      (openLines digest cfg site) 0 0).1 ++ (reached cfg.threshold (bucketOf site.nas).fails
      (openLines digest cfg site) 0 0).2 = openLines digest cfg site := reached_append _
  rw [reached_untouched huntouched] at happend
  rw [reachedLines_untouched huntouched, happend, openLines_untouched huntouched,
    registered_untouched huntouched, List.map_map]
  rfl

theorem rows_apart :
    Apart (reachedLines digest cfg site ++ (firstBatch cfg site.nas).2.map pendingLine) := by
  have hok : ManifestOk site.nas site.nas (registered digest cfg site) :=
    registered_untouched_ok huntouched
  rw [← rows_untouched huntouched]
  unfold Apart
  rw [List.pairwise_map]
  exact List.pairwise_map.mp hok.nodup

end

theorem mem_candidates_of_firstBatch
    (h : key ∈ (firstBatch cfg nas).1 ∨ key ∈ (firstBatch cfg nas).2) :
    key ∈ candidates cfg nas := by
  have happend : (firstBatch cfg nas).1 ++ (firstBatch cfg nas).2 =
      firstOfEach (candidates cfg nas) := reached_append _
  refine mem_firstOfEach ?_
  rw [← happend]
  exact List.mem_append.mpr h

variable (nas) in
/-- None of the keys has something to move. -/
def Stuck (keys : List Key) : Prop :=
  ∀ key ∈ keys, ¬ (bucketOf nas).CanMove key (buildNewKey key)

/-! ## after the dry run -/

section

variable {site s₁ : Site C} (huntouched : site.Untouched)
  (hdry : Swept digest { cfg with dryRun := true } (reachedLines digest cfg site)
    (site.begun digest cfg) (s₁.view cfg))

include huntouched hdry

/-- A dry run deletes nothing: the legacy objects are as they were. -/
theorem dry_legacy (hkey : Legacy key) : bucketOf s₁.nas key = bucketOf site.nas key := by
  by_cases howned : ∃ l ∈ reachedLines digest cfg site, l.Owns key
  · obtain ⟨l, hl, howns⟩ := howned
    have hok := openLines_ok (registered_untouched_ok huntouched) l (mem_openLines_of_reached hl)
    have hnew : key ≠ l.newKey := by
      rw [hok.newKey]
      exact ne_buildNewKey hkey hok.legacy
    have hold : bucketOf s₁.nas key = (bucketOf site.nas).settled true l key :=
      hdry.own l hl key howns
    rw [hold]
    unfold Bucket.settled
    rw [if_neg fun hlive => nomatch hlive.2]
    split
    · rfl
    · exact Bucket.copied_of_ne hnew
  · push Not at howned
    exact hdry.elsewhere key howned

theorem dry_candidates :
    key ∈ candidates cfg s₁.nas ↔ key ∈ candidates cfg site.nas := by
  have hsame : ∀ k, Listed cfg k → ((s₁.nas.lookup k).isSome = true ↔
      (site.nas.lookup k).isSome = true) := by
    intro k hk
    have hlookup := congrArg Option.isSome (dry_legacy huntouched hdry (legacy_of_listed hk))
    rw [bucketOf, bucketOf, Option.isSome_map, Option.isSome_map] at hlookup
    rw [hlookup]
  rw [mem_candidates, mem_candidates]
  exact and_congr (and_congr_right (hsame _))
    (and_congr_right fun _ => and_congr_right (hsame _))

theorem dry_deletes : key ∉ s₁.deletes.map Prod.fst := by
  have hdeletes : key ∈ s₁.deletes.map Prod.fst ↔ _ := hdry.deletes key
  rw [hdeletes]
  rintro (hbefore | ⟨l, -, hissues, -⟩)
  · have hnil : key ∈ site.deletes.map Prod.fst := hbefore
    rw [huntouched.2.2.1] at hnil
    cases hnil
  · cases hissues.2.1

omit huntouched in
theorem dry_manifest :
    (manifestOf cfg s₁).map PartitionEntry.line = (registered digest cfg site).map fun e =>
      (bucketOf site.nas).outcome (reachedLines digest cfg site) e.line := by
  have hfile : (s₁.view cfg).file = some (s₁.view cfg).lines := hdry.file rfl
  rw [manifestOf_map hfile, hdry.lines]
  exact List.map_map

theorem dry_manifest_ok : ManifestOk s₁.nas s₁.nas (registered digest cfg s₁) := by
  refine ManifestOk.registered ?_
  have hok : ManifestOk site.nas site.nas (registered digest cfg site) :=
    registered_untouched_ok huntouched
  refine hok.outcome ?_ (dry_manifest hdry)
  intro e he
  rw [registered_untouched huntouched] at he
  obtain ⟨k, -, rfl⟩ := List.mem_map.mp he
  rfl

/-- **What the dry run marked, the live run skips.** -/
theorem dry_skips (hkey : key ∈ (firstBatch cfg site.nas).1)
    (hmoves : (bucketOf site.nas).CanMove key (buildNewKey key)) :
    ∀ l ∈ openLines digest cfg s₁, l.oldKey ≠ key := by
  have hcandidate : key ∈ candidates cfg site.nas :=
    mem_candidates_of_firstBatch (Or.inl hkey)
  have hmarked : Marked digest cfg s₁.sentinels key := by
    refine (hdry.sentinels _).mpr (Or.inr ⟨pendingLine key, ?_, ?_, rfl⟩)
    · rw [reachedLines_untouched huntouched]
      exact List.mem_map_of_mem hkey
    · exact (verdict_pending_done (legacy_of_candidate hcandidate)).mpr hmoves
  intro l hl hold
  have hlok := openLines_ok (dry_manifest_ok huntouched hdry) l hl
  obtain ⟨e, he, hmid, rfl⟩ := mem_openLines.mp hl
  have hid : e.partitionId = buildPartitionId key := by
    rw [← hold]
    exact hlok.partitionId
  have hdone : e.status = .done :=
    populate_done ((dry_candidates huntouched hdry).mpr hcandidate) hmarked he hid
  rw [hdone] at hmid
  cases hmid

section

variable (hfirst : Stuck site.nas (firstBatch cfg site.nas).1)

include hfirst

omit hdry in
theorem dry_verdict_ne :
    ∀ l ∈ reachedLines digest cfg site, (bucketOf site.nas).verdict l ≠ .done := by
  intro l hl
  rw [reachedLines_untouched huntouched] at hl
  obtain ⟨k, hk, rfl⟩ := List.mem_map.mp hl
  have hcandidate := mem_candidates_of_firstBatch (Or.inl hk)
  exact (not_congr (verdict_pending_done (legacy_of_candidate hcandidate))).mpr (hfirst k hk)

/-- With nothing moved, there is no sentinel, and the live run finds the rows the dry run
did not come to. -/
theorem dry_leaves_rest :
    openLines digest cfg s₁ = (firstBatch cfg site.nas).2.map pendingLine := by
  have hunmarked : s₁.sentinels = [] := by
    refine List.eq_nil_iff_forall_not_mem.mpr fun path hpath => ?_
    rcases (hdry.sentinels path).mp hpath with hbefore | ⟨l, hl, hdone, -⟩
    · have hnil : path ∈ site.sentinels := hbefore
      rw [huntouched.2.1] at hnil
      cases hnil
    · exact dry_verdict_ne huntouched hfirst l hl hdone
  have hfresh : ∀ k ∈ candidates cfg s₁.nas, ¬ Marked digest cfg s₁.sentinels k := by
    intro k _ hmarked
    rw [hunmarked] at hmarked
    cases hmarked
  have hlines := dry_manifest hdry
  have hthere : ∀ k ∈ candidates cfg s₁.nas,
      ∃ e ∈ manifestOf cfg s₁, e.partitionId = buildPartitionId k := by
    intro k hk
    obtain ⟨e, he, hid⟩ : ∃ e ∈ registered digest cfg site, e.partitionId = buildPartitionId k := by
      refine exists_mem_populate ?_ ((dry_candidates huntouched hdry).mp hk)
      intro k' _ hmarked
      rw [huntouched.2.1] at hmarked
      cases hmarked
    have hline : (bucketOf site.nas).outcome (reachedLines digest cfg site) e.line ∈
        (manifestOf cfg s₁).map PartitionEntry.line := by
      rw [hlines]
      exact List.mem_map_of_mem he
    obtain ⟨e', he', heq⟩ := List.mem_map.mp hline
    obtain ⟨status, houtcome, -⟩ :=
      outcome_eq (bucketOf site.nas) (reachedLines digest cfg site) e.line
    exact ⟨e', he', (congrArg Line.partitionId (heq.trans houtcome)).trans hid⟩
  have hregistered : registered digest cfg s₁ = manifestOf cfg s₁ := populate_eq_self hfresh hthere
  have hopen : openLines digest cfg s₁ =
      ((manifestOf cfg s₁).map PartitionEntry.line).filter fun l => l.status.midFlight := by
    unfold openLines Manifest.resumable
    rw [hregistered, List.filter_map]
    rfl
  rw [hopen, hlines]
  have hmap : (registered digest cfg site).map (fun e =>
      (bucketOf site.nas).outcome (reachedLines digest cfg site) e.line) =
      ((registered digest cfg site).map PartitionEntry.line).map
        ((bucketOf site.nas).outcome (reachedLines digest cfg site)) := by
    rw [List.map_map]
    rfl
  rw [hmap, rows_untouched huntouched]
  refine filter_outcome (rows_apart huntouched) (fun l _ => (verdict_ends _ l).1) ?_
  intro l hl
  obtain ⟨k, -, rfl⟩ := List.mem_map.mp hl
  rfl

end

/-- What the dry run did not come to is as it was. -/
theorem dry_agrees (hkey : key ∈ (firstBatch cfg site.nas).2) :
    AgreeAt (pendingLine key) (bucketOf s₁.nas) (bucketOf site.nas) := by
  intro k howns
  refine hdry.elsewhere k fun l hl => ?_
  have hlok := openLines_ok (registered_untouched_ok huntouched) l (mem_openLines_of_reached hl)
  have hlegacy := legacy_of_candidate (mem_candidates_of_firstBatch (Or.inr hkey))
  have hapart : l.partitionId ≠ (pendingLine key).partitionId :=
    (List.pairwise_append.mp (rows_apart huntouched)).2.2 l hl _ (List.mem_map_of_mem hkey)
  exact hlok.not_owns ⟨hlegacy, rfl, rfl⟩ hapart howns

/-- The rows the live run comes to, if the dry run moved nothing. -/
theorem dry_reachedLines (hfirst : Stuck site.nas (firstBatch cfg site.nas).1) :
    reachedLines digest cfg s₁ = (secondBatch cfg site.nas).map pendingLine := by
  unfold reachedLines
  rw [dry_leaves_rest huntouched hdry hfirst, reached_map]
  have hcongr : reached cfg.threshold (fun k => (bucketOf s₁.nas).fails (pendingLine k))
      (firstBatch cfg site.nas).2 0 0 =
        comesTo cfg (bucketOf site.nas) (firstBatch cfg site.nas).2 := by
    refine reached_congr fun k hk => ?_
    obtain ⟨hlegacy, src, hsrc⟩ := source_of_candidate (mem_candidates_of_firstBatch (Or.inr hk))
    rw [← fails_pending hlegacy hsrc]
    unfold Bucket.fails
    rw [(dry_agrees huntouched hdry hk).verdict]
  rw [hcongr]
  rfl

/-- If nothing is moved, a live run alone leaves the bucket of the dry run. -/
theorem live_eq_dry {s₂ : Site C} (hfirst : Stuck site.nas (firstBatch cfg site.nas).1)
    (hlive : Swept digest cfg (reachedLines digest cfg site) (site.begun digest cfg)
      (s₂.view cfg)) : bucketOf s₂.nas = bucketOf s₁.nas := by
  funext k
  by_cases howned : ∃ l ∈ reachedLines digest cfg site, l.Owns k
  · obtain ⟨l, hl, howns⟩ := howned
    have hverdict := dry_verdict_ne huntouched hfirst l hl
    have hdry' : bucketOf s₁.nas k = (bucketOf site.nas).settled true l k := hdry.own l hl k howns
    have hlive' : bucketOf s₂.nas k = (bucketOf site.nas).settled cfg.dryRun l k :=
      hlive.own l hl k howns
    rw [hdry', hlive']
    rw [reachedLines_untouched huntouched] at hl
    obtain ⟨key, -, rfl⟩ := List.mem_map.mp hl
    rw [settled_pending hverdict, settled_pending hverdict]
  · push Not at howned
    have hdry' : bucketOf s₁.nas k = bucketOf site.nas k := hdry.elsewhere k howned
    have hlive' : bucketOf s₂.nas k = bucketOf site.nas k := hlive.elsewhere k howned
    rw [hdry', hlive']

end

/-! ## dry and live -/

/-- What a run begins with does not depend on whether it is dry. -/
theorem registered_dry (dryRun : Bool) (s : Site C) :
    registered digest { cfg with dryRun := dryRun } s = registered digest cfg s := by
  have hpopulate : ∀ (sentinels : List Path) (keys : List Key) (m : Manifest C),
      populate digest { cfg with dryRun := dryRun } sentinels keys m =
        populate digest cfg sentinels keys m := by
    intro sentinels keys
    induction keys with
    | nil => exact fun _ => rfl
    | cons key rest ih => exact fun m => ih _
  exact hpopulate _ _ _

theorem reachedLines_dry (dryRun : Bool) (s : Site C) :
    reachedLines digest { cfg with dryRun := dryRun } s = reachedLines digest cfg s := by
  unfold reachedLines openLines
  rw [registered_dry]

theorem begun_dry (dryRun : Bool) (s : Site C) :
    s.begun digest { cfg with dryRun := dryRun } = s.begun digest cfg := by
  unfold Site.begun
  rw [registered_dry]
  rfl

theorem objectAt_eq (s : Site C) (key : Key) :
    s.objectAt key = (bucketOf s.nas key).map fun o => (o.body, o.sha256) := by
  unfold Site.objectAt bucketOf
  rw [Option.map_map]
  rfl

theorem mem_firstBatch_of_second (h : key ∈ secondBatch cfg nas) : key ∈ (firstBatch cfg nas).2 :=
  (reached_initial _).subset h

section

variable {site s₁ s₂ s₃ : Site C} (huntouched : site.Untouched)
  (hdry : Swept digest { cfg with dryRun := true } (reachedLines digest cfg site)
    (site.begun digest cfg) (s₁.view cfg))

include huntouched hdry

variable (hfirst : Stuck site.nas (firstBatch cfg site.nas).1) (hlive : cfg.dryRun = false)
  (hagain : Swept digest cfg (reachedLines digest cfg s₁) (s₁.begun digest cfg) (s₂.view cfg))
include hfirst hlive hagain

/-- The live run after the dry run deletes something if and only if its batch finds something
to move. -/
theorem second_deletes_iff :
    s₂.deletes.map Prod.fst = [] ↔ Stuck site.nas (secondBatch cfg site.nas) := by
  have hreached := dry_reachedLines huntouched hdry hfirst
  have hdone : ∀ key ∈ secondBatch cfg site.nas,
      ((bucketOf s₁.nas).verdict (pendingLine key) = .done ↔
        (bucketOf site.nas).CanMove key (buildNewKey key)) := by
    intro key hkey
    have hkey' := mem_firstBatch_of_second hkey
    rw [(dry_agrees huntouched hdry hkey').verdict]
    exact verdict_pending_done (legacy_of_candidate (mem_candidates_of_firstBatch (Or.inr hkey')))
  constructor
  · intro hnil key hkey hmoves
    have hkey' := mem_firstBatch_of_second hkey
    obtain ⟨-, src, hsrc⟩ := source_of_candidate (mem_candidates_of_firstBatch (Or.inr hkey'))
    have hthere : (bucketOf s₁.nas key).isSome = true := by
      rw [show bucketOf s₁.nas key = bucketOf site.nas key from
        (dry_agrees huntouched hdry hkey').old, hsrc]
      rfl
    have hmem : pendingLine key ∈ reachedLines digest cfg s₁ :=
      hreached ▸ List.mem_map_of_mem hkey
    have hdeleted : key ∈ s₂.deletes.map Prod.fst := (hagain.deletes key).mpr
      (Or.inr ⟨_, hmem, ⟨(hdone key hkey).mpr hmoves, hlive, Or.inr hthere⟩, rfl⟩)
    rw [hnil] at hdeleted
    cases hdeleted
  · intro hsecond
    refine List.eq_nil_iff_forall_not_mem.mpr fun k hdeleted => ?_
    rcases (hagain.deletes k).mp hdeleted with hbefore | ⟨l, hl, hissues, -⟩
    · exact dry_deletes huntouched hdry hbefore
    · rw [hreached] at hl
      obtain ⟨key, hkey, rfl⟩ := List.mem_map.mp hl
      exact hsecond key hkey ((hdone key hkey).mp hissues.1)

/-- A site is compared with one whose bucket is that of the dry run and that deleted
nothing: the second batch decides. -/
theorem second_sameEnd_iff (hbucket : bucketOf s₃.nas = bucketOf s₁.nas)
    (hdeletes : s₃.deletes.map Prod.fst = []) :
    SameEnd s₂ s₃ ↔ Stuck site.nas (secondBatch cfg site.nas) ∧
      ∀ key ∈ secondBatch cfg site.nas, ∀ src, bucketOf site.nas key = some src →
        src.sha256 = none → ∃ dst, bucketOf site.nas (buildNewKey key) = some dst ∧
          dst.body = src.body ∧ dst.sha256 = none := by
  have hreached := dry_reachedLines huntouched hdry hfirst
  have hagree : ∀ key ∈ secondBatch cfg site.nas,
      AgreeAt (pendingLine key) (bucketOf s₁.nas) (bucketOf site.nas) :=
    fun key hkey => dry_agrees huntouched hdry (mem_firstBatch_of_second hkey)
  have hsource : ∀ key ∈ secondBatch cfg site.nas,
      Legacy key ∧ ∃ src, bucketOf site.nas key = some src := fun key hkey =>
    source_of_candidate (mem_candidates_of_firstBatch (Or.inr (mem_firstBatch_of_second hkey)))
  -- with nothing to move, the batch copies
  have hown : Stuck site.nas (secondBatch cfg site.nas) → ∀ key ∈ secondBatch cfg site.nas,
      (bucketOf site.nas).verdict (pendingLine key) ≠ .done ∧
      AgreeAt (pendingLine key) (bucketOf s₂.nas)
        ((bucketOf site.nas).copied key (buildNewKey key)) := by
    intro hsecond key hkey
    have hverdict : (bucketOf site.nas).verdict (pendingLine key) ≠ .done :=
      (not_congr (verdict_pending_done (hsource key hkey).1)).mpr (hsecond key hkey)
    refine ⟨hverdict, fun k howns => ?_⟩
    have hmem : pendingLine key ∈ reachedLines digest cfg s₁ :=
      hreached ▸ List.mem_map_of_mem hkey
    have hsettled : bucketOf s₂.nas k =
        (bucketOf s₁.nas).settled cfg.dryRun (pendingLine key) k := hagain.own _ hmem k howns
    rw [hsettled, (hagree key hkey).settled k howns, settled_pending hverdict]
  constructor
  · intro hsame
    have hsecond := (second_deletes_iff huntouched hdry hfirst hlive hagain).mp
      (List.eq_nil_iff_forall_not_mem.mpr fun key hkey => by
        rw [hsame.deletes, hdeletes] at hkey
        cases hkey)
    refine ⟨hsecond, fun key hkey src hsrc hsha => ?_⟩
    have hobject := hsame.objects (buildNewKey key)
    rw [objectAt_eq, objectAt_eq, hbucket,
      show bucketOf s₂.nas (buildNewKey key) = _ from (hown hsecond key hkey).2.new,
      show bucketOf s₁.nas (buildNewKey key) = _ from (hagree key hkey).new] at hobject
    rw [show Bucket.copied _ _ _ (pendingLine key).newKey = _ from
      copied_of_unhashed hsrc hsha] at hobject
    obtain ⟨dst, hdst, heq⟩ := Option.map_eq_some_iff.mp hobject.symm
    obtain ⟨hbody, hsha'⟩ := Prod.mk.inj heq
    exact ⟨dst, hdst, hbody, hsha'.trans hsha⟩
  · rintro ⟨hsecond, hcopies⟩
    have hnone := (second_deletes_iff huntouched hdry hfirst hlive hagain).mpr hsecond
    refine ⟨fun k => ?_, fun k => by rw [hnone, hdeletes]⟩
    rw [objectAt_eq, objectAt_eq, hbucket]
    by_cases howned : ∃ key ∈ secondBatch cfg site.nas, (pendingLine key).Owns k
    · obtain ⟨key, hkey, howns⟩ := howned
      obtain ⟨hlegacy, src, hsrc⟩ := hsource key hkey
      obtain ⟨hends, hcopied⟩ := hown hsecond key hkey
      rw [hcopied k howns, hagree key hkey k howns]
      rcases howns with hold | hnew
      · rw [show k = key from hold, Bucket.copied_of_ne (ne_buildNewKey hlegacy hlegacy)]
      · rw [show k = buildNewKey key from hnew]
        rcases blocked_or_unhashed hlegacy hsrc hends with hblocked | hsha
        · rw [copied_of_blocked hblocked]
        · obtain ⟨dst, hdst, hbody, hunhashed⟩ := hcopies key hkey src hsrc hsha
          rw [copied_of_unhashed hsrc hsha, hdst, Option.map_some, Option.map_some, hbody, hsha,
            hunhashed]
    · have hnot : ∀ l ∈ reachedLines digest cfg s₁, ¬ l.Owns k := by
        intro l hl howns
        rw [hreached] at hl
        obtain ⟨key, hkey, rfl⟩ := List.mem_map.mp hl
        exact howned ⟨key, hkey, howns⟩
      have hsame : bucketOf s₂.nas k = bucketOf s₁.nas k := hagain.elsewhere k hnot
      rw [hsame]

end

/-- Without candidates neither run does anything. -/
theorem idle_sameEnd {site s₁ : Site C} (huntouched : site.Untouched)
    (hnone : candidates cfg site.nas = [])
    (hdry : Swept digest { cfg with dryRun := true } (reachedLines digest cfg site)
      (site.begun digest cfg) (s₁.view cfg)) (hlive : cfg.dryRun = false)
    {launch launch' : Launch} {replies replies' : Stream' Reply} {crashes crashes' : Stream' Bool}
    (hready : Ready cfg launch (Attempt.start ⟨cfg, launch, replies, crashes⟩ site))
    (hagain : Ready cfg launch' (Attempt.start ⟨cfg, launch', replies', crashes'⟩ s₁)) :
    SameEnd (Attempt.leaves digest ⟨cfg, launch', replies', crashes'⟩ s₁)
      (Attempt.leaves digest ⟨cfg, launch, replies, crashes⟩ site) := by
  have hnone' : candidates cfg s₁.nas = [] := by
    refine List.eq_nil_iff_forall_not_mem.mpr fun key hkey => ?_
    rw [dry_candidates huntouched hdry, hnone] at hkey
    cases hkey
  have hbucket : bucketOf s₁.nas = bucketOf site.nas := by
    funext key
    refine hdry.elsewhere key fun l hl => ?_
    obtain ⟨e, he, -⟩ := mem_openLines.mp (mem_openLines_of_reached hl)
    rw [registered_untouched huntouched, hnone] at he
    cases he
  obtain ⟨hnas, -, hdeletes, -⟩ : Eff.wp (run digest cfg launch) _
    (Attempt.start ⟨cfg, launch, replies, crashes⟩ site) := run_idle hready hlive hnone
  obtain ⟨hnas', -, hdeletes', -⟩ : Eff.wp (run digest cfg launch') _
    (Attempt.start ⟨cfg, launch', replies', crashes'⟩ s₁) := run_idle hagain hlive hnone'
  have hlast : (Attempt.leaves digest ⟨cfg, launch', replies', crashes'⟩ s₁).nas = s₁.nas := hnas'
  have hlast' : (Attempt.leaves digest ⟨cfg, launch, replies, crashes⟩ site).nas = site.nas := hnas
  refine ⟨?_, ?_⟩
  · intro key
    rw [objectAt_eq, objectAt_eq, hlast, hlast', hbucket]
  · intro key
    have hnone₁ : key ∉ s₁.deletes.map Prod.fst := dry_deletes huntouched hdry
    have hnone₂ : key ∉ site.deletes.map Prod.fst := by
      rw [huntouched.2.2.1]
      exact List.not_mem_nil
    exact iff_of_false (fun h => hnone₁ (hdeletes' ▸ h)) (fun h => hnone₂ (hdeletes ▸ h))

/-- **When a dry run makes no difference.** A dry run and then a live run, and a live run
alone, end with the same objects and the same deleted keys if and only if there is nothing
to move. -/
theorem dryRun_then_live_iff {site : Site C} (huntouched : site.Untouched)
    {dry live again : Attempt} (hdryConfig : dry.config = { live.config with dryRun := true })
    (hagainConfig : again.config = live.config) (hlive : live.config.dryRun = false)
    (hdry : Ready dry.config dry.launch (dry.start site))
    (hready : Ready live.config live.launch (live.start site))
    (hagain : Ready again.config again.launch (again.start (dry.leaves digest site)))
    (hroomy : Roomy digest live.config site)
    (hroomy' : Roomy digest live.config (dry.leaves digest site)) :
    SameEnd (again.leaves digest (dry.leaves digest site)) (live.leaves digest site) ↔
      NothingToMove live.config site.nas := by
  obtain ⟨cfg, launch, replies, crashes⟩ := live
  obtain ⟨cfg', launch', replies', crashes'⟩ := again
  obtain ⟨cfg'', launch'', replies'', crashes''⟩ := dry
  cases hagainConfig
  cases hdryConfig
  have hok : ManifestOk site.nas site.nas (registered digest cfg site) :=
    registered_untouched_ok huntouched
  have hokDry : ManifestOk site.nas site.nas
      (registered digest { cfg with dryRun := true } site) := registered_untouched_ok huntouched
  have hroomyDry : Roomy digest { cfg with dryRun := true } site := by
    refine ⟨?_, ?_⟩
    · rw [registered_dry]
      exact hroomy.batchSize
    · rw [registered_dry]
      exact hroomy.maxPartitions
  obtain ⟨-, hdryEnds⟩ := Attempt.leaves_swept hokDry hdry hroomyDry (Or.inl rfl)
  generalize Attempt.leaves digest ⟨{ cfg with dryRun := true }, launch'', replies'', crashes''⟩
    site = s₁ at hdryEnds hagain hroomy' ⊢
  have hdrySwept : Swept digest { cfg with dryRun := true } (reachedLines digest cfg site)
      (site.begun digest cfg) (s₁.view cfg) := by
    have hends : Swept digest { cfg with dryRun := true }
      (reachedLines digest { cfg with dryRun := true } site)
      (site.begun digest { cfg with dryRun := true }) (s₁.view cfg) := hdryEnds
    rw [reachedLines_dry, begun_dry] at hends
    exact hends
  by_cases hnone : candidates cfg site.nas = []
  · have hbatch : firstBatch cfg site.nas = ([], []) := by
      unfold firstBatch
      rw [hnone]
      rfl
    have hsecond : secondBatch cfg site.nas = [] := by
      unfold secondBatch
      rw [hbatch]
      rfl
    refine iff_of_true ?_ ⟨?_, ?_, ?_⟩
    · exact idle_sameEnd huntouched hnone hdrySwept hlive hready hagain
    all_goals simp [hbatch, hsecond]
  · have hsome : candidates cfg s₁.nas ≠ [] := by
      obtain ⟨key, hkey⟩ := List.exists_mem_of_ne_nil _ hnone
      exact List.ne_nil_of_mem ((dry_candidates huntouched hdrySwept).mpr hkey)
    obtain ⟨-, hliveSwept⟩ := Attempt.leaves_swept hok hready hroomy (Or.inr hnone)
    obtain ⟨-, hagainSwept⟩ :=
      Attempt.leaves_swept (dry_manifest_ok huntouched hdrySwept) hagain hroomy' (Or.inr hsome)
    generalize Attempt.leaves digest ⟨cfg, launch, replies, crashes⟩ site = s₃ at hliveSwept ⊢
    generalize Attempt.leaves digest ⟨cfg, launch', replies', crashes'⟩ s₁ = s₂ at hagainSwept ⊢
    -- what the dry run moved, the live run alone would have deleted
    have hfirst : SameEnd s₂ s₃ → Stuck site.nas (firstBatch cfg site.nas).1 := by
      intro hsame key hkey hmoves
      obtain ⟨hlegacy, src, hsrc⟩ := source_of_candidate
        (mem_candidates_of_firstBatch (Or.inl hkey))
      have hmem : pendingLine key ∈ reachedLines digest cfg site := by
        rw [reachedLines_untouched huntouched]
        exact List.mem_map_of_mem hkey
      have hissues : (bucketOf site.nas).issues cfg.dryRun (pendingLine key) := by
        refine ⟨(verdict_pending_done hlegacy).mpr hmoves, hlive, Or.inr ?_⟩
        rw [show bucketOf site.nas (pendingLine key).oldKey = some src from hsrc]
        rfl
      have hdeleted : key ∈ s₃.deletes.map Prod.fst :=
        (hliveSwept.deletes key).mpr (Or.inr ⟨_, hmem, hissues, rfl⟩)
      rw [← hsame.deletes] at hdeleted
      rcases (hagainSwept.deletes key).mp hdeleted with hbefore | ⟨l, hl, -, heq⟩
      · exact dry_deletes huntouched hdrySwept hbefore
      · exact dry_skips huntouched hdrySwept hkey hmoves l (mem_openLines_of_reached hl) heq.symm
    have hnodelete : Stuck site.nas (firstBatch cfg site.nas).1 → s₃.deletes.map Prod.fst = [] := by
      intro hfirst
      refine List.eq_nil_iff_forall_not_mem.mpr fun key hdeleted => ?_
      rcases (hliveSwept.deletes key).mp hdeleted with hbefore | ⟨l, hl, hissues, -⟩
      · have hnil : key ∈ site.deletes.map Prod.fst := hbefore
        simp [huntouched.2.2.1] at hnil
      · exact dry_verdict_ne huntouched hfirst l hl hissues.1
    constructor
    · intro hsame
      have hmoved := hfirst hsame
      obtain ⟨hsecond, hcopies⟩ := (second_sameEnd_iff huntouched hdrySwept hmoved hlive hagainSwept
        (live_eq_dry huntouched hdrySwept hmoved hliveSwept) (hnodelete hmoved)).mp hsame
      exact ⟨hmoved, hsecond, hcopies⟩
    · intro hnothing
      exact (second_sameEnd_iff huntouched hdrySwept hnothing.first hlive hagainSwept
        (live_eq_dry huntouched hdrySwept hnothing.first hliveSwept)
        (hnodelete hnothing.first)).mpr ⟨hnothing.second, hnothing.copies⟩

/-- The dry run of the configuration of `liveRun`. -/
def dryFirst : Attempt := { liveRun with config := { liveRun.config with dryRun := true } }

/-- A legacy object whose flat key holds another object. -/
def blockedObject : Site String :=
  exampleSite [(exampleKey "a", exampleObj "rows"), (exampleKey "a.compacted", exampleObj ""),
    (buildNewKey (exampleKey "a"), exampleObj "other")]

theorem not_canMove_of_blocked (hkey : Legacy key) (hsrc : b key = some src)
    (hblocked : b.blocked key = true) : ¬ b.CanMove key (buildNewKey key) := by
  rw [← verdict_pending_done hkey, verdict_pending hkey hsrc, if_pos hblocked]
  decide

/-- On a blocked object a dry run makes no difference. -/
theorem dryRun_then_live_blocked :
    SameEnd (liveRun.leaves String.ofList (dryFirst.leaves String.ofList blockedObject))
      (liveRun.leaves String.ofList blockedObject) := by
  have hfirst : firstBatch liveRun.config blockedObject.nas = ([exampleKey "a"], []) := by
    decide +kernel
  have hsecond : secondBatch liveRun.config blockedObject.nas = [] := by decide +kernel
  have hblocked : (bucketOf blockedObject.nas).blocked (exampleKey "a") = true := by
    decide +kernel
  have hnothing : NothingToMove liveRun.config blockedObject.nas := by
    refine ⟨?_, ?_, ?_⟩
    · intro key hkey
      obtain ⟨hlegacy, src, hsrc⟩ := source_of_candidate
        (mem_candidates_of_firstBatch (Or.inl hkey))
      rw [List.mem_singleton.mp hkey] at hsrc hlegacy ⊢
      exact not_canMove_of_blocked hlegacy hsrc hblocked
    all_goals simp [hsecond]
  have hlength : (registered String.ofList liveRun.config blockedObject).resumable.length = 1 := by
    decide +kernel
  have hlength' : (registered String.ofList liveRun.config
      (dryFirst.leaves String.ofList blockedObject)).resumable.length = 0 := by
    decide +kernel
  have hdry : Ready dryFirst.config dryFirst.launch (dryFirst.start blockedObject) :=
    ready_of_versioning (Or.inl rfl) (by decide) rfl
  have hlive : Ready liveRun.config liveRun.launch (liveRun.start blockedObject) :=
    ready_of_versioning (Or.inr rfl) (by decide) rfl
  have hagain : Ready liveRun.config liveRun.launch
      (liveRun.start (dryFirst.leaves String.ofList blockedObject)) :=
    ready_of_versioning (Or.inr rfl) (by decide) (by decide +kernel)
  have huntouched : blockedObject.Untouched := ⟨rfl, rfl, rfl, rfl⟩
  exact (dryRun_then_live_iff huntouched rfl rfl rfl hdry hlive hagain
    (roomy_of_length hlength (by decide) rfl) (roomy_of_length hlength' (by decide) rfl)).mpr
      hnothing

/-- **A dry run keeps the live run from deleting.** Alone, the live run deletes the old key
of the object; after the dry run it does not. -/
theorem dryRun_keeps_old_key :
    ¬ SameEnd (liveRun.leaves String.ofList (dryFirst.leaves String.ofList oneObject))
      (liveRun.leaves String.ofList oneObject) := by
  intro hsame
  have hdeleted : exampleKey "a" ∈
      (liveRun.leaves String.ofList oneObject).deletes.map Prod.fst := by
    decide +kernel
  have hkept : exampleKey "a" ∉ (liveRun.leaves String.ofList
      (dryFirst.leaves String.ofList oneObject)).deletes.map Prod.fst := by
    decide +kernel
  exact hkept ((hsame.deletes _).mpr hdeleted)

end MctraderData.Migration
