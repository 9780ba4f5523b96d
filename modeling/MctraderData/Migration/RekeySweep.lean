import MctraderData.Migration.RekeyMarkers

/-!
# mctrader-data — the partitions of a re-key run do not disturb each other

A partition reads and writes its two keys. Different partitions have different keys, so
each one ends as it would end alone: how far a batch gets, and what it leaves, is decided
by the bucket it began with.

## Results

* `sweep_eq_foldl` — a batch settles the partitions it reaches, which are known beforehand.
* `swept_foldl` — what it leaves at every key, row and sentinel.
* `populate_done`, `mem_populate`, `subset_populate` — what registering the candidates
  does to a manifest.
* `run_swept` — an undisturbed run settles the rows it reaches.
-/

namespace MctraderData.Migration

open Lib
open Nas

variable {C : Type} [Blob C] {digest : Digest16} {cfg : RekeyConfig}

/-! ## the keys of a partition -/

/-- A row of a legacy object. -/
structure Line.Ok (l : Line) : Prop where
  legacy : Legacy l.oldKey
  newKey : l.newKey = buildNewKey l.oldKey
  partitionId : l.partitionId = buildPartitionId l.oldKey

def Line.Owns (l : Line) (key : Key) : Prop := key = l.oldKey ∨ key = l.newKey

/-- Rows of different partitions. -/
def Apart (ls : List Line) : Prop := ls.Pairwise fun l l' => l.partitionId ≠ l'.partitionId

variable {l l' : Line} {ls : List Line} {b b' : Bucket C} {v v' : View C} {key : Key}

theorem Line.Ok.oldKey_ne_newKey (h : l.Ok) : l.oldKey ≠ l.newKey := by
  rw [h.newKey]
  exact ne_buildNewKey h.legacy h.legacy

theorem Line.Ok.partitionId_eq (h : l.Ok) (h' : l'.Ok) (heq : l.oldKey = l'.oldKey) :
    l.partitionId = l'.partitionId := by
  rw [h.partitionId, h'.partitionId, heq]

/-- Different partitions have different keys. -/
theorem Line.Ok.not_owns (h : l.Ok) (h' : l'.Ok) (hne : l.partitionId ≠ l'.partitionId)
    (howns : l'.Owns key) : ¬ l.Owns key := by
  have hold : l.oldKey ≠ l'.oldKey := fun heq => hne (h.partitionId_eq h' heq)
  intro hl
  rcases howns with rfl | rfl
  · rcases hl with heq | heq
    · exact hold heq.symm
    · rw [h.newKey] at heq
      exact ne_buildNewKey h'.legacy h.legacy heq
  · rw [h'.newKey] at hl
    rcases hl with heq | heq
    · exact ne_buildNewKey h.legacy h'.legacy heq.symm
    · rw [h.newKey] at heq
      exact hold (buildNewKey_injective h'.legacy h.legacy heq).symm

/-- The buckets have the same at the keys of a partition. -/
def AgreeAt (l : Line) (b b' : Bucket C) : Prop := ∀ key, l.Owns key → b key = b' key

theorem AgreeAt.old (h : AgreeAt l b b') : b l.oldKey = b' l.oldKey := h _ (Or.inl rfl)

theorem AgreeAt.new (h : AgreeAt l b b') : b l.newKey = b' l.newKey := h _ (Or.inr rfl)

/-- A copy is decided by the two keys. -/
theorem AgreeAt.copied (h : AgreeAt l b b') :
    AgreeAt l (b.copied l.oldKey l.newKey) (b'.copied l.oldKey l.newKey) := by
  intro key hkey
  unfold Bucket.copied
  rw [h.old, h.new]
  cases b' l.oldKey with
  | none => exact h key hkey
  | some src =>
    show (if _ then b else Function.update b _ _) key =
      (if _ then b' else Function.update b' _ _) key
    split
    · exact h key hkey
    · by_cases hnew : key = l.newKey
      · rw [hnew, Function.update_self, Function.update_self]
      · rw [Function.update_of_ne hnew, Function.update_of_ne hnew]
        exact h key hkey

/-- **How a partition ends is decided by its keys.** -/
theorem AgreeAt.verdict (h : AgreeAt l b b') : b.verdict l = b'.verdict l := by
  have hchecked : ∀ {b₁ b₂ : Bucket C}, AgreeAt l b₁ b₂ →
      b₁.checked l.oldKey l.newKey = b₂.checked l.oldKey l.newKey := by
    intro b₁ b₂ hagree
    unfold Bucket.checked
    rw [hagree.old, hagree.new]
  unfold Bucket.verdict
  rw [hchecked h, hchecked h.copied, h.old, h.new]

variable {dryRun : Bool}

theorem AgreeAt.settled (h : AgreeAt l b b') :
    AgreeAt l (b.settled dryRun l) (b'.settled dryRun l) := by
  intro key hkey
  have hbefore : (if l.status.skipsCopy then b else b.copied l.oldKey l.newKey) key =
      (if l.status.skipsCopy then b' else b'.copied l.oldKey l.newKey) key := by
    split
    · exact h key hkey
    · exact h.copied key hkey
  unfold Bucket.settled
  rw [h.verdict]
  split
  · by_cases hold : key = l.oldKey
    · rw [hold, Function.update_self, Function.update_self]
    · rw [Function.update_of_ne hold, Function.update_of_ne hold]
      exact hbefore
  · exact hbefore

/-- **A partition touches its own keys only.** -/
theorem settled_of_not_owns (h : ¬ l.Owns key) : b.settled dryRun l key = b key := by
  have hold : key ≠ l.oldKey := fun heq => h (Or.inl heq)
  have hnew : key ≠ l.newKey := fun heq => h (Or.inr heq)
  have hbefore : (if l.status.skipsCopy then b else b.copied l.oldKey l.newKey) key = b key := by
    split
    · rfl
    · exact Bucket.copied_of_ne hnew
  unfold Bucket.settled
  split
  · rw [Function.update_of_ne hold]
    exact hbefore
  · exact hbefore

/-- A partition finds the keys of another one as they were. -/
theorem agreeAt_settled (h : l.Ok) (h' : l'.Ok) (hne : l.partitionId ≠ l'.partitionId) :
    AgreeAt l' (b.settled dryRun l) b :=
  fun _ howns => settled_of_not_owns (h.not_owns h' hne howns)

/-! ## when a partition ends well -/

/-- The copy of an object: same sha256, same length, and a version id. -/
def Stored.Matches (src dst : Stored C) : Prop :=
  ∃ sha, src.sha256 = some sha ∧ dst.sha256 = some sha ∧ dst.versioned = true ∧
    Blob.size src.body = Blob.size dst.body

namespace Bucket

/-- The object at `old` can be moved to `new`: it has a sha256, and at `new` there is
nothing, or something without a sha256, or its copy. Or it was moved. -/
def CanMove (b : Bucket C) (old new : Key) : Prop :=
  match b old with
  | some src => src.sha256 ≠ none ∧ ∀ dst, b new = some dst → dst.sha256 = none ∨ src.Matches dst
  | none => ∃ dst, b new = some dst ∧ dst.sha256 ≠ none

/-- A partition can be resumed from its status. -/
def CanSettle (b : Bucket C) (l : Line) : Prop :=
  if l.status.skipsVerify then True
  else if l.status.skipsCopy then
    ∃ src dst, b l.oldKey = some src ∧ b l.newKey = some dst ∧ src.Matches dst
  else b.CanMove l.oldKey l.newKey

theorem passes_iff {src dst : Stored C} :
    src.passes dst = true ∧ (src.sha256.isNone && dst.sha256.isNone) = false ↔ src.Matches dst := by
  unfold Stored.passes Stored.Matches
  cases src.sha256 <;> cases dst.sha256 <;> simp
  grind

/-- The check looks at what the two keys hold. -/
theorem checked_eq_done {old new : Key} :
    b.checked old new = .done ↔
      ∃ src dst, b old = some src ∧ b new = some dst ∧ src.Matches dst := by
  unfold checked
  cases b old with
  | none => simp
  | some src =>
    cases b new with
    | none => simp
    | some dst =>
      simp only [Option.some.injEq, exists_eq_left', exists_and_left]
      rw [← passes_iff]
      split_ifs <;> simp [*]

/-- After the copy, the verification passes if the object could be moved. -/
theorem checked_copied {old new : Key} {src : Stored C} (hne : old ≠ new)
    (hsrc : b old = some src) :
    (b.copied old new).checked old new = .done ↔
      src.sha256 ≠ none ∧ ∀ dst, b new = some dst → dst.sha256 = none ∨ src.Matches dst := by
  rw [checked_eq_done, copied_of_ne hne, hsrc]
  by_cases hany : (b new).any src.comparable = true
  · -- the object at the destination stays
    obtain ⟨dst, hdst, hcomparable⟩ := (Option.any_eq_true _ _).mp hany
    rw [copied_of_comparable hsrc hdst hcomparable, hdst]
    obtain ⟨hsrcSha, hdstSha⟩ := (Bool.and_eq_true _ _).mp hcomparable
    constructor
    · rintro ⟨src', dst', hs, hd, hmatches⟩
      cases hs
      cases hd
      refine ⟨Option.isSome_iff_ne_none.mp hsrcSha, ?_⟩
      intro dst' hd
      cases hd
      exact Or.inr hmatches
    · rintro ⟨-, hall⟩
      rcases hall dst rfl with hnone | hmatches
      · rw [hnone] at hdstSha
        cases hdstSha
      · exact ⟨src, dst, rfl, rfl, hmatches⟩
  · -- the copy is made
    have hnew : b.copied old new new = some { src with versioned := true } := by
      simp only [copied, hsrc, if_neg hany, Function.update_self]
    rw [hnew]
    constructor
    · rintro ⟨src', dst', hs, -, sha, hsha, -⟩
      cases hs
      refine ⟨by rw [hsha]; exact Option.some_ne_none sha, ?_⟩
      intro dst hdst
      refine Or.inl ?_
      rw [hdst, Option.any_some] at hany
      have hsome : src.sha256.isSome = true := by rw [hsha]; rfl
      unfold Stored.comparable at hany
      rw [hsome, Bool.true_and] at hany
      exact Option.not_isSome_iff_eq_none.mp hany
    · rintro ⟨hsha, -⟩
      obtain ⟨sha, hsha⟩ := Option.ne_none_iff_exists'.mp hsha
      exact ⟨src, _, rfl, rfl, sha, hsha, hsha, rfl, rfl⟩

/-- **When a partition ends done.** -/
theorem verdict_eq_done (hne : l.oldKey ≠ l.newKey) : b.verdict l = .done ↔ b.CanSettle l := by
  unfold CanSettle
  by_cases hverify : l.status.skipsVerify = true
  · rw [if_pos hverify, verdict_of_skipsVerify hverify]
    exact iff_of_true rfl trivial
  rw [if_neg hverify]
  by_cases hcopy : l.status.skipsCopy = true
  · rw [if_pos hcopy, verdict_of_skipsCopy (Bool.eq_false_iff.mpr hverify) hcopy]
    exact checked_eq_done
  rw [if_neg hcopy, verdict_of_copy (Bool.eq_false_iff.mpr hcopy)]
  unfold CanMove
  cases hsrc : b l.oldKey with
  | none =>
    show (if _ then Status.done else Status.failed) = .done ↔ ∃ dst, _ ∧ _
    cases b l.newKey with
    | none => simp
    | some dst => cases hsha : dst.sha256 <;> simp [hsha]
  | some src => exact checked_copied hne hsrc

end Bucket

/-! ## how far a batch gets -/

/-- What a batch comes to, and what it leaves for the next one, when it is known of which
partitions the processing fails. -/
def reached {α : Type} (threshold : ℚ) (fails : α → Bool) : List α → Nat → Nat → List α × List α
  | [], _, _ => ([], [])
  | a :: rest, processed, failedInBatch =>
    if fails a then
      if abortsBatch threshold (failedInBatch + 1) (processed + 1) then ([a], rest)
      else
        let r := reached threshold fails rest (processed + 1) (failedInBatch + 1)
        (a :: r.1, r.2)
    else
      let r := reached threshold fails rest (processed + 1) failedInBatch
      (a :: r.1, r.2)

section

variable {α β : Type} {threshold : ℚ} {fails fails' : α → Bool} {processed failedInBatch : Nat}

theorem reached_append (as : List α) :
    (reached threshold fails as processed failedInBatch).1 ++
      (reached threshold fails as processed failedInBatch).2 = as := by
  fun_induction reached threshold fails as processed failedInBatch with
  | case1 => rfl
  | case2 => rfl
  | case3 a rest processed failedInBatch _ _ r ih => exact congrArg (a :: ·) ih
  | case4 a rest processed failedInBatch _ r ih => exact congrArg (a :: ·) ih

theorem reached_initial (as : List α) :
    (reached threshold fails as processed failedInBatch).1 <+: as :=
  ⟨_, reached_append as⟩

theorem reached_of_not_fails {as : List α} (h : ∀ a ∈ as, fails a = false) :
    reached threshold fails as processed failedInBatch = (as, []) := by
  induction as generalizing processed failedInBatch with
  | nil => rfl
  | cons a rest ih =>
    have hrest : ∀ a' ∈ rest, fails a' = false := fun a' ha' => h a' (List.mem_cons_of_mem a ha')
    simp only [reached, h a List.mem_cons_self, Bool.false_eq_true, if_false, ih hrest]

theorem reached_congr {as : List α} (h : ∀ a ∈ as, fails a = fails' a) :
    reached threshold fails as processed failedInBatch =
      reached threshold fails' as processed failedInBatch := by
  induction as generalizing processed failedInBatch with
  | nil => rfl
  | cons a rest ih =>
    have hrest : ∀ a' ∈ rest, fails a' = fails' a' :=
      fun a' ha' => h a' (List.mem_cons_of_mem a ha')
    simp only [reached, h a List.mem_cons_self, ih hrest]

theorem reached_map {f : β → α} (as : List β) :
    reached threshold fails (as.map f) processed failedInBatch =
      ((reached threshold (fun a => fails (f a)) as processed failedInBatch).1.map f,
        (reached threshold (fun a => fails (f a)) as processed failedInBatch).2.map f) := by
  induction as generalizing processed failedInBatch with
  | nil => rfl
  | cons a rest ih =>
    simp only [List.map_cons, reached, ih]
    split_ifs <;> rfl

end

/-- The processing of a row fails. -/
def Bucket.fails (b : Bucket C) (l : Line) : Bool := decide (b.verdict l = .failed)

/-- **A batch settles what it reaches**, and that is decided by the bucket it begins with. -/
theorem sweep_eq_foldl {processed failedInBatch : Nat} (hok : ∀ l ∈ ls, l.Ok) (hapart : Apart ls) :
    View.sweep digest cfg ls processed failedInBatch v =
      (reached cfg.threshold v.bucket.fails ls processed failedInBatch).1.foldl
        (View.settle digest cfg) v := by
  induction ls generalizing v processed failedInBatch with
  | nil => rfl
  | cons l rest ih =>
    obtain ⟨hl, hrest⟩ := List.pairwise_cons.mp hapart
    have hok' : ∀ l' ∈ rest, l'.Ok := fun l' hl' => hok l' (List.mem_cons_of_mem l hl')
    have hfails : ∀ l' ∈ rest, (v.settle digest cfg l).bucket.fails l' = v.bucket.fails l' := by
      intro l' hl'
      have hagree : AgreeAt l' (v.bucket.settled cfg.dryRun l) v.bucket :=
        agreeAt_settled (hok l List.mem_cons_self) (hok' l' hl') (hl l' hl')
      unfold Bucket.fails
      rw [show (v.settle digest cfg l).bucket.verdict l' = v.bucket.verdict l' from hagree.verdict]
    unfold View.sweep reached
    by_cases hfailed : v.bucket.verdict l = .failed
    · have hhead : v.bucket.fails l = true := decide_eq_true hfailed
      simp only [if_pos hfailed, hhead, if_true]
      split
      · rfl
      · rw [ih hok' hrest, reached_congr hfails]
        rfl
    · have hhead : v.bucket.fails l = false := decide_eq_false hfailed
      simp only [if_neg hfailed, hhead, Bool.false_eq_true, if_false]
      rw [ih hok' hrest, reached_congr hfails]
      rfl

/-! ## what a batch leaves -/

/-- A row with the status its partition ends with, if it is among `ls`. -/
def Bucket.outcome (b : Bucket C) (ls : List Line) (l : Line) : Line :=
  match ls.find? fun l' => l'.partitionId = l.partitionId with
  | some l' => { l with status := b.verdict l' }
  | none => l

theorem Bucket.outcome_cons (x : Line) :
    b.outcome (l :: ls) x =
      if l.partitionId = x.partitionId then { x with status := b.verdict l }
      else b.outcome ls x := by
  unfold Bucket.outcome
  rw [List.find?_cons]
  by_cases hl : l.partitionId = x.partitionId <;> simp [hl]

theorem Bucket.outcome_of_not_mem {x : Line} (h : ∀ l ∈ ls, l.partitionId ≠ x.partitionId) :
    b.outcome ls x = x := by
  have hnone : (ls.find? fun l' => l'.partitionId = x.partitionId) = none := by
    simpa using h
  simp only [Bucket.outcome, hnone]

theorem Bucket.outcome_congr {x : Line} (h : ∀ l ∈ ls, b.verdict l = b'.verdict l) :
    b.outcome ls x = b'.outcome ls x := by
  unfold Bucket.outcome
  cases hfind : ls.find? fun l' => l'.partitionId = x.partitionId with
  | none => rfl
  | some l' =>
    have hverdict := h l' (List.mem_of_find?_eq_some hfind)
    simp only [hverdict]

/-- A row ends as its partition does, or as it was. -/
theorem Bucket.outcome_cases (ls : List Line) (x : Line) :
    (∃ l ∈ ls, l.partitionId = x.partitionId ∧ b.outcome ls x = { x with status := b.verdict l }) ∨
      ((∀ l ∈ ls, l.partitionId ≠ x.partitionId) ∧ b.outcome ls x = x) := by
  by_cases hmem : ∀ l ∈ ls, l.partitionId ≠ x.partitionId
  · exact Or.inr ⟨hmem, Bucket.outcome_of_not_mem hmem⟩
  · refine Or.inl ?_
    push Not at hmem
    obtain ⟨l, hl, hid⟩ := hmem
    have hsome : (ls.find? fun l' => l'.partitionId = x.partitionId).isSome = true :=
      List.find?_isSome.mpr ⟨l, hl, decide_eq_true hid⟩
    obtain ⟨l', hfind⟩ := Option.isSome_iff_exists.mp hsome
    have hfound := List.find?_some hfind
    refine ⟨l', List.mem_of_find?_eq_some hfind, of_decide_eq_true hfound, ?_⟩
    simp only [Bucket.outcome, hfind]

/-- `v'` is `v` with the partitions `ls` settled. -/
structure Swept (digest : Digest16) (cfg : RekeyConfig) (ls : List Line) (v v' : View C) :
    Prop where
  elsewhere : ∀ key, (∀ l ∈ ls, ¬ l.Owns key) → v'.bucket key = v.bucket key
  own : ∀ l ∈ ls, AgreeAt l v'.bucket (v.bucket.settled cfg.dryRun l)
  lines : v'.lines = v.lines.map (v.bucket.outcome ls)
  file : v.file = some v.lines → v'.file = some v'.lines
  sentinels : ∀ path, path ∈ v'.sentinels ↔ path ∈ v.sentinels ∨
    ∃ l ∈ ls, v.bucket.verdict l = .done ∧ path = sentinelPath digest cfg l.partitionId
  deletes : ∀ key, key ∈ v'.deletes ↔ key ∈ v.deletes ∨
    ∃ l ∈ ls, v.bucket.issues cfg.dryRun l ∧ key = l.oldKey

theorem AgreeAt.issues (h : AgreeAt l b b') : b.issues dryRun l ↔ b'.issues dryRun l := by
  unfold Bucket.issues
  rw [h.verdict, h.old]

theorem mem_settle_sentinels {path : Path} :
    path ∈ (v.settle digest cfg l).sentinels ↔ path ∈ v.sentinels ∨
      (v.bucket.verdict l = .done ∧ path = sentinelPath digest cfg l.partitionId) := by
  by_cases hdone : v.bucket.verdict l = .done
  · by_cases hmem : sentinelPath digest cfg l.partitionId ∈ v.sentinels
    · simp only [View.settle, View.mark, hdone, hmem, if_true, true_and, iff_self_or]
      rintro rfl
      exact hmem
    · simp [View.settle, View.mark, hdone, hmem, or_comm]
  · simp [View.settle, hdone]

theorem mem_settle_deletes :
    key ∈ (v.settle digest cfg l).deletes ↔ key ∈ v.deletes ∨
      (v.bucket.issues cfg.dryRun l ∧ key = l.oldKey) := by
  by_cases hissues : v.bucket.issues cfg.dryRun l
  · simp [View.settle, hissues, or_comm]
  · simp [View.settle, hissues]

/-- **What a batch leaves**: induction over the partitions; each one finds its keys as the
batch found them. -/
theorem swept_foldl (hok : ∀ l ∈ ls, l.Ok) (hapart : Apart ls) :
    Swept digest cfg ls v (ls.foldl (View.settle digest cfg) v) := by
  induction ls generalizing v with
  | nil =>
    refine ⟨fun _ _ => rfl, ?_, ?_, id, ?_, ?_⟩
    · intro l hl
      cases hl
    · exact (List.map_id' _).symm
    all_goals simp
  | cons l rest ih =>
    obtain ⟨hl, hrest⟩ := List.pairwise_cons.mp hapart
    have hok' : ∀ l' ∈ rest, l'.Ok := fun l' hl' => hok l' (List.mem_cons_of_mem l hl')
    have hlok : l.Ok := hok l List.mem_cons_self
    have hagree : ∀ l' ∈ rest, AgreeAt l' (v.settle digest cfg l).bucket v.bucket :=
      fun l' hl' => agreeAt_settled hlok (hok' l' hl') (hl l' hl')
    have hswept := ih (v := v.settle digest cfg l) hok' hrest
    rw [List.foldl_cons]
    refine ⟨?_, ?_, ?_, ?_, ?_, ?_⟩
    · intro key hkey
      rw [hswept.elsewhere key fun l' hl' => hkey l' (List.mem_cons_of_mem l hl')]
      exact settled_of_not_owns (hkey l List.mem_cons_self)
    · intro l' hl' key howns
      rcases List.mem_cons.mp hl' with rfl | hmem
      · refine hswept.elsewhere key fun l'' hl'' => ?_
        exact (hok' l'' hl'').not_owns hlok (Ne.symm (hl l'' hl'')) howns
      · rw [hswept.own l' hmem key howns]
        exact (hagree l' hmem).settled key howns
    · rw [hswept.lines]
      show List.map _ (restatus l.partitionId (v.bucket.verdict l) v.lines) = _
      unfold restatus
      rw [List.map_map]
      refine List.map_congr_left fun x _ => ?_
      show Bucket.outcome _ rest (if x.partitionId = l.partitionId then _ else x) = _
      rw [Bucket.outcome_congr fun l' hl' => (hagree l' hl').verdict, Bucket.outcome_cons]
      by_cases hx : x.partitionId = l.partitionId
      · rw [if_pos hx, if_pos hx.symm]
        refine Bucket.outcome_of_not_mem fun l' hl' heq => hl l' hl' ?_
        exact hx.symm.trans heq.symm
      · rw [if_neg hx, if_neg (Ne.symm hx)]
    · intro _
      exact hswept.file rfl
    · intro path
      rw [hswept.sentinels, mem_settle_sentinels, List.exists_mem_cons_iff, or_assoc]
      refine or_congr_right (or_congr_right (exists_congr fun l' => and_congr_right fun hl' => ?_))
      rw [(hagree l' hl').verdict]
    · intro key
      rw [hswept.deletes, mem_settle_deletes, List.exists_mem_cons_iff, or_assoc]
      refine or_congr_right (or_congr_right (exists_congr fun l' => and_congr_right fun hl' => ?_))
      rw [(hagree l' hl').issues]

/-! ## the candidates in the manifest -/

section

variable {sentinels : List Path} {keys : List Key} {m : Manifest C} {e : PartitionEntry C}

/-- The entry a candidate is registered with. -/
def pendingEntry (key : Key) : PartitionEntry C :=
  { partitionId := buildPartitionId key, oldKey := key, newKey := buildNewKey key }

variable (digest cfg sentinels) in
/-- A candidate has a sentinel. -/
def Marked (key : Key) : Prop := sentinelPath digest cfg (buildPartitionId key) ∈ sentinels

/-- Candidates of one partition id are marked together. -/
theorem Marked.of_eq {key' : Key} (h : Marked digest cfg sentinels key)
    (heq : buildPartitionId key' = buildPartitionId key) : Marked digest cfg sentinels key' := by
  unfold Marked
  rw [heq]
  exact h

theorem populate_cons_marked {rest : List Key} (h : Marked digest cfg sentinels key) :
    populate digest cfg sentinels (key :: rest) m = populate digest cfg sentinels rest
      (m.update (buildPartitionId key) fun e => { e with status := .done }) :=
  congrArg (populate digest cfg sentinels rest) (if_pos h)

theorem populate_cons_fresh {rest : List Key} (h : ¬ Marked digest cfg sentinels key) :
    populate digest cfg sentinels (key :: rest) m = populate digest cfg sentinels rest
      (m.upsertPending (buildPartitionId key) key (buildNewKey key)) :=
  congrArg (populate digest cfg sentinels rest) (if_neg h)

theorem mem_upsertPending (h : e ∈ m.upsertPending (buildPartitionId key) key (buildNewKey key)) :
    e ∈ m ∨ (e = pendingEntry key ∧ ∀ e' ∈ m, e'.partitionId ≠ buildPartitionId key) := by
  unfold Manifest.upsertPending at h
  split at h
  · exact Or.inl h
  · rename_i hnew
    rcases List.mem_append.mp h with hmem | hmem
    · exact Or.inl hmem
    · refine Or.inr ⟨List.mem_singleton.mp hmem, ?_⟩
      intro e' he' heq
      exact hnew (List.any_eq_true.mpr ⟨e', he', decide_eq_true heq⟩)

theorem subset_upsertPending {partitionId : String} {old new : Key} :
    m ⊆ m.upsertPending partitionId old new := by
  intro e he
  unfold Manifest.upsertPending
  split
  · exact he
  · exact List.mem_append_left _ he

/-- **A candidate with a sentinel ends the partition in the manifest.** -/
theorem populate_done (hkeys : key ∈ keys) (hmarked : Marked digest cfg sentinels key)
    (he : e ∈ populate digest cfg sentinels keys m)
    (hid : e.partitionId = buildPartitionId key) : e.status = .done := by
  -- once all entries of the partition are done, they stay so
  have hstays : ∀ (keys : List Key) (m : Manifest C),
      (∀ e ∈ m, e.partitionId = buildPartitionId key → e.status = .done) →
      ∀ e ∈ populate digest cfg sentinels keys m, e.partitionId = buildPartitionId key →
        e.status = .done := by
    intro keys
    induction keys with
    | nil => exact fun _ h => h
    | cons k rest ih =>
      intro m h
      refine ih _ ?_
      split
      · intro e he heid
        obtain ⟨e₀, he₀, rfl⟩ := List.mem_map.mp he
        split at heid
        · rename_i hk
          rw [if_pos hk]
        · rename_i hk
          rw [if_neg hk]
          exact h e₀ he₀ heid
      · rename_i hunmarked
        intro e he heid
        rcases mem_upsertPending he with hmem | ⟨rfl, -⟩
        · exact h e hmem heid
        · exact absurd (hmarked.of_eq heid) hunmarked
  induction keys generalizing m with
  | nil => cases hkeys
  | cons k rest ih =>
    rcases List.mem_cons.mp hkeys with rfl | hrest
    · rw [populate_cons_marked hmarked] at he
      refine hstays rest _ ?_ e he hid
      intro e' he' heid
      obtain ⟨e₀, he₀, rfl⟩ := List.mem_map.mp he'
      split at heid
      · rename_i hk
        rw [if_pos hk]
      · rename_i hk
        exact absurd heid hk
    · exact ih hrest he

variable (hfresh : ∀ k ∈ keys, ¬ Marked digest cfg sentinels k)
include hfresh

/-- **Without sentinels** an entry was there or is a new one of a candidate. -/
theorem mem_populate (he : e ∈ populate digest cfg sentinels keys m) :
    e ∈ m ∨ ∃ k ∈ keys, e = pendingEntry k ∧ ∀ e' ∈ m, e'.partitionId ≠ buildPartitionId k := by
  induction keys generalizing m with
  | nil => exact Or.inl he
  | cons key rest ih =>
    have hrest : ∀ k ∈ rest, ¬ Marked digest cfg sentinels k :=
      fun k hk => hfresh k (List.mem_cons_of_mem key hk)
    rw [populate_cons_fresh (hfresh key List.mem_cons_self)] at he
    rcases ih hrest he with hmem | ⟨k, hk, rfl, hnew⟩
    · rcases mem_upsertPending hmem with hold | ⟨rfl, hnew⟩
      · exact Or.inl hold
      · exact Or.inr ⟨key, List.mem_cons_self, rfl, hnew⟩
    · exact Or.inr ⟨k, List.mem_cons_of_mem key hk, rfl,
        fun e' he' => hnew e' (subset_upsertPending he')⟩

theorem subset_populate : m ⊆ populate digest cfg sentinels keys m := by
  induction keys generalizing m with
  | nil => exact fun _ h => h
  | cons key rest ih =>
    intro e he
    rw [populate_cons_fresh (hfresh key List.mem_cons_self)]
    exact ih (fun k hk => hfresh k (List.mem_cons_of_mem key hk)) (subset_upsertPending he)

/-- Every candidate has an entry then. -/
theorem exists_mem_populate (hkey : key ∈ keys) :
    ∃ e ∈ populate digest cfg sentinels keys m, e.partitionId = buildPartitionId key := by
  induction keys generalizing m with
  | nil => cases hkey
  | cons k rest ih =>
    have hrest : ∀ k ∈ rest, ¬ Marked digest cfg sentinels k :=
      fun k' hk' => hfresh k' (List.mem_cons_of_mem k hk')
    rw [populate_cons_fresh (hfresh k List.mem_cons_self)]
    rcases List.mem_cons.mp hkey with rfl | hmem
    · have hentry : ∃ e ∈ m.upsertPending (buildPartitionId key) key (buildNewKey key),
          e.partitionId = buildPartitionId key := by
        unfold Manifest.upsertPending
        split
        · rename_i hany
          obtain ⟨e, he, hid⟩ := List.any_eq_true.mp hany
          exact ⟨e, he, of_decide_eq_true hid⟩
        · exact ⟨pendingEntry key, List.mem_append_right _ List.mem_cons_self, rfl⟩
      obtain ⟨e, he, hid⟩ := hentry
      exact ⟨e, subset_populate hrest he, hid⟩
    · exact ih hrest hmem

end

/-! ## the rows of a run -/

variable {nas₀ : AList fun _ : Key => Obj C} {s s' : Site C} {e : PartitionEntry C}

variable (cfg) in
/-- The manifest a run finds. -/
def manifestOf (s : Site C) : Manifest C := (s.manifests.lookup (manifestName cfg)).getD []

variable (digest cfg) in
/-- The rows of a run that are not at an end. -/
def openLines (s : Site C) : List Line :=
  (registered digest cfg s).resumable.map PartitionEntry.line

theorem mem_openLines {l : Line} :
    l ∈ openLines digest cfg s ↔
      ∃ e ∈ registered digest cfg s, e.status.midFlight = true ∧ e.line = l := by
  unfold openLines Manifest.resumable
  simp only [List.mem_map, List.mem_filter, and_assoc]

theorem ManifestOk.registered (h : ManifestOk nas₀ s.nas (manifestOf cfg s)) :
    ManifestOk nas₀ s.nas (registered digest cfg s) :=
  h.populate fun _ hk => legacy_of_candidate hk

theorem Inv.manifestOf_ok (hinv : Inv nas₀ s) : ManifestOk nas₀ s.nas (manifestOf cfg s) := by
  unfold manifestOf
  cases hm : s.manifests.lookup (manifestName cfg) with
  | none => exact manifestOk_nil
  | some m => exact hinv.filed _ m hm

theorem line_ok {m : Manifest C} (h : ManifestOk nas₀ s.nas m) (he : e ∈ m) : e.line.Ok :=
  ⟨(h.entries e he).legacy, (h.entries e he).newKey, (h.entries e he).partitionId⟩

variable (digest cfg) in
/-- The rows a batch comes to. -/
def reachedLines (s : Site C) : List Line :=
  (reached cfg.threshold (bucketOf s.nas).fails (openLines digest cfg s) 0 0).1

theorem mem_openLines_of_reached {l : Line} (h : l ∈ reachedLines digest cfg s) :
    l ∈ openLines digest cfg s :=
  (reached_initial _).subset h

section

variable (hok : ManifestOk nas₀ s.nas (registered digest cfg s))

include hok

theorem openLines_ok : ∀ l ∈ openLines digest cfg s, l.Ok := by
  intro l hl
  obtain ⟨e, he, -, rfl⟩ := mem_openLines.mp hl
  exact line_ok hok he

theorem openLines_apart : Apart (openLines digest cfg s) := by
  unfold Apart openLines
  rw [List.pairwise_map]
  exact (List.pairwise_map.mp hok.nodup).filter _

/-- The open row of a partition is the row of its entry. -/
theorem eq_line_of_partitionId {l : Line} (hl : l ∈ openLines digest cfg s)
    (he : e ∈ registered digest cfg s) (hid : l.partitionId = e.partitionId) :
    e.status.midFlight = true ∧ l = e.line := by
  obtain ⟨e', he', hmid, rfl⟩ := mem_openLines.mp hl
  have heq : e' = e := List.inj_on_of_nodup_map hok.nodup he' he hid
  subst heq
  exact ⟨hmid, rfl⟩

/-- **An undisturbed run with work to do** returns, and the rows it reached are settled. -/
theorem run_swept {launch : Launch} (hready : Ready cfg launch s)
    (hroomy : Roomy digest cfg s) (hwork : cfg.dryRun = true ∨ candidates cfg s.nas ≠ []) :
    Eff.wp (run digest cfg launch) (fun r s' => (∃ result, r = .ok result) ∧
      Swept digest cfg (reachedLines digest cfg s) (s.begun digest cfg) (s'.view cfg)) s := by
  have hopen : ∀ l ∈ openLines digest cfg s, l.Ok := openLines_ok hok
  have hapart : Apart (openLines digest cfg s) := openLines_apart hok
  have hne : ∀ e ∈ registered digest cfg s, e.oldKey ≠ e.newKey :=
    fun e he => (line_ok hok he).oldKey_ne_newKey
  refine Eff.wp_mono (run_calmly hready hroomy hwork hne) ?_
  rintro r s' ⟨result, rfl, -, hview⟩
  refine ⟨⟨result, rfl⟩, ?_⟩
  rw [hview]
  show Swept digest cfg _ _ (View.sweep digest cfg (openLines digest cfg s) 0 0 _)
  rw [sweep_eq_foldl hopen hapart]
  exact swept_foldl (fun l hl => hopen l (mem_openLines_of_reached hl))
    (hapart.sublist (reached_initial _).sublist)

end

/-- The same for an attempt. -/
theorem Attempt.leaves_swept {a : Attempt}
    (hok : ManifestOk nas₀ s.nas (registered digest a.config s))
    (hready : Ready a.config a.launch (a.start s)) (hroomy : Roomy digest a.config s)
    (hwork : a.config.dryRun = true ∨ candidates a.config s.nas ≠ []) :
    (∃ result, a.returns digest s = .ok result) ∧
      Swept digest a.config (reachedLines digest a.config s) (s.begun digest a.config)
        ((a.leaves digest s).view a.config) := by
  have hstart : ManifestOk nas₀ (a.start s).nas (registered digest a.config (a.start s)) := hok
  have hroomy' : Roomy digest a.config (a.start s) := ⟨hroomy.batchSize, hroomy.maxPartitions⟩
  exact run_swept hstart hready hroomy' hwork

theorem manifestOf_eq {m : Manifest C} (h : s.manifests.lookup (manifestName cfg) = some m) :
    manifestOf cfg s = m := by
  unfold manifestOf
  rw [h]
  rfl

/-- The manifest file of a view. -/
theorem manifestOf_map {lines : List Line} (h : (s.view cfg).file = some lines) :
    (manifestOf cfg s).map PartitionEntry.line = lines := by
  obtain ⟨m, hm, rfl⟩ := Option.map_eq_some_iff.mp h
  rw [manifestOf_eq hm]

theorem manifestOf_swept
    (hswept : Swept digest cfg (reachedLines digest cfg s) (s.begun digest cfg) (s'.view cfg)) :
    (manifestOf cfg s').map PartitionEntry.line = (registered digest cfg s).map fun e =>
      (bucketOf s.nas).outcome (reachedLines digest cfg s) e.line := by
  have hfile := hswept.file rfl
  rw [manifestOf_map hfile, hswept.lines]
  exact List.map_map

end MctraderData.Migration
