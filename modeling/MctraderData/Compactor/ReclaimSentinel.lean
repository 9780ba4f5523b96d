import MctraderData.Compactor.Historical
import MctraderData.Compactor.Accumulation

/-!
# mctrader-data — the sentinel of the L1 reclaim

`reclaim_partition_l1_local` ends with a sentinel file `.l1-promoted` in the date
directory, and every later call trusts it: the directory is not looked at again. The
sentinel is written whether or not the part files could be removed, and L1 files may
still arrive after it.

## Results

* `reclaimPartitionL1Local_post` — what a call returns and leaves.
* `sentinel_means_reclaimed` — no part file is left after a call that returns `ok` or
  finds the sentinel, in every run in which no `unlink` is refused and no part file
  arrives behind a sentinel.
-/

namespace MctraderData.Compactor

open Lib
open Nas

variable {W R : Type} [Blob (Content W R)]

/-- `.l1-promoted` of a date directory. -/
def sentinelOf (dir : Path) : Path := dir ++ [".l1-promoted"]

/-! ## one call -/

/-- What a call returns and leaves. -/
inductive ReclaimPost (env : Env R) (p : Partition) (w : World (Content W R)) :
    Except Exn ReclaimOutcome → World (Content W R) → Prop where
  /-- The sentinel is there. -/
  | trusted (w') (hsentinel : (w.files.lookup (sentinelOf (reclaimDir env w p))).isSome)
      (hsame : SameButReplies w w') :
      ReclaimPost env p w (.ok { outcome := .skipSentinel }) w'
  /-- The call stops before it deletes. -/
  | skipped (o w') (hok : o.outcome ≠ .ok) (hsentinel : o.outcome ≠ .skipSentinel)
      (hsame : SameButReplies w w') : ReclaimPost env p w (.ok o) w'
  /-- The part files were to be deleted. -/
  | reclaimed (o w') (hok : o.outcome = .ok)
      (hothers : ∀ path, path ≠ sentinelOf (reclaimDir env w p) → w.files.lookup path = none →
        w'.files.lookup path = none)
      (hremoved : (∀ i < (rglobParts w (reclaimDir env w p)).length,
          w.unlinkFaults.get i = false) →
        ∀ path ∈ rglobParts w (reclaimDir env w p), w'.files.lookup path = none) :
      ReclaimPost env p w (.ok o) w'

theorem reclaimPartitionL1Local_post (env : Env R) (p : Partition) (nowSnapshot : Int)
    (w : World (Content W R)) :
    Eff.wp (reclaimPartitionL1Local env p nowSnapshot) (ReclaimPost env p w) w := by
  unfold reclaimPartitionL1Local
  rw [Eff.wp_bind, Eff.wp_get]
  simp only []
  split
  · rename_i hsentinel
    exact .trusted w hsentinel (.refl w)
  split
  · exact .skipped _ w nofun nofun (.refl w)
  split
  · exact .skipped _ w nofun nofun (.refl w)
  refine Eff.wp_seq (nasListsAny_post _) ?_ ?_
  swap
  · rintro e w₁ ⟨-, o, ho, -⟩
    cases ho
  rintro listed w₁ ⟨hsame, -⟩
  rcases listed with _ | _ | _
  · exact .skipped _ w₁ nofun nofun hsame
  · exact .skipped _ w₁ nofun nofun hsame
  · simp only []
    split
    · exact .skipped _ w₁ nofun nofun hsame
    · refine Eff.wp_mono (reclaimFiles_removes _) ?_
      rintro r w₂ ⟨⟨o, rfl, hok⟩, hothers, hremoved⟩
      have hparts : rglobParts w₁ (reclaimDir env w p) = rglobParts w (reclaimDir env w p) := by
        unfold rglobParts
        rw [hsame.files]
      rw [hparts, hsame.stores.unlinkFaults] at hremoved
      exact .reclaimed o w₂ hok (fun path hne h => hothers path hne (by rw [hsame.files]; exact h))
        hremoved

/-! ## runs -/

/-- The files, and the directory and outcome of the call just made. -/
structure SentinelState (W R : Type) [Blob (Content W R)] where
  world : World (Content W R)
  last : Option (Path × ReclaimStatus)

/-- A reclaim call, with what NAS answers and which `unlink` calls are refused; a file
that arrives or is rewritten, a file that disappears, a directory, a change of the
bucket. -/
inductive SentinelAction (W R : Type) [Blob (Content W R)] where
  | reclaim (p : Partition) (nowSnapshot : Int) (replies : Stream' Reply)
      (unlinkFaults : Stream' Bool)
  | arrive (path : Path) (c : Content W R)
  | remove (path : Path)
  | mkdir (dir : Path)
  | object (key : Key) (o : Obj (Content W R))
  | unobject (key : Key)

/-- The world a reclaim call runs in. -/
def callWorld (w : World (Content W R)) (replies : Stream' Reply) (unlinkFaults : Stream' Bool) :
    World (Content W R) :=
  { w with replies := replies, unlinkFaults := unlinkFaults }

/-- Only the reclaim writes sentinels. -/
def sentinelMachine (env : Env R) : Machine (SentinelState W R) (SentinelAction W R) where
  init s := s.last = none ∧ ∀ dir, s.world.files.lookup (sentinelOf dir) = none
  step s
    | .reclaim p nowSnapshot replies unlinkFaults =>
      let call := reclaimPartitionL1Local env p nowSnapshot
      let w := callWorld s.world replies unlinkFaults
      some ⟨call.after w, (call.result w).toOption.map fun o => (reclaimDir env w p, o.outcome)⟩
    | .arrive path c =>
      if path.getLastD "" = ".l1-promoted" then none
      else some ⟨{ s.world with files := s.world.files.insert path c }, none⟩
    | .remove path => some ⟨{ s.world with files := s.world.files.erase path }, none⟩
    | .mkdir dir => some ⟨{ s.world with dirs := dir :: s.world.dirs }, none⟩
    | .object key o => some ⟨{ s.world with nas := s.world.nas.insert key o }, none⟩
    | .unobject key => some ⟨{ s.world with nas := s.world.nas.erase key }, none⟩

/-- A call that returns `ok` or `skip_sentinel` leaves no part file in its directory. -/
def SentinelHolds (s : SentinelState W R) : Prop :=
  ∀ dir status, s.last = some (dir, status) → status = .ok ∨ status = .skipSentinel →
    rglobParts s.world dir = []

/-- The condition on a step: the `unlink` calls for the part files of the directory are
not refused, and no part file arrives below a directory with a sentinel. -/
def calmReclaim (env : Env R) (s : SentinelState W R) : SentinelAction W R → Prop
  | .reclaim p _ _ unlinkFaults =>
    ∀ i < (rglobParts s.world (reclaimDir env s.world p)).length, unlinkFaults.get i = false
  | .arrive path _ => isPart (path.getLastD "") = true → ∀ dir, dir <+: path.dropLast →
      s.world.files.lookup (sentinelOf dir) = none
  | _ => True

/-- A directory with a sentinel has no part file. -/
structure SentinelInv (s : SentinelState W R) : Prop where
  promoted : ∀ dir, (s.world.files.lookup (sentinelOf dir)).isSome → rglobParts s.world dir = []
  holds : SentinelHolds s

theorem sentinelOf_injective {dir dir' : Path} (h : sentinelOf dir = sentinelOf dir') :
    dir = dir' :=
  List.append_cancel_right h

theorem sentinelOf_not_part (dir : Path) : isPart ((sentinelOf dir).getLastD "") = false := by
  rw [sentinelOf, List.getLastD_concat]
  decide

/-- The only files added are the sentinels of directories in `N`. -/
def AddsSentinels (N : Path → Prop) (w w' : World (Content W R)) : Prop :=
  ∀ path, (∀ dir, N dir → path ≠ sentinelOf dir) → w.files.lookup path = none →
    w'.files.lookup path = none

section

variable {w w' : World (Content W R)} {N : Path → Prop}

/-- Where no file but sentinels is added, no part file is. -/
theorem AddsSentinels.rglobParts_nil (h : AddsSentinels N w w') {dir : Path}
    (hnil : ∀ path ∈ rglobParts w dir, w'.files.lookup path = none) : rglobParts w' dir = [] := by
  refine List.eq_nil_iff_forall_not_mem.mpr fun path hpath => ?_
  obtain ⟨⟨c, hc⟩, hdir, hpart⟩ := mem_rglobParts.mp hpath
  have hnone : w'.files.lookup path = none := by
    cases hold : w.files.lookup path with
    | some c₀ => exact hnil path (mem_rglobParts.mpr ⟨⟨c₀, hold⟩, hdir, hpart⟩)
    | none =>
      refine h path (fun dir' _ heq => ?_) hold
      rw [heq, sentinelOf_not_part] at hpart
      cases hpart
  rw [hnone] at hc
  cases hc

/-- Directories with a sentinel stay without part files, if those with a new one are. -/
theorem AddsSentinels.promoted (h : AddsSentinels N w w')
    (hold : ∀ dir, (w.files.lookup (sentinelOf dir)).isSome → rglobParts w dir = [])
    (hnew : ∀ dir, N dir → rglobParts w' dir = []) (dir : Path)
    (hdir : (w'.files.lookup (sentinelOf dir)).isSome) : rglobParts w' dir = [] := by
  by_cases hN : N dir
  · exact hnew dir hN
  · -- the sentinel was there before
    have hbefore : (w.files.lookup (sentinelOf dir)).isSome := by
      have hfree : ∀ dir', N dir' → sentinelOf dir ≠ sentinelOf dir' := by
        intro dir' hN' heq
        rw [sentinelOf_injective heq] at hN
        exact hN hN'
      rw [Option.isSome_iff_ne_none]
      intro hnone
      simp [h _ hfree hnone] at hdir
    refine h.rglobParts_nil fun path hpath => ?_
    simp [hold dir hbefore] at hpath

end

theorem rglobParts_eq_of_files {w w' : World (Content W R)} (h : w'.files = w.files) (dir : Path) :
    rglobParts w' dir = rglobParts w dir := by
  unfold rglobParts
  rw [h]

variable {s : SentinelState W R}

/-- A step that leaves the files alone. -/
theorem SentinelInv.of_files {w' : World (Content W R)}
    {last : Option (Path × ReclaimStatus)} (h : SentinelInv s) (hfiles : w'.files = s.world.files)
    (hlast : ∀ dir status, last = some (dir, status) → status = .ok ∨ status = .skipSentinel →
      rglobParts s.world dir = []) : SentinelInv ⟨w', last⟩ where
  promoted dir hdir := by
    rw [rglobParts_eq_of_files hfiles]
    rw [hfiles] at hdir
    exact h.promoted dir hdir
  holds dir status hl hstatus := by
    rw [rglobParts_eq_of_files hfiles]
    exact hlast dir status hl hstatus

theorem SentinelInv.reclaim {env : Env R} {s' : SentinelState W R} (h : SentinelInv s)
    {p : Partition} {nowSnapshot : Int} {replies : Stream' Reply} {unlinkFaults : Stream' Bool}
    (hcalm : calmReclaim env s (.reclaim p nowSnapshot replies unlinkFaults))
    (hstep : (sentinelMachine env).step s (.reclaim p nowSnapshot replies unlinkFaults) = some s') :
    SentinelInv s' := by
  cases Option.some.inj hstep
  have hpost : ReclaimPost env p (callWorld s.world replies unlinkFaults)
      ((reclaimPartitionL1Local env p nowSnapshot).result
        (callWorld s.world replies unlinkFaults))
      ((reclaimPartitionL1Local env p nowSnapshot).after
        (callWorld s.world replies unlinkFaults)) :=
    reclaimPartitionL1Local_post env p nowSnapshot _
  generalize (reclaimPartitionL1Local env p nowSnapshot).result
    (callWorld s.world replies unlinkFaults) = r at hpost ⊢
  generalize (reclaimPartitionL1Local env p nowSnapshot).after
    (callWorld s.world replies unlinkFaults) = w' at hpost ⊢
  cases hpost with
  | trusted _ hsentinel hsame =>
    refine h.of_files hsame.files fun dir status hl _ => ?_
    cases hl
    exact h.promoted _ hsentinel
  | skipped o _ hok hskip hsame =>
    refine h.of_files hsame.files fun dir status hl hstatus => ?_
    cases hl
    exact absurd hstatus (not_or.mpr ⟨hok, hskip⟩)
  | reclaimed o _ hok hothers hremoved =>
    have hadds : AddsSentinels (· = reclaimDir env s.world p) s.world w' :=
      fun path hne => hothers path (hne _ rfl)
    have hnil := hadds.rglobParts_nil (hremoved hcalm)
    refine ⟨hadds.promoted h.promoted fun dir hdir => ?_, fun dir status hl _ => ?_⟩
    · rw [hdir]
      exact hnil
    · cases hl
      exact hnil

/-- A file arrives. -/
theorem SentinelInv.arrive (h : SentinelInv s) {path : Path}
    {c : Content W R} (hname : path.getLastD "" ≠ ".l1-promoted")
    (hcalm : isPart (path.getLastD "") = true → ∀ dir, dir <+: path.dropLast →
      s.world.files.lookup (sentinelOf dir) = none) :
    SentinelInv ⟨{ s.world with files := s.world.files.insert path c }, none⟩ := by
  let w' : World (Content W R) := { s.world with files := s.world.files.insert path c }
  have hlookup : ∀ path', path' ≠ path → w'.files.lookup path' = s.world.files.lookup path' :=
    fun _ hne => AList.lookup_insert_ne hne
  refine ⟨fun dir hdir => ?_, nofun⟩
  have hne : sentinelOf dir ≠ path := by
    intro heq
    rw [← heq, sentinelOf, List.getLastD_concat] at hname
    exact hname rfl
  have hbefore : (s.world.files.lookup (sentinelOf dir)).isSome := by
    rw [← hlookup _ hne]
    exact hdir
  refine List.eq_nil_iff_forall_not_mem.mpr fun path' hpath' => ?_
  obtain ⟨⟨c', hc'⟩, hpre, hpart⟩ := mem_rglobParts.mp hpath'
  by_cases heq : path' = path
  · subst heq
    simp [hcalm hpart dir hpre] at hbefore
  · have hold : path' ∈ rglobParts s.world dir :=
      mem_rglobParts.mpr ⟨⟨c', (hlookup path' heq).symm.trans hc'⟩, hpre, hpart⟩
    simp [h.promoted dir hbefore] at hold

/-- A file disappears. -/
theorem SentinelInv.remove (h : SentinelInv s) (path : Path) :
    SentinelInv ⟨{ s.world with files := s.world.files.erase path }, none⟩ := by
  have hadds : AddsSentinels (fun _ => False) s.world
      { s.world with files := s.world.files.erase path } := by
    intro path' _ hnone
    by_cases heq : path' = path
    · rw [heq]
      exact AList.lookup_erase _ _
    · exact (AList.lookup_erase_ne heq).trans hnone
  exact ⟨hadds.promoted h.promoted fun _ hno => hno.elim, nofun⟩

/-- **The sentinel means what it says** in every run in which no `unlink` of a part
file is refused and no part file arrives behind a sentinel. -/
theorem sentinel_means_reclaimed (env : Env R) {s : SentinelState W R}
    (h : (sentinelMachine env).Reaches (calmReclaim env) s) : SentinelHolds s := by
  refine (h.invariant (I := SentinelInv) ?_ ?_).holds
  · rintro s ⟨hlast, hnone⟩
    refine ⟨fun dir hdir => ?_, fun dir status hl => ?_⟩
    · simp [hnone dir] at hdir
    · simp [hlast] at hl
  · intro s a s' hinv hcalm hstep
    cases a with
    | reclaim p nowSnapshot replies unlinkFaults => exact hinv.reclaim hcalm hstep
    | arrive path c =>
      simp only [sentinelMachine] at hstep
      split at hstep
      · cases hstep
      · rename_i hname
        cases Option.some.inj hstep
        exact hinv.arrive hname hcalm
    | remove path =>
      cases Option.some.inj hstep
      exact hinv.remove path
    | mkdir dir =>
      cases Option.some.inj hstep
      exact hinv.of_files rfl nofun
    | object key o =>
      cases Option.some.inj hstep
      exact hinv.of_files rfl nofun
    | unobject key =>
      cases Option.some.inj hstep
      exact hinv.of_files rfl nofun

/-- A day that is compacted to L2 on the disk and on NAS, with two L1 files left. -/
def promotedDay : World (Content Int Int) :=
  { emptyRoot with
    files := (((∅ : AList fun _ : Path => Content Int Int).insert (l2DayDir ++ ["part-x.parquet"])
        (.parquet ⟨"tick", [[86400000000]], true⟩)).insert (l1DayDir ++ ["part-b.parquet"])
        (.parquet ⟨"tick", [[86400000001]], true⟩)).insert (l1DayDir ++ ["part-a.parquet"])
      (.parquet ⟨"tick", [[86400000000]], true⟩)
    nas := AList.singleton (l2DayDir ++ ["part-x.parquet"])
      ⟨.parquet ⟨"tick", [[86400000000]], true⟩, none, "etag", none⟩ }

theorem promotedDay_init :
    (sentinelMachine tallyEnv).init (⟨promotedDay, none⟩ : SentinelState Int Int) := by
  refine ⟨rfl, fun dir => ?_⟩
  have hkeys : promotedDay.files.keys = [l1DayDir ++ ["part-a.parquet"],
      l1DayDir ++ ["part-b.parquet"], l2DayDir ++ ["part-x.parquet"]] := rfl
  rw [AList.lookup_eq_none, AList.mem_keys]
  intro hmem
  have hnames : ∀ path ∈ [l1DayDir ++ ["part-a.parquet"], l1DayDir ++ ["part-b.parquet"],
      l2DayDir ++ ["part-x.parquet"]], path.getLastD "" ≠ ".l1-promoted" := by decide
  exact hnames _ hmem (by rw [sentinelOf, List.getLastD_concat])

/-- A reclaim ten days later; `refused` says whether the first `unlink` is refused. -/
def reclaimDay (refused : Bool) : SentinelAction Int Int :=
  .reclaim partitionA 11 (Stream'.const (.ok "etag" none))
    (Stream'.cons refused (Stream'.const false))

/-- A reclaim that can delete both files. -/
theorem sentinel_means_reclaimed_once : ∃ s : SentinelState Int Int,
    (sentinelMachine tallyEnv).run ⟨promotedDay, none⟩ [reclaimDay false] = some s ∧
      s.last = some (l1DayDir, .ok) ∧ SentinelHolds s := by
  refine ⟨_, rfl, rfl, ?_⟩
  refine sentinel_means_reclaimed tallyEnv (.step (a := reclaimDay false)
    (.init promotedDay_init) ?_ rfl)
  intro i _
  cases i <;> rfl

/-- The first `unlink` is refused: the call returns `ok`, the file is left, and a later
call trusts the sentinel. The same happens to a file that arrives after the sentinel. -/
theorem sentinel_with_files_left :
    (∃ s : SentinelState Int Int,
      (sentinelMachine tallyEnv).run ⟨promotedDay, none⟩ [reclaimDay true] = some s ∧
        s.last = some (l1DayDir, .ok) ∧ ¬ SentinelHolds s) ∧
    (∃ s : SentinelState Int Int,
      (sentinelMachine tallyEnv).run ⟨promotedDay, none⟩ [reclaimDay true, reclaimDay false] =
        some s ∧ s.last = some (l1DayDir, .skipSentinel) ∧ ¬ SentinelHolds s) ∧
    ∃ s : SentinelState Int Int,
      (sentinelMachine tallyEnv).run ⟨promotedDay, none⟩ [reclaimDay false,
          .arrive (l1DayDir ++ ["part-c.parquet"]) (.parquet ⟨"tick", [[86400000002]], true⟩),
          reclaimDay false] = some s ∧
        s.last = some (l1DayDir, .skipSentinel) ∧ ¬ SentinelHolds s := by
  refine ⟨⟨_, rfl, rfl, fun h => ?_⟩, ⟨_, rfl, rfl, fun h => ?_⟩, _, rfl, rfl, fun h => ?_⟩
  · exact absurd (h l1DayDir .ok rfl (Or.inl rfl)) (by decide)
  · exact absurd (h l1DayDir .skipSentinel rfl (Or.inr rfl)) (by decide)
  · exact absurd (h l1DayDir .skipSentinel rfl (Or.inr rfl)) (by decide)

end MctraderData.Compactor
