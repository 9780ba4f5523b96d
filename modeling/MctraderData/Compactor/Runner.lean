import MctraderData.Compactor.Characterisation
import MctraderData.Compactor.Historical
import MctraderData.Compactor.Replication
import MctraderData.Nas.Frame

/-!
# mctrader-data — the forward runner

Model of `CompactorRunner` with a dual writer: one tick compacts the sealed segments and,
when they are due, makes an L2 and an L3 pass over the partitions of yesterday and today.

Which partitions a pass visits is decided by the local disk (`Compactor.Discovery`),
while the dual writer deletes an L1 or L2 file from the local disk as soon as its upload
is verified. So a partition whose files were all uploaded is no longer visited, although
`compact_hour` and `compact_day` read their sources from NAS.

A pass returns the calls of `compact_hour` (`compact_day`) it made. Metrics, the step
timeouts and the garbage collection of the Python heap are left out.

## Results

* `runL2_calls`, `runL3_calls` — the calls a pass makes.
* `forwardDiscovery_complete_iff` — when a pass visits every partition that has an object.
-/

namespace MctraderData.Compactor

open Lib Eff
open Nas
open Wal

variable {W R : Type} [Blob (Content W R)]

/-! ## _run_l2 and _run_l3 -/

/-- `_CHANNELS_FOR_L2` -/
def channelsForL2 : List String := ["transaction", "orderbooksnapshot", "orderbookdepth"]

/-- `_dispatch_dual_write`: an alert is raised again, any other exception of the dual
writer is logged. -/
def dispatchDualWrite (path : Path) (tier : String) : Prog (Content W R) Unit :=
  match buildNasKey path (some tier) with
  | none => throw .valueError
  | some key => do
    let c ← readFile path
    tryCatch (do
      let _ ← write path key (.file path) (Blob.sha256 c) (some path)
      pure ()) fun
      | .nasOperationalAlert code reason key => throw (.nasOperationalAlert code reason key)
      | _ => pure ()

/-- A compaction, and the dual write of its output if it has one. -/
def compactAndDispatch (compact : Prog (Content W R) (Option Path)) (tier : String) :
    Prog (Content W R) Unit := do
  let out ← compact
  match out with
  | none => pure ()
  | some path => dispatchDualWrite path tier

/-- The `.forward-processing` sentinel of a partition, if its L1 directory exists. -/
def forwardSentinel (env : Env R) (w : World (Content W R)) (p : Partition) : Option Path :=
  (partitionDirs env w p "L1").head?.map (· ++ [".forward-processing"])

def touchSentinel : Option Path → Prog (Content W R) Unit
  | none => pure ()
  | some sentinel => do
    mkdir sentinel.dropLast
    touch sentinel

def unlinkSentinel : Option Path → Prog (Content W R) Unit
  | none => pure ()
  | some sentinel => unlinkMissingOk sentinel

/-- Run every call, an exception of one not keeping the next from being made; returns
the calls made. -/
def attemptAll {κ : Type} (f : κ → Prog (Content W R) Unit) :
    List κ → Prog (Content W R) (List κ)
  | [] => pure []
  | k :: ks => do
    tryCatch (f k) fun _ => pure ()
    let made ← attemptAll f ks
    pure (k :: made)

/-- The partitions a pass visits in one channel. -/
def forwardPartitions (env : Env R) (w : World (Content W R)) (channel : String) (today : Int)
    (tier : String) : List Partition :=
  (discoverPartitionsInRange env w channel (today - 1) today none tier).map fun f =>
    ⟨f.1, f.2.1, channel, f.2.2⟩

/-- The channel loop of a pass; each channel is discovered when its turn comes. -/
def forwardPass {κ : Type} (env : Env R) (f : κ → Prog (Content W R) Unit)
    (calls : Partition → List κ) (tier : String) (today : Int) :
    List String → Prog (Content W R) (List κ)
  | [] => pure []
  | channel :: rest => do
    let w ← get
    let made ← attemptAll f ((forwardPartitions env w channel today tier).flatMap calls)
    let later ← forwardPass env f calls tier today rest
    pure (made ++ later)

variable [Timed R] (env : Env R)

/-- `_run_l2_for_parquet`, whose `finally` removes the sentinel. -/
def runL2ForParquet (p : Partition) (hourUtc : Nat) : Prog (Content W R) Unit := do
  let w ← get
  touchSentinel (forwardSentinel env w p)
  tryCatch (compactAndDispatch (compactHour env true p hourUtc) "L2") fun e => do
    unlinkSentinel (forwardSentinel env w p)
    throw e
  unlinkSentinel (forwardSentinel env w p)

/-- `_run_l3_for_parquet` -/
def runL3ForParquet (p : Partition) : Prog (Content W R) Unit :=
  compactAndDispatch (compactDay env true p) "L3"

/-- The calls of `compact_hour` for one partition. -/
def hourCalls (p : Partition) : List (Partition × Nat) := (List.range 24).map (Prod.mk p)

/-- `_run_l2` -/
def runL2 (today : Int) : Prog (Content W R) (List (Partition × Nat)) :=
  forwardPass env (fun call => runL2ForParquet env call.1 call.2) hourCalls "L1" today channelsForL2

/-- `_run_l3` -/
def runL3 (today : Int) : Prog (Content W R) (List Partition) :=
  forwardPass env (runL3ForParquet env) (fun p => [p]) "L2" today channelsForL2

/-! ## ticks -/

/-- The fields of the runner that outlive a tick. -/
structure Runner where
  lastL2 : Int := 0
  lastL3 : Int := 0
  cycleCount : Nat := 0

/-- What a tick takes from its surroundings: `time.time()` in seconds, the UTC date,
which markers are old enough for the GC, and the batch limit of the legacy sweep. -/
structure TickInput where
  now : Int
  today : Int
  expired : Path → Bool
  batchLimit : Nat := 500

/-- The passes of a tick, with the calls each made. -/
structure TickLog where
  l2 : Option (List (Partition × Nat))
  l3 : Option (List Partition)

def whenDue {α : Type} (due : Bool) (m : Prog (Content W R) α) : Prog (Content W R) (Option α) :=
  if due then do
    let a ← m
    pure (some a)
  else pure none

/-- The L1 loop of a tick. -/
def compactSealed (codec : Codec W R) : Prog (Content W R) Unit := do
  let w ← get
  forEach (scanSealed w) fun sealedPath =>
    tryCatch (do
      let _ ← compactSegment env codec true sealedPath
      pure ()) fun _ => pure ()

/-- The legacy sweep of every twelfth tick. -/
def legacyCleanup (cycleCount batchLimit : Nat) : Prog (Content W R) Unit :=
  if cycleCount % 12 = 0 then
    tryCatch (do
      let _ ← scanAndCleanupLegacy batchLimit
      pure ()) fun _ => pure ()
  else pure ()

/-- `_tick` -/
def tick (codec : Codec W R) (r : Runner) (i : TickInput) :
    Prog (Content W R) (Runner × TickLog) := do
  compactSealed env codec
  let dueL2 := decide (300 ≤ i.now - r.lastL2)
  let l2 ← whenDue dueL2 (runL2 env i.today)
  let dueL3 := decide (3600 ≤ i.now - r.lastL3)
  let l3 ← whenDue dueL3 (runL3 env i.today)
  legacyCleanup (r.cycleCount + 1) i.batchLimit
  runGc i.expired
  pure (⟨if dueL2 then i.now else r.lastL2, if dueL3 then i.now else r.lastL3, r.cycleCount + 1⟩,
    ⟨l2, l3⟩)

/-- The runner and the disk and bucket it works on. -/
structure ForwardState (W R : Type) [Blob (Content W R)] where
  runner : Runner
  world : World (Content W R)

/-- A sealed segment arrives from the collector, or the runner ticks. -/
inductive ForwardEvent (W : Type) where
  | collect (sealedPath : Path) (records : List W)
  | tick (input : TickInput)

/-- The state after a tick, which the loop of `run` survives in any case. -/
def ForwardState.tick (codec : Codec W R) (s : ForwardState W R) (input : TickInput) :
    ForwardState W R :=
  match (Compactor.tick env codec s.runner input) s.world with
  | (.ok (runner, _), w) => ⟨runner, w⟩
  | (.error _, w) => { s with world := w }

def ForwardState.collect (s : ForwardState W R) (sealedPath : Path) (records : List W) :
    ForwardState W R :=
  { s with world := { s.world with files := s.world.files.insert sealedPath (.ndjson records) } }

/-- Ticks of a runner whose NAS accepts every upload. -/
def forwardMachine (codec : Codec W R) : Machine (ForwardState W R) (ForwardEvent W) where
  init s := s.runner = {} ∧ Answering s.world.replies
  step s
    | .collect sealedPath records => some (s.collect sealedPath records)
    | .tick input => some (s.tick env codec input)

/-! ## a call stays in its channel -/

section

variable {env} {w w' : World (Content W R)} {p : Partition}

/-- The file lies below `market/<channel>`. -/
def InChannel (channel : String) (path : Path) : Prop := ["market", channel] <+: path

variable {channel : String} {path : Path}

theorem inChannel_of_dropLast (h : ["market", channel] <+: path.dropLast) :
    InChannel channel path :=
  h.trans (List.dropLast_prefix path)

omit [Timed R] in
theorem keepsOff_dispatchDualWrite {S : Path → Prop} (hpath : S path) (htmp : S (tmpPath path))
    (tier : String) : KeepsOff S (dispatchDualWrite path tier : Prog (Content W R) Unit) := by
  unfold dispatchDualWrite
  cases buildNasKey path (some tier) with
  | none => exact keeps_throw _
  | some key =>
    refine (keepsOff_readFile path).bind fun c => Eff.Keeps.tryCatch ?_ fun e => ?_
    · exact (keepsOff_write hpath htmp hpath key path _).bind fun _ => keeps_pure _
    · cases e with
      | nasOperationalAlert code reason key => exact keeps_throw _
      | _ => exact keeps_pure _

omit [Timed R] in
/-- The output and the quarantine of a call lie in its channel. -/
theorem Span.inChannel_of_target {v : String} (span : Span)
    (h : (span.output env p v).Target env path) : InChannel p.channel path := by
  rcases h with h | h
  · refine inChannel_of_dropLast ?_
    rw [h]
    cases span <;> exact ⟨_, rfl⟩
  · rw [h]
    cases span <;> exact ⟨_, rfl⟩

/-- A merge from NAS with the dual write of its output. -/
theorem keepsOff_compactAndDispatch (p : Partition) (span : Span) (tier : String) :
    KeepsOff (InChannel p.channel)
      (compactAndDispatch (span.compact env true p) tier : Prog (Content W R) Unit) := by
  intro w
  have hframe : ∀ r w₁, CallPost env true p span w r w₁ → SameOff (InChannel p.channel) w w₁ := by
    intro r w₁ h
    cases h with
    | refused => exact .of_eq rfl
    | unlisted _ hsame => exact .of_eq hsame.files
    | merge _ _ v _ hpost => exact hpost.frame.1.mono fun _ => span.inChannel_of_target
  refine wp_seq (Q := fun _ w' => SameOff (InChannel p.channel) w w')
    (span.compact_post env true p w) ?_ fun e w₁ h => hframe _ w₁ h
  intro o w₁ h
  cases o with
  | none => exact hframe _ w₁ h
  | some path =>
    have hpath : ["market", p.channel] <+: path.dropLast := by
      cases h with
      | merge _ _ v _ hpost =>
        cases hpost with
        | merged _ _ _ _ _ _ hpath =>
          rw [hpath, List.dropLast_concat]
          cases span <;> exact ⟨_, rfl⟩
    have htmp : InChannel p.channel (tmpPath path) := hpath.trans (List.prefix_append _ _)
    refine wp_mono ((keepsOff_dispatchDualWrite (inChannel_of_dropLast hpath) htmp tier).wp w₁)
      fun _ w₂ h₂ => ?_
    exact AgreeOff.trans (hframe _ w₁ h) h₂

omit [Timed R] in
theorem forwardSentinel_inChannel {sentinel : Path} (h : forwardSentinel env w p = some sentinel) :
    InChannel p.channel sentinel := by
  obtain ⟨dir, hdir, rfl⟩ := Option.map_eq_some_iff.mp h
  obtain ⟨path, -, hpath⟩ := mem_dateDirs.mp (List.mem_of_mem_filter (List.mem_of_mem_head? hdir))
  obtain ⟨-, v, e, s, d, rfl⟩ := dateDirOf_eq_some hpath
  exact ⟨_, rfl⟩

theorem keepsOff_runL2ForParquet (p : Partition) (hourUtc : Nat) :
    KeepsOff (InChannel p.channel) (runL2ForParquet env p hourUtc : Prog (Content W R) Unit) := by
  refine keeps_get.bind fun w => ?_
  have htouch : KeepsOff (InChannel p.channel)
      (touchSentinel (forwardSentinel env w p) : Prog (Content W R) Unit) := by
    cases hs : forwardSentinel env w p with
    | none => exact keeps_pure _
    | some sentinel =>
      refine (keepsOff_mkdir _).bind fun _ => keeps_get.bind fun w₁ => ?_
      split
      · exact keeps_pure _
      · exact keepsOff_writeFile (forwardSentinel_inChannel hs) _
  have hunlink : KeepsOff (InChannel p.channel)
      (unlinkSentinel (forwardSentinel env w p) : Prog (Content W R) Unit) := by
    cases hs : forwardSentinel env w p with
    | none => exact keeps_pure _
    | some sentinel => exact keepsOff_unlinkMissingOk (forwardSentinel_inChannel hs)
  refine htouch.bind fun _ => Eff.Keeps.bind ?_ fun _ => hunlink
  exact (keepsOff_compactAndDispatch p (.hour hourUtc) "L2").tryCatch fun e =>
    hunlink.bind fun _ => keeps_throw _

/-! ## the calls of a pass -/

omit [Timed R] in
theorem attemptAll_post {κ : Type} {f : κ → Prog (Content W R) Unit} {S : Path → Prop}
    {ks : List κ} (hf : ∀ k ∈ ks, KeepsOff S (f k)) :
    wp (attemptAll f ks) (fun r w' => r = .ok ks ∧ SameOff S w w') w := by
  induction ks generalizing w with
  | nil => exact ⟨rfl, .refl _ _⟩
  | cons k ks ih =>
    obtain ⟨hk, hks⟩ := List.forall_mem_cons.mp hf
    refine wp_seq (P := fun r w' => r = .ok () ∧ SameOff S w w') ?_ ?_ nofun
    · exact wp_catch (hk.wp w) (fun _ _ h => ⟨rfl, h⟩) fun _ _ h => ⟨rfl, h⟩
    · rintro - w₁ ⟨-, h₁⟩
      refine wp_seq (ih hks) ?_ fun _ _ h => by cases h.1
      rintro - w₂ ⟨⟨⟩, h₂⟩
      exact ⟨rfl, AgreeOff.trans h₁ h₂⟩

variable {tier : String}

omit [Timed R] in
/-- Files of one channel do not decide what is found in another one. -/
theorem hasLocal_of_sameOff (h : SameOff (InChannel channel) w w') (hne : p.channel ≠ channel) :
    HasLocal env w' tier p ↔ HasLocal env w tier p := by
  unfold HasLocal
  refine exists_congr fun path => exists_congr fun c => exists_congr fun dir => ?_
  refine and_congr_left fun hrest => ?_
  obtain ⟨-, hof, -⟩ := hrest
  have hother : ¬ InChannel channel path := by
    intro hin
    obtain ⟨⟨rest, hdir⟩, v, e, s, d, rfl⟩ := dateDirOf_eq_some hof
    have hpath : ["market", p.channel] <+: path := by
      refine List.IsPrefix.trans ?_ (List.dropLast_prefix path)
      rw [← hdir]
      exact ⟨_, rfl⟩
    have heq := (List.prefix_of_prefix_length_le hpath hin (Nat.le_refl 2)).eq_of_length rfl
    cases heq
    exact hne rfl
  rw [h.lookup path hother]

/-- A pass visits the partition. -/
def Visited (env : Env R) (w : World (Content W R)) (tier : String) (today : Int)
    (p : Partition) : Prop :=
  HasLocal env w tier p ∧ today - 1 ≤ p.dateUtc ∧ p.dateUtc ≤ today

omit [Timed R] in
theorem mem_forwardPartitions {today : Int} :
    p ∈ forwardPartitions env w channel today tier ↔
      p.channel = channel ∧ Visited env w tier today p := by
  unfold forwardPartitions
  rw [List.mem_map]
  constructor
  · rintro ⟨f, hf, rfl⟩
    exact ⟨rfl, (mem_discover_iff_hasLocal (p := ⟨f.1, f.2.1, channel, f.2.2⟩)).mp hf⟩
  · rintro ⟨rfl, hvisited⟩
    exact ⟨(p.exchange, p.symbol, p.dateUtc), mem_discover_iff_hasLocal.mpr hvisited, rfl⟩

omit [Timed R] in
/-- **The calls of a pass** are those of the partitions with a local file when the pass
starts: what it does to one channel does not change what it finds in the next. -/
theorem forwardPass_post {κ : Type} {f : κ → Prog (Content W R) Unit} {calls : Partition → List κ}
    {today : Int} {channels : List String}
    (hf : ∀ p, ∀ k ∈ calls p, KeepsOff (InChannel p.channel) (f k)) (hnodup : channels.Nodup) :
    wp (forwardPass env f calls tier today channels) (fun r _ => ∃ made, r = .ok made ∧
      ∀ k, k ∈ made ↔ ∃ p, p.channel ∈ channels ∧ Visited env w tier today p ∧ k ∈ calls p) w := by
  induction channels generalizing w with
  | nil => exact ⟨[], rfl, by simp⟩
  | cons channel rest ih =>
    obtain ⟨hchannel, hrest⟩ := List.nodup_cons.mp hnodup
    have hkeeps : ∀ k ∈ (forwardPartitions env w channel today tier).flatMap calls,
        KeepsOff (InChannel channel) (f k) := by
      intro k hk
      obtain ⟨p, hp, hk⟩ := List.mem_flatMap.mp hk
      rw [← (mem_forwardPartitions.mp hp).1]
      exact hf p k hk
    unfold forwardPass
    rw [wp_bind, wp_get]
    refine wp_seq (attemptAll_post hkeeps) ?_ fun _ _ h => by cases h.1
    rintro - w₁ ⟨⟨⟩, h₁⟩
    refine wp_seq (ih hrest) ?_ fun _ _ h => by obtain ⟨_, ⟨⟩, -⟩ := h
    rintro later w₂ ⟨later', hlater, hcalls⟩
    cases hlater
    refine ⟨_, rfl, fun k => ?_⟩
    rw [List.mem_append, List.mem_flatMap, hcalls]
    constructor
    · rintro (⟨p, hp, hk⟩ | ⟨p, hp, ⟨hlocal, hdates⟩, hk⟩)
      · obtain ⟨hchan, hvisited⟩ := mem_forwardPartitions.mp hp
        exact ⟨p, by simp [hchan], hvisited, hk⟩
      · have hne : p.channel ≠ channel := fun heq => hchannel (heq ▸ hp)
        exact ⟨p, List.mem_cons_of_mem _ hp, ⟨(hasLocal_of_sameOff h₁ hne).mp hlocal, hdates⟩, hk⟩
    · rintro ⟨p, hp, hvisited, hk⟩
      rcases List.mem_cons.mp hp with heq | hp
      · exact Or.inl ⟨p, mem_forwardPartitions.mpr ⟨heq, hvisited⟩, hk⟩
      · have hne : p.channel ≠ channel := fun heq => hchannel (heq ▸ hp)
        exact Or.inr ⟨p, hp, ⟨(hasLocal_of_sameOff h₁ hne).mpr hvisited.1, hvisited.2⟩, hk⟩

end

/-! ## main result -/

section

variable {env}

theorem channelsForL2_nodup : channelsForL2.Nodup := by decide

variable (env) in
/-- The calls of an L2 pass. -/
theorem runL2_calls (w : World (Content W R)) (today : Int) :
    ∃ calls, (runL2 env today).result w = .ok calls ∧ ∀ p hourUtc, (p, hourUtc) ∈ calls ↔
      p.channel ∈ channelsForL2 ∧ Visited env w "L1" today p ∧ hourUtc < 24 := by
  have hkeeps : ∀ p, ∀ call ∈ hourCalls p, KeepsOff (InChannel p.channel)
      (runL2ForParquet env call.1 call.2 : Prog (Content W R) Unit) := by
    intro p call hcall
    obtain ⟨hourUtc, -, rfl⟩ := List.mem_map.mp hcall
    exact keepsOff_runL2ForParquet p hourUtc
  have hpass : wp (runL2 env today) _ w := forwardPass_post hkeeps channelsForL2_nodup
  obtain ⟨made, hmade, hcalls⟩ := hpass
  exact ⟨made, hmade, fun p hourUtc => by simp [hcalls, hourCalls]⟩

variable (env) in
/-- The calls of an L3 pass. -/
theorem runL3_calls (w : World (Content W R)) (today : Int) :
    ∃ calls, (runL3 env today).result w = .ok calls ∧ ∀ p, p ∈ calls ↔
      p.channel ∈ channelsForL2 ∧ Visited env w "L2" today p := by
  have hkeeps : ∀ p, ∀ call ∈ [p], KeepsOff (InChannel p.channel)
      (runL3ForParquet env call : Prog (Content W R) Unit) := by
    intro p call hcall
    cases List.mem_singleton.mp hcall
    exact keepsOff_compactAndDispatch p .day "L3"
  have hpass : wp (runL3 env today) _ w := forwardPass_post hkeeps channelsForL2_nodup
  obtain ⟨made, hmade, hcalls⟩ := hpass
  exact ⟨made, hmade, fun p => by simp [hcalls]⟩

end

/-- A partition of yesterday or today in a channel of the forward passes. -/
structure InWindow (today : Int) (p : Partition) : Prop where
  channel : p.channel ∈ channelsForL2
  start : today - 1 ≤ p.dateUtc
  stop : p.dateUtc ≤ today

/-- An L2 pass calls `compact_hour`, for every hour, for every partition of the window
with an L1 object on the local disk or on NAS. -/
def CompleteL2 (env : Env R) (w : World (Content W R)) (today : Int) : Prop :=
  ∃ calls, (runL2 env today).result w = .ok calls ∧ ∀ p, InWindow today p →
    localL1 env w p ≠ [] ∨ nasL1 env w p ≠ [] → ∀ hourUtc < 24, (p, hourUtc) ∈ calls

/-- An L3 pass calls `compact_day` for every partition of the window with an L2 object
on the local disk or on NAS. -/
def CompleteL3 (env : Env R) (w : World (Content W R)) (today : Int) : Prop :=
  ∃ calls, (runL3 env today).result w = .ok calls ∧ ∀ p, InWindow today p →
    localL2 env w p ≠ [] ∨ nasL2 env w p ≠ [] → p ∈ calls

section

variable {env} {w : World (Content W R)} {p : Partition}

omit [Timed R] in
/-- A tier with part files has a date directory. -/
theorem hasLocal_of_parts {tier : String}
    (h : (match schemaVersion p.channel with
      | none => []
      | some v => rglobParts w (p.tierDir env v tier)) ≠ []) : HasLocal env w tier p := by
  cases hv : schemaVersion p.channel with
  | none => simp [hv] at h
  | some v =>
    simp only [hv] at h
    exact hasLocal_of_rglob hv h

omit [Timed R] in
theorem hasLocal_of_localL1 (h : localL1 env w p ≠ []) : HasLocal env w "L1" p :=
  hasLocal_of_parts h

omit [Timed R] in
theorem hasLocal_of_localL2 (h : localL2 env w p ≠ []) : HasLocal env w "L2" p :=
  hasLocal_of_parts h

end

/-- **When the forward passes are complete.** In every state, reachable or not: an L2
pass visits every partition of the window that has an L1 object exactly when each of
those with an L1 object on NAS has an L1 file on the local disk as well; and the same
for an L3 pass and L2 objects. -/
theorem forwardDiscovery_complete_iff (w : World (Content W R)) (today : Int) :
    (CompleteL2 env w today ↔
      ∀ p, InWindow today p → nasL1 env w p ≠ [] → HasLocal env w "L1" p) ∧
    (CompleteL3 env w today ↔
      ∀ p, InWindow today p → nasL2 env w p ≠ [] → HasLocal env w "L2" p) := by
  obtain ⟨calls2, hrun2, hcalls2⟩ := runL2_calls env w today
  obtain ⟨calls3, hrun3, hcalls3⟩ := runL3_calls env w today
  refine ⟨⟨?_, ?_⟩, ⟨?_, ?_⟩⟩
  · rintro ⟨calls, hrun, hall⟩ p hp hnas
    cases hrun2.symm.trans hrun
    exact ((hcalls2 p 0).mp (hall p hp (Or.inr hnas) 0 (by decide))).2.1.1
  · intro h
    refine ⟨calls2, hrun2, fun p hp hobj hourUtc hhour => (hcalls2 p hourUtc).mpr ?_⟩
    have hlocal : HasLocal env w "L1" p := hobj.elim hasLocal_of_localL1 (h p hp)
    exact ⟨hp.channel, ⟨hlocal, hp.start, hp.stop⟩, hhour⟩
  · rintro ⟨calls, hrun, hall⟩ p hp hnas
    cases hrun3.symm.trans hrun
    exact ((hcalls3 p).mp (hall p hp (Or.inr hnas))).2.1
  · intro h
    refine ⟨calls3, hrun3, fun p hp hobj => (hcalls3 p).mpr ?_⟩
    have hlocal : HasLocal env w "L2" p := hobj.elim hasLocal_of_localL2 (h p hp)
    exact ⟨hp.channel, hlocal, hp.start, hp.stop⟩

/-! ## one segment of today -/

/-- A sealed segment of `partitionA`. -/
def segmentOfToday : Path :=
  ["wal", "bithumb", "transaction", "BTC", "1", "segment-19700102T000000Z-n1.ndjson.sealed"]

/-- An empty disk and an empty bucket, and a NAS that accepts everything. -/
def emptyForward : ForwardState Int Int where
  runner := {}
  world := ⟨∅, [], ∅, some ⟨[], 10⟩, Stream'.const (.ok "etag" none), Stream'.const false⟩

/-- The segment was collected, and the runner ticked once. -/
def uploadedForward : ForwardState Int Int :=
  (emptyForward.collect segmentOfToday [5]).tick tallyEnv plainCodec ⟨1000, 1, fun _ => false, 500⟩

/-- After one tick the L1 file of the segment is on NAS only: no later L2 pass of that
day calls `compact_hour` for its partition. -/
theorem forwardDiscovery_misses_uploaded :
    (forwardMachine tallyEnv plainCodec).Reaches Machine.anyStep uploadedForward ∧
      InWindow 1 partitionA ∧ nasL1 tallyEnv uploadedForward.world partitionA ≠ [] ∧
      ¬ CompleteL2 tallyEnv uploadedForward.world 1 := by
  have hinit : (forwardMachine tallyEnv plainCodec).Reaches Machine.anyStep emptyForward :=
    .init ⟨rfl, Answering.const _ _⟩
  have hcollect := hinit.step (a := .collect segmentOfToday [5]) trivial rfl
  have hwindow : InWindow 1 partitionA := ⟨by decide, by decide, by decide⟩
  have hnas : nasL1 tallyEnv uploadedForward.world partitionA ≠ [] := by decide +kernel
  refine ⟨hcollect.step (a := .tick ⟨1000, 1, fun _ => false, 500⟩) trivial rfl, hwindow, hnas, ?_⟩
  rintro ⟨calls, hrun, hall⟩
  have hnone : (match (runL2 tallyEnv 1).result uploadedForward.world with
      | .ok calls => calls.isEmpty
      | .error _ => false) = true := by decide +kernel
  rw [hrun] at hnone
  have hcall := hall partitionA hwindow (Or.inr hnas) 0 (by decide)
  rw [List.isEmpty_iff.mp hnone] at hcall
  cases hcall

end MctraderData.Compactor
