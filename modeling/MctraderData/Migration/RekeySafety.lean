import MctraderData.Migration.Rekey

/-!
# mctrader-data — the re-key migration loses nothing

A delete of an old key is issued only while the new key holds an object with the same
sha256 and length: directly after the verification, or from a manifest that says
`verified` or `deleting`. What carries this over crashes is `Inv`: every manifest entry in
one of these two statuses, in a file or in memory, has its copy in the bucket. The copy
stays, because only the entry's own old key is ever copied to the new key.

## Results

* `processPartition_advances` — one partition keeps the invariant, however it ends.
* `rekey_deletes_only_copied` — safety over every history of live runs.
-/

namespace MctraderData.Migration

open Lib Eff
open Nas

variable {C : Type} [Blob C] {digest : Digest16} {cfg : RekeyConfig}

/-! ## the invariant -/

/-- A key of the legacy layout. -/
def Legacy (key : Key) : Prop := ["l1", "market"] <+: key

/-- What `nas₀` had at the legacy `key` is in `nas` at the new key: same sha256, same
length. -/
def Copied (nas₀ nas : AList fun _ : Key => Obj C) (key : Key) : Prop :=
  Legacy key ∧ ∃ o o' sha, nas₀.lookup key = some o ∧ nas.lookup (buildNewKey key) = some o' ∧
    o.sha256 = some sha ∧ o'.sha256 = some sha ∧ Blob.size o'.body = Blob.size o.body

/-- What an entry says is so. -/
structure EntryOk (nas₀ nas : AList fun _ : Key => Obj C) (e : PartitionEntry C) : Prop where
  legacy : Legacy e.oldKey
  newKey : e.newKey = buildNewKey e.oldKey
  partitionId : e.partitionId = buildPartitionId e.oldKey
  copied : e.status.skipsVerify = true → Copied nas₀ nas e.oldKey

structure ManifestOk (nas₀ nas : AList fun _ : Key => Obj C) (m : Manifest C) : Prop where
  entries : ∀ e ∈ m, EntryOk nas₀ nas e
  nodup : (m.map PartitionEntry.partitionId).Nodup

/-- A delete that met the bucket `d.2` was safe: the copy was there, and the old key had
its first object or nothing. -/
def DeleteOk (nas₀ : AList fun _ : Key => Obj C) (d : Key × AList fun _ : Key => Obj C) : Prop :=
  Copied nas₀ d.2 d.1 ∧ (d.2.lookup d.1 = nas₀.lookup d.1 ∨ d.2.lookup d.1 = none)

/-- The invariant of the migration of a bucket that was `nas₀` at first. -/
structure Inv (nas₀ : AList fun _ : Key => Obj C) (s : Site C) : Prop where
  legacy : ∀ key, Legacy key → s.nas.lookup key = nas₀.lookup key ∨
    (s.nas.lookup key = none ∧ Copied nas₀ s.nas key)
  truthful : Truthful s.world
  filed : ∀ name m, s.manifests.lookup name = some m → ManifestOk nas₀ s.nas m
  held : ManifestOk nas₀ s.nas s.memory
  issued : ∀ d ∈ s.deletes, DeleteOk nas₀ d

/-- What identifies an entry. -/
def PartitionEntry.ident (e : PartitionEntry C) : String × Key × Key :=
  (e.partitionId, e.oldKey, e.newKey)

/-- The invariant goes on, copies stay, and the manifest in memory has the same entries. -/
structure Advances (nas₀ : AList fun _ : Key => Obj C) (s s' : Site C) : Prop where
  inv : Inv nas₀ s'
  copied : ∀ key, Copied nas₀ s.nas key → Copied nas₀ s'.nas key
  ident : s'.memory.map PartitionEntry.ident = s.memory.map PartitionEntry.ident

/-- The frame of the statements of a partition. -/
def Steps (nas₀ : AList fun _ : Key => Obj C) (s s' : Site C) : Prop :=
  Inv nas₀ s → Advances nas₀ s s'

variable {nas₀ : AList fun _ : Key => Obj C} {s s' s'' : Site C} {entry : PartitionEntry C}
  {α : Type}

theorem Advances.refl (hinv : Inv nas₀ s) : Advances nas₀ s s := ⟨hinv, fun _ h => h, rfl⟩

theorem Advances.trans (h : Advances nas₀ s s') (h' : Advances nas₀ s' s'') :
    Advances nas₀ s s'' where
  inv := h'.inv
  copied key hkey := h'.copied key (h.copied key hkey)
  ident := h'.ident.trans h.ident

instance : Std.Refl (Steps nas₀) := ⟨fun _ => Advances.refl⟩

instance : IsTrans (Site C) (Steps nas₀) := ⟨fun _ _ _ h h' hinv =>
  (h hinv).trans (h' (h hinv).inv)⟩

/-! ## keys -/

variable {key : Key}

theorem Legacy.eq (h : Legacy key) :
    ∃ rest, key = "l1" :: "market" :: rest ∧ buildNewKey key = "market" :: rest := by
  obtain ⟨rest, rfl⟩ := h
  exact ⟨rest, rfl, rfl⟩

theorem not_legacy_buildNewKey (h : Legacy key) : ¬ Legacy (buildNewKey key) := by
  obtain ⟨rest, -, hnew⟩ := h.eq
  rw [hnew]
  intro hlegacy
  have hhead : ("l1" : String) = "market" := (List.cons_prefix_cons.mp hlegacy).1
  exact absurd hhead (by decide)

theorem buildNewKey_injective {key' : Key} (h : Legacy key) (h' : Legacy key')
    (heq : buildNewKey key = buildNewKey key') : key = key' := by
  obtain ⟨rest, rfl, hnew⟩ := h.eq
  obtain ⟨rest', rfl, hnew'⟩ := h'.eq
  rw [(List.cons.inj heq).2]

theorem ne_buildNewKey {key' : Key} (h : Legacy key) (h' : Legacy key') :
    key ≠ buildNewKey key' :=
  fun heq => not_legacy_buildNewKey h' (heq ▸ h)

/-! ## the bucket changes -/

variable {nas : AList fun _ : Key => Obj C} {nas' : AList fun _ : Key => Obj C}

theorem EntryOk.mono {e : PartitionEntry C} (h : EntryOk nas₀ nas e)
    (hmono : ∀ key, Copied nas₀ nas key → Copied nas₀ nas' key) : EntryOk nas₀ nas' e :=
  ⟨h.legacy, h.newKey, h.partitionId, fun hstatus => hmono _ (h.copied hstatus)⟩

theorem manifestOk_nil : ManifestOk nas₀ nas [] :=
  ⟨fun _ h => absurd h List.not_mem_nil, List.nodup_nil⟩

variable {m : Manifest C}

theorem ManifestOk.mono (h : ManifestOk nas₀ nas m)
    (hmono : ∀ key, Copied nas₀ nas key → Copied nas₀ nas' key) : ManifestOk nas₀ nas' m :=
  ⟨fun e he => (h.entries e he).mono hmono, h.nodup⟩

variable {w' : World C}

/-- A new bucket is fine if copies stay and legacy objects stay or have their copy. -/
theorem Inv.withWorld (h : Inv nas₀ s) (htruthful : Truthful w')
    (hmono : ∀ key, Copied nas₀ s.nas key → Copied nas₀ w'.nas key)
    (hlegacy : ∀ key, Legacy key → w'.nas.lookup key = s.nas.lookup key ∨
      (w'.nas.lookup key = none ∧ Copied nas₀ w'.nas key)) :
    Advances nas₀ s { s with world := w' } where
  inv := {
    legacy := fun key hkey => by
      rcases hlegacy key hkey with heq | hgone
      · rcases h.legacy key hkey with hsame | ⟨hnone, hcopied⟩
        · exact Or.inl (heq.trans hsame)
        · exact Or.inr ⟨heq.trans hnone, hmono key hcopied⟩
      · exact Or.inr hgone
    truthful := htruthful
    filed := fun name m hm => (h.filed name m hm).mono hmono
    held := h.held.mono hmono
    issued := h.issued }
  copied := hmono
  ident := rfl

theorem Inv.sameNas (h : Inv nas₀ s) (hnas : w'.nas = s.nas) :
    Advances nas₀ s { s with world := w' } := by
  refine h.withWorld ?_ ?_ fun key _ => Or.inl (by rw [hnas])
  · exact h.truthful.of_nas hnas
  · rw [hnas]
    exact fun _ hkey => hkey

variable {o : Obj C}

/-- A legacy object that is still there is the one that was there at first. -/
theorem Inv.original (h : Inv nas₀ s) (hkey : Legacy key) (ho : s.nas.lookup key = some o) :
    nas₀.lookup key = some o := by
  rcases h.legacy key hkey with hsame | ⟨hnone, -⟩
  · rwa [← hsame]
  · simp [hnone] at ho

theorem truthful_of_insert {w : World C} (h : Truthful w) (hnas : w'.nas = w.nas.insert key o)
    (ho : ∀ sha, o.sha256 = some sha → sha = Blob.sha256 o.body) : Truthful w' := by
  intro k o' sha ho'
  rw [hnas] at ho'
  rcases lookup_insert_eq_some.mp ho' with ⟨-, rfl⟩ | ⟨-, ho'⟩
  · exact ho sha
  · exact h k o' sha ho'

/-- Copying a legacy object to its new key. -/
theorem Inv.copy (h : Inv nas₀ s) (hkey : Legacy key) (ho : s.nas.lookup key = some o)
    {etag : String} {versionId : Option String} (hnas : w'.nas = s.nas.insert (buildNewKey key)
      { o with etag := etag, versionId := versionId }) :
    Advances nas₀ s { s with world := w' } := by
  refine h.withWorld (truthful_of_insert h.truthful hnas (h.truthful key o · ho)) ?_ ?_
  · rintro k ⟨hlegacy, o₀, o', sha, ho₀, ho', hsha, hsha', hsize⟩
    by_cases hk : buildNewKey k = buildNewKey key
    · -- the copy is renewed from the same object
      have hkk : k = key := buildNewKey_injective hlegacy hkey hk
      subst hkk
      have hsame : o₀ = o := Option.some.inj (ho₀.symm.trans (h.original hkey ho))
      subst hsame
      exact ⟨hlegacy, o₀, { o₀ with etag := etag, versionId := versionId }, sha, ho₀,
        by rw [hnas, AList.lookup_insert], hsha, hsha, rfl⟩
    · refine ⟨hlegacy, o₀, o', sha, ho₀, ?_, hsha, hsha', hsize⟩
      rw [hnas, AList.lookup_insert_ne hk]
      exact ho'
  · intro k hk
    refine Or.inl ?_
    rw [hnas, AList.lookup_insert_ne (ne_buildNewKey hk hkey)]

/-- Deleting a legacy object that has its copy. -/
theorem Inv.delete (h : Inv nas₀ s) (hcopied : Copied nas₀ s.nas key)
    (hnas : w'.nas = s.nas.erase key) : Advances nas₀ s { s with world := w' } := by
  have hkeep : ∀ k, Copied nas₀ s.nas k → Copied nas₀ w'.nas k := by
    rintro k ⟨hlegacy, o, o', sha, ho, ho', hrest⟩
    refine ⟨hlegacy, o, o', sha, ho, ?_, hrest⟩
    rw [hnas, AList.lookup_erase_ne (ne_buildNewKey hcopied.1 hlegacy).symm]
    exact ho'
  refine h.withWorld ?_ hkeep ?_
  · intro k o sha ho
    rw [hnas, lookup_erase_eq_some] at ho
    exact h.truthful k o sha ho.2
  · intro k _
    by_cases hk : k = key
    · refine Or.inr ⟨?_, hkeep k (hk ▸ hcopied)⟩
      rw [hnas, hk, AList.lookup_erase]
    · refine Or.inl ?_
      rw [hnas, AList.lookup_erase_ne hk]

/-! ## the bookkeeping of a partition -/

section

variable {F : Site C → Site C → Prop}

/-- An attempt goes on with the exception. -/
theorem ensures_attempt {m : Job C α} {P : α → Site C → Prop}
    (hm : Ensures F m s P) :
    Ensures F (attempt m) s fun r s' => ∀ a, r = .ok a → P a s' := by
  unfold Ensures
  simp only [attempt, wp_tryCatch, wp_bind, wp_pure]
  refine wp_mono hm ?_
  rintro r s' ⟨hF, hP⟩
  cases r with
  | ok a =>
    refine ⟨hF, ?_⟩
    rintro _ ⟨rfl⟩ _ ⟨rfl⟩
    exact hP a rfl
  | error stop =>
    cases stop with
    | raised e =>
      refine ⟨hF, ?_⟩
      rintro _ ⟨rfl⟩ a ⟨⟩
    | systemExit | crashed =>
      refine ⟨hF, ?_⟩
      rintro a ⟨⟩

variable (F) in
/-- The relation is kept by what reads the bucket. -/
def Idle : Prop := ∀ (s : Site C) (w' : World C) (crashes : Stream' Bool), w'.nas = s.nas →
  F s { s with world := w', crashes := crashes }

theorem keeps_alive (hidle : Idle F) : Eff.Keeps F (alive : Job C Unit) := by
  intro s
  refine (?_ : wp alive (fun _ s' => F s s') s)
  simp only [alive, wp_bind, wp_get, wp_set]
  cases s.crashes.head <;> exact hidle s s.world _ rfl

/-- A call that only reads. -/
theorem ensures_read (hidle : Idle F) {m : Prog C α} {P : α → Prop}
    (hm : wp m (fun r w' => s.world.Became w' s.nas ∧ ∀ a, r = .ok a → P a) s.world) :
    Ensures F (onNas m) s fun a s' => s'.nas = s.nas ∧ P a := by
  have hdead := hidle s s.world s.crashes.tail rfl
  simp only [Ensures, onNas, alive, wp_bind, wp_get, wp_set]
  cases s.crashes.head with
  | true =>
    refine ⟨hdead, ?_⟩
    rintro a ⟨⟩
  | false =>
    simp only [Bool.false_eq_true, if_false, wp_pure, wp_within]
    refine wp_mono hm ?_
    rintro r w' ⟨hw', hresult⟩
    have hend := hidle s w' s.crashes.tail hw'.nas_eq
    cases r with
    | ok a =>
      refine ⟨hend, ?_⟩
      rintro _ ⟨rfl⟩
      exact ⟨hw'.nas_eq, hresult a rfl⟩
    | error e =>
      refine ⟨hend, ?_⟩
      rintro a ⟨⟩

variable [Std.Refl F] [IsTrans (Site C) F]

theorem keeps_attempt {m : Job C α} (h : Eff.Keeps F m) : Eff.Keeps F (attempt m) := by
  refine (h.bind fun a => keeps_pure _).tryCatch fun stop => ?_
  cases stop with
  | raised e => exact keeps_pure _
  | systemExit | crashed => exact keeps_throw _

variable (F cfg) in
/-- A relation kept by what a partition does besides its copy and its delete. Only
updates that claim no copy are asked for. -/
structure Bookkeeping : Prop where
  setEntry : ∀ (partitionId : String) (f : PartitionEntry C → PartitionEntry C),
    (∀ e, (f e).ident = e.ident) →
    (∀ e, (f e).status.skipsVerify = true → e.status.skipsVerify = true) →
    Eff.Keeps F (setEntry partitionId f)
  writeAtomic : Eff.Keeps F (writeAtomic cfg)
  writeSentinel : ∀ digest partitionId, Eff.Keeps F (writeSentinel digest cfg partitionId)
  headObject : ∀ key, Eff.Keeps F (onNas (headObject key))

namespace Bookkeeping

omit [Std.Refl F] in
/-- A row is changed, the manifest is written, and the block goes on. -/
theorem record (h : Bookkeeping cfg F) {partitionId : String}
    {f : PartitionEntry C → PartitionEntry C} {k : Job C α} (hf : ∀ e, (f e).ident = e.ident)
    (hstatus : ∀ e, (f e).status.skipsVerify = true → e.status.skipsVerify = true)
    (hk : Eff.Keeps F k) :
    Eff.Keeps F (do Migration.setEntry partitionId f; Migration.writeAtomic cfg; k) :=
  (h.setEntry partitionId f hf hstatus).bind fun _ => h.writeAtomic.bind fun _ => hk

theorem fail (h : Bookkeeping cfg F) (partitionId message : String) :
    Eff.Keeps F (Migration.fail cfg partitionId message : Job C Status) := by
  refine h.record ?_ ?_ (keeps_pure _)
  · exact fun _ => rfl
  · exact fun _ => nofun

theorem sourceNotFound (h : Bookkeeping cfg F) (entry : PartitionEntry C) :
    Eff.Keeps F (Migration.sourceNotFound digest cfg entry) := by
  refine (keeps_attempt (h.headObject _)).bind fun r => ?_
  cases r with
  | ok dst =>
    cases hsha : dst.sha256 with
    | none =>
      simp only [hsha]
      exact h.fail _ _
    | some sha =>
      simp only [hsha]
      refine h.record ?_ ?_ ((h.writeSentinel _ _).bind fun _ => keeps_pure _)
      · exact fun _ => rfl
      · exact fun _ => nofun
  | error e =>
    cases e with
    | clientError code =>
      simp only
      split
      · exact h.fail _ _
      · exact keeps_throw _
    | _ => exact keeps_throw _

theorem stepCopy (h : Bookkeeping cfg F) {entry : PartitionEntry C}
    (hcopy : Eff.Keeps F (onNas (copyObject entry.oldKey entry.newKey))) :
    Eff.Keeps F (Migration.stepCopy digest cfg entry) := by
  refine h.record ?_ ?_ ((keeps_attempt hcopy).bind fun r => ?_)
  · exact fun _ => rfl
  · exact fun _ => nofun
  cases r with
  | error e => exact (h.fail _ _).bind fun _ => keeps_pure _
  | ok copy =>
    have hgoOn : Eff.Keeps F (do
        Migration.setEntry entry.partitionId fun e => { e with
          status := .copied
          newHead := { e.newHead with etag := copy.dstEtag, versionId := copy.dstVersionId } }
        Migration.writeAtomic cfg
        pure none : Job C (Option Status)) := by
      refine h.record ?_ ?_ (keeps_pure _)
      · exact fun _ => rfl
      · exact fun _ => nofun
    cases hstatus : copy.status with
    | sourceNotFound =>
      simp only [hstatus]
      exact (h.sourceNotFound entry).bind fun _ => keeps_pure _
    | dstConflict =>
      simp only [hstatus]
      exact (h.fail _ _).bind fun _ => keeps_pure _
    | copied =>
      simp only [hstatus]
      exact hgoOn
    | alreadyExistsIdempotent =>
      simp only [hstatus]
      exact hgoOn

end Bookkeeping

end

/-! ## the statements of a partition -/

theorem steps_idle : Idle (Steps nas₀) := fun s w' crashes hnas hinv => by
  have hadv := hinv.sameNas hnas
  exact ⟨{ hadv.inv with }, hadv.copied, hadv.ident⟩

theorem steps_alive : Eff.Keeps (Steps nas₀) (alive : Job C Unit) := keeps_alive steps_idle

/-- A call of the uploader through what it does to the bucket. -/
theorem steps_onNas {m : Prog C α}
    (h : ∀ s, Inv nas₀ s → wp m (fun _ w' => Advances nas₀ s { s with world := w' }) s.world) :
    Eff.Keeps (Steps nas₀) (onNas m) := by
  refine steps_alive.bind fun _ => ?_
  intro s hinv
  refine (?_ : wp (Eff.within Site.world _ Abort.raised m) (fun _ s' => Advances nas₀ s s') s)
  rw [wp_within]
  refine wp_mono (h s hinv) fun r w' h' => ?_
  cases r <;> exact h'

theorem steps_writeAtomic : Eff.Keeps (Steps nas₀) (writeAtomic cfg : Job C Unit) := by
  refine steps_alive.bind fun _ => keeps_modify fun s hinv => ?_
  refine ⟨{ hinv with filed := fun name m hm => ?_ }, fun _ h => h, rfl⟩
  rcases lookup_insert_eq_some.mp hm with ⟨-, rfl⟩ | ⟨-, hm⟩
  · exact hinv.held
  · exact hinv.filed name m hm

theorem steps_writeSentinel (partitionId : String) :
    Eff.Keeps (Steps nas₀) (writeSentinel digest cfg partitionId : Job C Unit) := by
  refine steps_alive.bind fun _ => keeps_modify fun s hinv => ?_
  split
  · exact ⟨hinv, fun _ h => h, rfl⟩
  · exact ⟨{ hinv with }, fun _ h => h, rfl⟩

variable {f : PartitionEntry C → PartitionEntry C} {partitionId : String}

theorem map_ident_update (hf : ∀ e, (f e).ident = e.ident) :
    (m.update partitionId f).map PartitionEntry.ident = m.map PartitionEntry.ident := by
  unfold Manifest.update
  rw [List.map_map]
  refine List.map_congr_left fun e _ => ?_
  show (if e.partitionId = partitionId then f e else e).ident = e.ident
  split
  · exact hf e
  · rfl

theorem partitionIds_eq {m' : Manifest C}
    (h : m'.map PartitionEntry.ident = m.map PartitionEntry.ident) :
    m'.map PartitionEntry.partitionId = m.map PartitionEntry.partitionId := by
  have hfst := congrArg (List.map Prod.fst) h
  rw [List.map_map, List.map_map] at hfst
  exact hfst

/-- An update is fine if the updated entries are. -/
theorem ManifestOk.update (h : ManifestOk nas₀ nas m) (hf : ∀ e, (f e).ident = e.ident)
    (hcopied : ∀ e ∈ m, e.partitionId = partitionId → (f e).status.skipsVerify = true →
      Copied nas₀ nas e.oldKey) : ManifestOk nas₀ nas (m.update partitionId f) where
  entries e' he' := by
    obtain ⟨e, he, rfl⟩ := List.mem_map.mp he'
    have hok := h.entries e he
    by_cases hid : e.partitionId = partitionId
    · rw [if_pos hid]
      have hfe := hf e
      simp only [PartitionEntry.ident, Prod.mk.injEq] at hfe
      obtain ⟨hpid, hold, hnew⟩ := hfe
      refine ⟨hold ▸ hok.legacy, ?_, ?_, fun hstatus => hold ▸ hcopied e he hid hstatus⟩
      · rw [hnew, hold]
        exact hok.newKey
      · rw [hpid, hold]
        exact hok.partitionId
    · rw [if_neg hid]
      exact hok
  nodup := by
    rw [partitionIds_eq (map_ident_update hf)]
    exact h.nodup

theorem Inv.setEntry (h : Inv nas₀ s) (hf : ∀ e, (f e).ident = e.ident)
    (hcopied : ∀ e ∈ s.memory, e.partitionId = partitionId → (f e).status.skipsVerify = true →
      Copied nas₀ s.nas e.oldKey) :
    Advances nas₀ s { s with memory := s.memory.update partitionId f } :=
  ⟨{ h with held := h.held.update hf hcopied }, fun _ hkey => hkey, map_ident_update hf⟩

/-- An update that does not claim a copy. -/
theorem steps_update (hf : ∀ e, (f e).ident = e.ident)
    (hstatus : ∀ e, (f e).status.skipsVerify = true → e.status.skipsVerify = true) :
    Steps nas₀ s { s with memory := s.memory.update partitionId f } := by
  intro hinv
  refine hinv.setEntry hf fun e he _ hclaim => ?_
  exact (hinv.held.entries e he).copied (hstatus e hclaim)

theorem steps_headObject (key : Key) :
    Eff.Keeps (Steps nas₀) (onNas (headObject key) : Job C (Head C)) :=
  steps_onNas fun _ hinv => wp_mono headObject_nas fun _ _ h => hinv.sameNas h.1.nas_eq

theorem steps_copyObject (hlegacy : Legacy entry.oldKey)
    (hnew : entry.newKey = buildNewKey entry.oldKey) :
    Eff.Keeps (Steps nas₀) (onNas (copyObject entry.oldKey entry.newKey) : Job C CopyResult) := by
  rw [hnew]
  refine steps_onNas fun s hinv => wp_mono copyObject_nas fun r w' h => ?_
  rcases h with hsame | ⟨o, etag, versionId, ho, hcopy⟩
  · exact hinv.sameNas hsame.nas_eq
  · exact hinv.copy hlegacy ho hcopy.nas_eq

theorem steps_bookkeeping : Bookkeeping cfg (Steps nas₀) where
  setEntry _ _ hf hstatus := keeps_modify fun _ => steps_update hf hstatus
  writeAtomic := steps_writeAtomic
  writeSentinel _ := steps_writeSentinel
  headObject := steps_headObject

/-! ## verification and delete -/

/-- The entry of this partition in memory, if there is one, is about the same object. -/
def Tracks (s : Site C) (entry : PartitionEntry C) : Prop :=
  ∀ i ∈ s.memory.map PartitionEntry.ident, i.1 = entry.partitionId → i.2.1 = entry.oldKey

theorem Advances.tracks (h : Advances nas₀ s s') (htracks : Tracks s entry) : Tracks s' entry := by
  unfold Tracks
  rw [h.ident]
  exact htracks

/-- An entry may say that its object has a copy when it has. -/
theorem Inv.claim (hinv : Inv nas₀ s) (htracks : Tracks s entry)
    (hcopied : Copied nas₀ s.nas entry.oldKey) (hf : ∀ e, (f e).ident = e.ident) :
    Advances nas₀ s { s with memory := s.memory.update entry.partitionId f } := by
  refine hinv.setEntry hf fun e he hid _ => ?_
  have hold : e.oldKey = entry.oldKey := htracks e.ident (List.mem_map_of_mem he) hid
  rw [hold]
  exact hcopied

/-- A row is changed, the manifest is written, and the block goes on. -/
theorem ensures_record {P : α → Site C → Prop} {k : Job C α}
    (hset : Steps nas₀ s { s with memory := s.memory.update partitionId f })
    (hk : ∀ s', Steps nas₀ s s' → Ensures (Steps nas₀) k s' P) :
    Ensures (Steps nas₀) (do setEntry partitionId f; writeAtomic cfg; k) s P := by
  refine Ensures.bind (P := fun _ _ => True) (ensures_modify hset trivial) fun _ s₁ h₁ _ => ?_
  exact steps_writeAtomic.ensures.bind fun _ s₂ h₂ _ => hk s₂ (IsTrans.trans _ _ _ h₁ h₂)

/-- The four checks have seen both objects when they pass. -/
theorem verify4head_advances (entry : PartitionEntry C) :
    Ensures (Steps nas₀) (verify4head entry) s fun r s' => ∀ src dst, r = some (src, dst) →
      headsPass src dst = true ∧ ∃ o o', s'.nas.lookup entry.oldKey = some o ∧
        s'.nas.lookup entry.newKey = some o' ∧ src = o.head ∧ dst = o'.head := by
  refine (ensures_attempt (ensures_read steps_idle headObject_nas)).bind fun found s₁ _ hsrc => ?_
  cases found with
  | error e =>
    cases e with
    | clientError code =>
      simp only
      split
      · exact ensures_pure nofun
      · exact ensures_throw _
    | _ => exact ensures_throw _
  | ok src =>
    refine (ensures_attempt (ensures_read steps_idle headObject_nas)).bind
      fun present s₂ _ hdst => ?_
    cases present with
    | error e =>
      cases e with
      | clientError code => exact ensures_pure nofun
      | _ => exact ensures_throw _
    | ok dst =>
      obtain ⟨hnas₁, o, ho, rfl⟩ := hsrc src rfl
      obtain ⟨hnas₂, o', ho', rfl⟩ := hdst dst rfl
      refine Ensures.bind (P := fun _ s₃ => s₃.nas = s₂.nas) (ensures_modify ?_ rfl)
        fun _ s₃ _ hnas₃ => ensures_pure fun src dst heq => ?_
      · exact steps_update (fun _ => rfl) fun _ h => h
      split at heq
      · rename_i hpass
        cases heq
        refine ⟨hpass, o, o', ?_, ?_, rfl, rfl⟩
        · rw [hnas₃, hnas₂, hnas₁]
          exact ho
        · rw [hnas₃, hnas₂]
          exact ho'
      · cases heq

theorem headsPass_eq_true {o' : Obj C} (h : headsPass o.head o'.head = true) :
    o.sha256 = o'.sha256 ∧ Blob.size o.body = Blob.size o'.body := by
  simp only [headsPass, Bool.and_eq_true, decide_eq_true_eq] at h
  obtain ⟨⟨-, hmatch⟩, hlength⟩ := h
  refine ⟨?_, hlength⟩
  simp only [Obj.head] at hmatch
  split at hmatch <;> simp_all

section

variable (hinv : Inv nas₀ s)
include hinv

/-- Two HEADs that pass, of which one has a sha256, show the copy. -/
theorem Inv.copied_of_heads (hkey : Legacy key) {o' : Obj C} (ho : s.nas.lookup key = some o)
    (ho' : s.nas.lookup (buildNewKey key) = some o') (hpass : headsPass o.head o'.head = true)
    (hsha : (o.head.sha256.isNone && o'.head.sha256.isNone) = false) : Copied nas₀ s.nas key := by
  refine ⟨hkey, ?_⟩
  obtain ⟨hsame, hlength⟩ := headsPass_eq_true hpass
  cases hs : o.sha256 with
  | none => simp [Obj.head, ← hsame, hs] at hsha
  | some sha => exact ⟨o, o', sha, hinv.original hkey ho, ho', hs, hsame ▸ hs, hlength.symm⟩

/-- A verification that goes on has found the copy. -/
theorem stepVerify_advances (hlegacy : Legacy entry.oldKey)
    (hnew : entry.newKey = buildNewKey entry.oldKey) (htracks : Tracks s entry) :
    Ensures (Steps nas₀) (stepVerify cfg entry) s fun r s' =>
      r = none → Copied nas₀ s'.nas entry.oldKey := by
  refine ensures_record ?_ fun s₁ h₁ => ?_
  · exact steps_update (fun _ => rfl) fun _ => nofun
  refine (verify4head_advances entry).bind fun verdict s₂ h₂ hpass => ?_
  have hadv := (h₁ hinv).trans (h₂ (h₁ hinv).inv)
  cases verdict with
  | none =>
    exact (steps_bookkeeping.fail entry.partitionId _).ensures.bind fun _ _ _ _ =>
      ensures_pure nofun
  | some heads =>
    obtain ⟨src, dst⟩ := heads
    obtain ⟨hheads, o, o', ho, ho', rfl, rfl⟩ := hpass src dst rfl
    rw [hnew] at ho'
    simp only
    split
    · refine ensures_record ?_ fun _ _ => ensures_pure nofun
      exact steps_update (fun _ => rfl) fun _ => nofun
    · rename_i hsha
      have hcopied : Copied nas₀ s₂.nas entry.oldKey :=
        hadv.inv.copied_of_heads hlegacy ho ho' hheads (Bool.eq_false_iff.mpr hsha)
      refine ensures_record (fun h => h.claim (hadv.tracks htracks) hcopied fun _ => rfl)
        fun s₃ h₃ => ensures_pure fun _ => ?_
      exact (h₃ hadv.inv).copied _ hcopied

/-- The old object may go once its copy is there. -/
theorem issueDelete_advances (hcopied : Copied nas₀ s.nas key) :
    Ensures (Steps nas₀) (issueDelete key) s fun _ _ => True := by
  refine steps_alive.ensures.bind fun _ s₁ h₁ _ => ?_
  have hcopied₁ := (h₁ hinv).copied key hcopied
  have hlog : Steps nas₀ s₁ { s₁ with deletes := (key, s₁.nas) :: s₁.deletes } := by
    intro hinv₁
    refine ⟨{ hinv₁ with issued := fun d hd => ?_ }, fun _ h => h, rfl⟩
    rcases List.mem_cons.mp hd with rfl | hd
    · exact ⟨hcopied₁, (hinv₁.legacy key hcopied.1).imp id And.left⟩
    · exact hinv₁.issued d hd
  refine Ensures.bind (P := fun _ s₂ => Copied nas₀ s₂.nas key)
    (ensures_modify hlog hcopied₁) fun _ s₂ _ hcopied₂ => ?_
  show wp (Eff.within Site.world _ Abort.raised (deleteObject key)) _ _
  rw [wp_within]
  refine wp_mono deleteObject_nas fun r w' h => ?_
  have hend : Steps nas₀ s₂ { s₂ with world := w' } := by
    intro hinv₂
    rcases h with hsame | herased
    · exact hinv₂.sameNas hsame.nas_eq
    · exact hinv₂.delete hcopied₂ herased.nas_eq
  cases r with
  | ok a => exact ⟨hend, fun _ _ => trivial⟩
  | error e => exact ⟨hend, nofun⟩

theorem stepDelete_advances (hcopied : Copied nas₀ s.nas entry.oldKey) (htracks : Tracks s entry) :
    Ensures (Steps nas₀) (stepDelete digest cfg entry) s fun _ _ => True := by
  refine ensures_record (fun h => h.claim htracks hcopied fun _ => rfl) fun s₁ h₁ => ?_
  have hadv := h₁ hinv
  have hdelete : Ensures (Steps nas₀) (if cfg.dryRun then pure () else issueDelete entry.oldKey :
      Job C Unit) s₁ fun _ _ => True := by
    split
    · exact ensures_pure trivial
    · exact issueDelete_advances hadv.inv (hadv.copied _ hcopied)
  refine (ensures_attempt hdelete).bind fun outcome s₂ _ _ => ?_
  cases outcome with
  | error e => exact (steps_bookkeeping.fail _ _).ensures
  | ok _ =>
    refine Keeps.ensures ((steps_writeSentinel _).bind fun _ =>
      steps_bookkeeping.record ?_ ?_ (keeps_pure _))
    · exact fun _ => rfl
    · exact fun _ => nofun

theorem verifyThenDelete_advances (hlegacy : Legacy entry.oldKey)
    (hnew : entry.newKey = buildNewKey entry.oldKey) (htracks : Tracks s entry) :
    Ensures (Steps nas₀) (verifyThenDelete digest cfg entry) s fun _ _ => True := by
  refine (stepVerify_advances hinv hlegacy hnew htracks).bind fun verdict s₁ h₁ hcopied => ?_
  cases verdict with
  | some status => exact ensures_pure trivial
  | none =>
    have hadv := h₁ hinv
    exact stepDelete_advances hadv.inv (hcopied rfl) (hadv.tracks htracks)

/-- **One partition keeps the invariant, however it ends.** -/
theorem processPartition_advances (hok : EntryOk nas₀ s.nas entry) (htracks : Tracks s entry) :
    Ensures (Steps nas₀) (processPartition digest cfg entry) s fun _ _ => True := by
  unfold processPartition
  split
  · rename_i hskip
    exact stepDelete_advances hinv (hok.copied hskip) htracks
  · split
    · exact verifyThenDelete_advances hinv hok.legacy hok.newKey htracks
    · have hcopy : Eff.Keeps (Steps nas₀) (onNas (copyObject entry.oldKey entry.newKey)) :=
        steps_copyObject hok.legacy hok.newKey
      refine (steps_bookkeeping.stepCopy hcopy).ensures.bind fun outcome s₁ h₁ _ => ?_
      cases outcome with
      | some status => exact ensures_pure trivial
      | none =>
        have hadv := h₁ hinv
        exact verifyThenDelete_advances hadv.inv hok.legacy hok.newKey (hadv.tracks htracks)

end

/-! ## a run -/

variable {launch : Launch}

/-- **The batch keeps the invariant**: by induction over the entries, each of which is
about its own object when its turn comes. -/
theorem batch_advances {entries : List (PartitionEntry C)} {processed failedInBatch : Nat}
    {result : RekeyResult} (hinv : Inv nas₀ s)
    (hentries : ∀ e ∈ entries, EntryOk nas₀ s.nas e ∧ Tracks s e) :
    Ensures (Steps nas₀) (batch digest cfg launch entries processed failedInBatch result) s
      fun _ _ => True := by
  induction entries generalizing s processed failedInBatch result with
  | nil => exact ensures_pure trivial
  | cons entry rest ih =>
    obtain ⟨hok, htracks⟩ := hentries entry List.mem_cons_self
    unfold batch
    iterate 3
      split
      · exact ensures_pure trivial
    refine (processPartition_advances hinv hok htracks).bind fun status s₁ h₁ _ => ?_
    have hadv := h₁ hinv
    have hrest : ∀ processed failedInBatch result, Ensures (Steps nas₀)
        (batch digest cfg launch rest processed failedInBatch result) s₁ fun _ _ => True := by
      intro processed failedInBatch result
      refine ih hadv.inv fun e he => ?_
      obtain ⟨hok', htracks'⟩ := hentries e (List.mem_cons_of_mem entry he)
      exact ⟨hok'.mono hadv.copied, hadv.tracks htracks'⟩
    cases status with
    | failed =>
      simp only
      split
      · exact ensures_pure trivial
      · exact hrest _ _ _
    | _ => exact hrest _ _ _

theorem ManifestOk.upsertPending (h : ManifestOk nas₀ nas m) (hkey : Legacy key) :
    ManifestOk nas₀ nas (m.upsertPending (buildPartitionId key) key (buildNewKey key)) := by
  unfold Manifest.upsertPending
  split
  · exact h
  · rename_i hnew
    refine ⟨?_, ?_⟩
    · intro e he
      rcases List.mem_append.mp he with he | he
      · exact h.entries e he
      · cases List.mem_singleton.mp he
        exact ⟨hkey, rfl, rfl, nofun⟩
    · rw [List.map_append, List.nodup_append]
      refine ⟨h.nodup, List.nodup_singleton _, ?_⟩
      intro a ha b hb hab
      obtain ⟨e, he, rfl⟩ := List.mem_map.mp ha
      have hb' : b = buildPartitionId key := List.mem_singleton.mp hb
      rw [hb'] at hab
      exact hnew (List.any_eq_true.mpr ⟨e, he, decide_eq_true hab⟩)

theorem ManifestOk.populate {sentinels : List Path} {keys : List Key} (h : ManifestOk nas₀ nas m)
    (hkeys : ∀ k ∈ keys, Legacy k) :
    ManifestOk nas₀ nas (populate digest cfg sentinels keys m) := by
  induction keys generalizing m with
  | nil => exact h
  | cons key rest ih =>
    refine ih ?_ fun k hk => hkeys k (List.mem_cons_of_mem key hk)
    split
    · exact h.update (fun _ => rfl) fun _ _ _ => nofun
    · exact h.upsertPending (hkeys key List.mem_cons_self)

theorem legacy_of_mem_candidateKeys {exchange : String} (channel : String) {keys : List Key}
    (hkeys : ∀ k ∈ keys, legacyDiscoveryPrefix channel <+: k)
    (h : key ∈ candidateKeys exchange keys) : Legacy key := by
  have hmem : key ∈ keys := List.mem_of_mem_filter (List.mem_of_mem_filter h)
  exact List.IsPrefix.trans ⟨[channel], rfl⟩ (hkeys key hmem)

theorem clientListObjects_nas {pfx : Key} {w : World C} :
    wp (clientListObjects pfx) (fun r w' => w.Became w' w.nas ∧ ∀ keys, r = .ok keys →
      keys = sortKeys (w.nas.keys.filter pfx.isPrefixOf)) w := by
  rw [clientListObjects, wp_request]
  cases w.replies.head.failure with
  | none => exact ⟨⟨1, rfl⟩, fun _ h => (Except.ok.inj h).symm⟩
  | some e => exact ⟨⟨1, rfl⟩, nofun⟩

/-- A run keeps a relation that reading keeps, if the migration of its candidates does. -/
theorem keeps_run {F : Site C → Site C → Prop} [Std.Refl F] [IsTrans (Site C) F] (hidle : Idle F)
    (hmigrate : ∀ nas : AList fun _ : Key => Obj C,
      Eff.Keeps F (migrate digest cfg launch (candidateKeys cfg.exchange
      (sortKeys (nas.keys.filter (legacyDiscoveryPrefix cfg.channel).isPrefixOf))))) :
    Eff.Keeps F (run digest cfg launch) := by
  have hversioning : Eff.Keeps F (checkVersioning : Job C Unit) := by
    refine keeps_get.bind fun s₀ => Keeps.bind (fun s => (ensures_read (P := fun _ => True) hidle
      ?_).1) fun status => ?_
    · rw [wp_request]
      cases s.world.replies.head.failure <;> exact ⟨⟨1, rfl⟩, fun _ _ => trivial⟩
    · split
      · exact keeps_throw _
      · exact keeps_pure _
  have hdisk : Eff.Keeps F (checkDiskUsage launch : Job C Unit) := by
    unfold checkDiskUsage
    split
    · exact keeps_throw _
    · exact keeps_pure _
  have hzero : Eff.Keeps F (silentZero cfg : Job C RekeyResult) := by
    refine keeps_get.bind fun s => ?_
    split
    · split
      · exact keeps_pure _
      · exact keeps_throw _
    · exact keeps_throw _
  unfold run
  split
  · exact keeps_throw _
  refine hversioning.bind fun _ => hdisk.bind fun _ s => ?_
  refine (Ensures.bind (P := fun keys _ => keys = candidateKeys cfg.exchange (sortKeys
    (s.nas.keys.filter (legacyDiscoveryPrefix cfg.channel).isPrefixOf))) ?_ ?_ :
    Ensures F _ s fun _ _ => True).1
  · unfold discoverL1Objects
    split
    · exact ensures_throw _
    · exact (ensures_read hidle clientListObjects_nas).bind fun allKeys s₁ _ hkeys =>
        ensures_pure (congrArg _ hkeys.2)
  · rintro _ s₁ - rfl
    split
    · exact hzero.ensures
    · exact (hmigrate s.nas).ensures

/-- A migration keeps the invariant, also where it raises. -/
theorem migrate_inv {candidates : List Key} (hinv : Inv nas₀ s)
    (hkeys : ∀ k ∈ candidates, Legacy k) :
    wp (migrate digest cfg launch candidates) (fun _ s' => Inv nas₀ s') s := by
  have hloaded : ManifestOk nas₀ s.nas ((s.manifests.lookup (manifestName cfg)).getD []) := by
    cases hm : s.manifests.lookup (manifestName cfg) with
    | none => exact manifestOk_nil
    | some m => exact hinv.filed _ m hm
  have hmemory : ManifestOk nas₀ s.nas (populate digest cfg s.sentinels candidates
      ((s.manifests.lookup (manifestName cfg)).getD [])) := hloaded.populate hkeys
  simp only [migrate, load, wp_bind, wp_modify, wp_get]
  generalize populate digest cfg s.sentinels candidates
    ((s.manifests.lookup (manifestName cfg)).getD []) = m at hmemory ⊢
  have hinv₁ : Inv nas₀ { s with memory := m } := { hinv with held := hmemory }
  have hwrite : wp (writeAtomic cfg) (fun _ s' => Advances nas₀ { s with memory := m } s')
      { s with memory := m } := steps_writeAtomic _ hinv₁
  refine wp_mono hwrite fun r s₂ hadv => ?_
  cases r with
  | error e => exact hadv.inv
  | ok _ =>
    refine wp_mono (batch_advances hadv.inv ?_) fun _ _ h => (h.1 hadv.inv).inv
    intro e he
    have hmem : e ∈ m := List.mem_of_mem_filter he
    refine ⟨(hmemory.entries e hmem).mono hadv.copied, ?_⟩
    intro i hi hpid
    rw [hadv.ident] at hi
    obtain ⟨e', he', rfl⟩ := List.mem_map.mp hi
    have heq : e' = e := List.inj_on_of_nodup_map hmemory.nodup he' hmem hpid
    rw [heq]
    rfl

/-- **A run keeps the invariant**, whether it returns, raises, exits or dies. -/
theorem run_inv (hinv : Inv nas₀ s) : wp (run digest cfg launch) (fun _ s' => Inv nas₀ s') s := by
  have hrefl : Std.Refl fun s s' : Site C => Inv nas₀ s → Inv nas₀ s' := ⟨fun _ => id⟩
  have htrans : IsTrans (Site C) fun s s' => Inv nas₀ s → Inv nas₀ s' :=
    ⟨fun _ _ _ h h' => h' ∘ h⟩
  refine keeps_run (F := fun s s' => Inv nas₀ s → Inv nas₀ s') ?_ ?_ s hinv
  · exact fun s w' crashes hnas h => (steps_idle s w' crashes hnas h).inv
  · intro nas s₀ hinv₀
    refine migrate_inv hinv₀ fun k hk => legacy_of_mem_candidateKeys cfg.channel ?_ hk
    intro k' hk'
    rw [mem_sortKeys] at hk'
    exact List.isPrefixOf_iff_prefix.mp (List.of_mem_filter hk')

/-! ## every history -/

theorem Inv.leaves (hinv : Inv nas₀ s) (a : Attempt) : Inv nas₀ (a.leaves digest s) := by
  have hstart : Inv nas₀ (a.start s) := { hinv with }
  exact run_inv hstart

theorem inv_untouched (huntouched : s.Untouched) (htruthful : Truthful s.world) : Inv s.nas s := by
  obtain ⟨hmanifests, -, hdeletes, hmemory⟩ := huntouched
  refine ⟨fun _ _ => Or.inl rfl, htruthful, ?_, ?_, ?_⟩
  · intro name m hm
    simp [hmanifests, AList.lookup_empty] at hm
  · rw [hmemory]
    exact manifestOk_nil
  · intro d hd
    simp [hdeletes] at hd

theorem inv_of_reaches {site : Site C} (huntouched : site.Untouched)
    (htruthful : Truthful site.world) {g : Site C → Attempt → Prop}
    (h : (rekeyMachine digest site).Reaches g s) : Inv site.nas s := by
  refine Machine.Reaches.invariant (I := Inv site.nas) ?_ ?_ h
  · rintro s₀ rfl
    exact inv_untouched huntouched htruthful
  · intro s₀ a s₁ hinv _ hstep
    cases Option.some.inj hstep
    exact hinv.leaves a

/-- A copy has the bytes. -/
theorem Inv.holds (hinv : Inv nas₀ s)
    (htruthful : ∀ key o sha, nas₀.lookup key = some o → o.sha256 = some sha →
      sha = Blob.sha256 o.body) (ho : nas₀.lookup key = some o) (hcopied : Copied nas₀ s.nas key) :
    HoldsNas s.world (buildNewKey key) o.body := by
  obtain ⟨-, o₁, o', sha, ho₁, ho', hsha, hsha', -⟩ := hcopied
  cases Option.some.inj (ho.symm.trans ho₁)
  refine ⟨o', ho', Blob.sha256_injective ?_⟩
  rw [← hinv.truthful _ o' sha ho' hsha', ← htruthful key o sha ho hsha]

/-- **Re-key safety.** After every history of runs, with any replies of the NAS and any
deaths of the process, each delete that was issued met the copy of its object, and each
legacy object is still at its old key or at its new one. -/
theorem rekey_deletes_only_copied {site : Site C} (huntouched : site.Untouched)
    (htruthful : Truthful site.world)
    (h : (rekeyMachine digest site).Reaches Machine.anyStep s) :
    (∀ d ∈ s.deletes, DeleteOk site.nas d) ∧
      ∀ key o, Legacy key → site.nas.lookup key = some o →
        HoldsNas s.world key o.body ∨ HoldsNas s.world (buildNewKey key) o.body := by
  have hinv := inv_of_reaches huntouched htruthful h
  refine ⟨hinv.issued, ?_⟩
  intro key o hkey ho
  rcases hinv.legacy key hkey with hsame | ⟨-, hcopied⟩
  · exact Or.inl ⟨o, hsame.trans ho, rfl⟩
  · exact Or.inr (hinv.holds htruthful ho hcopied)

/-! ## one object -/

/-- An old key of the exchange `E` and the channel `c`. -/
def exampleKey (file : String) : Key := ["l1", "market", "c", "tier=L1", "exchange=E", file]

/-- An object with its sha256. -/
def exampleObj (body : String) : Obj String := ⟨body, some (Blob.sha256 body), "", some "v"⟩

/-- A versioned bucket, and nothing else. -/
def exampleSite (objects : List (Key × Obj String)) : Site String where
  world := {
    files := ∅
    dirs := []
    nas := objects.foldr (fun kv nas => nas.insert kv.1 kv.2) ∅
    retryQueue := none
    replies := Stream'.const (.ok "" (some "v"))
    unlinkFaults := Stream'.const false }
  versioning := "Enabled"
  manifests := ∅
  sentinels := []
  deletes := []
  memory := []
  crashes := Stream'.const false

/-- A legacy object that is compacted. -/
def oneObject : Site String :=
  exampleSite [(exampleKey "a", exampleObj "rows"), (exampleKey "a.compacted", exampleObj "")]

/-- A live run that is answered and does not die. -/
def liveRun : Attempt where
  config := { exchange := "E", channel := "c", dryRun := false, iUnderstandIrreversible := true }
  launch := ⟨1024 ^ 3, fun _ => false⟩
  replies := Stream'.const (.ok "" (some "v"))
  crashes := Stream'.const false

theorem oneObject_truthful : Truthful oneObject.world := by
  have hempty : Truthful { oneObject.world with nas := ∅ } := by
    intro key o sha ho
    cases ho
  have hobj : ∀ body sha, (exampleObj body).sha256 = some sha → sha = Blob.sha256 body :=
    fun _ _ h => (Option.some.inj h).symm
  have hmarked : Truthful { oneObject.world with
      nas := AList.insert (exampleKey "a.compacted") (exampleObj "") ∅ } :=
    truthful_of_insert hempty rfl (hobj "")
  exact truthful_of_insert hmarked rfl (hobj "rows")

/-- After a live run the object was deleted at its old key, and is at its new one. -/
theorem rekey_deletes_copied_object :
    ((liveRun.leaves String.ofList oneObject).deletes.map Prod.fst = [exampleKey "a"] ∧
      (liveRun.leaves String.ofList oneObject).nas.lookup (exampleKey "a") = none) ∧
    (∀ d ∈ (liveRun.leaves String.ofList oneObject).deletes, DeleteOk oneObject.nas d) ∧
      ∀ key o, Legacy key → oneObject.nas.lookup key = some o →
        HoldsNas (liveRun.leaves String.ofList oneObject).world key o.body ∨
          HoldsNas (liveRun.leaves String.ofList oneObject).world (buildNewKey key) o.body := by
  refine ⟨⟨by decide +kernel, ?_⟩, rekey_deletes_only_copied ⟨rfl, rfl, rfl, rfl⟩
    oneObject_truthful (.step (.init rfl) trivial rfl)⟩
  decide +kernel

end MctraderData.Migration
