import MctraderData.Migration.Rekey

/-!
# mctrader-data — when two objects of the rekey migration share a name

The migration knows an object by its partition id, the text of its key after `l1/` with
`/` written as `-` and without a trailing run of `-`. The manifest has one entry for each
id, and the sentinel file is named by a hash of the id without pairs of dots. All of this
loses something, so distinct keys may get one name, and the second of them is taken for
already handled.

The loss is exactly a matter of spelling. Two keys are `SpeltAlike` when their texts,
without trailing `/` and `-`, can be turned into each other by writing `-` for a `/` and
by leaving out pairs of dots, in either direction and any number of times.

## Results

* `neverConfused_iff` — the sets of legacy keys on which ids and sentinels tell all
  objects apart.
* `slash_and_dash_share_a_name` — two candidates of one listing with one id.
-/

namespace MctraderData.Migration

open Nas
open Relation (EqvGen)

/-! ## spelling -/

/-- One change of spelling. -/
inductive Respelled : List Char → List Char → Prop where
  | slash (u v : List Char) : Respelled (u ++ '/' :: v) (u ++ '-' :: v)
  | dots (u v : List Char) : Respelled (u ++ '.' :: '.' :: v) (u ++ v)

theorem Respelled.cons (c : Char) {a b : List Char} (h : Respelled a b) :
    Respelled (c :: a) (c :: b) := by
  cases h with
  | slash u v => exact .slash (c :: u) v
  | dots u v => exact .dots (c :: u) v

theorem eqvGen_respelled_cons (c : Char) {a b : List Char} (h : EqvGen Respelled a b) :
    EqvGen Respelled (c :: a) (c :: b) := by
  induction h with
  | rel a b h => exact .rel _ _ (h.cons c)
  | refl a => exact .refl _
  | symm a b _ ih => exact .symm _ _ ih
  | trans a b d _ _ ih ih' => exact .trans _ _ _ ih ih'

theorem withoutDots_cons {c : Char} {text : List Char}
    (h : ∀ rest, c = '.' → text = '.' :: rest → False) :
    withoutDots (c :: text) = c :: withoutDots text := by
  rw [withoutDots]
  exact h

/-- A pair of dots anywhere makes no difference. -/
theorem withoutDots_append_dots (u v : List Char) :
    withoutDots (u ++ '.' :: '.' :: v) = withoutDots (u ++ v) := by
  induction u using withoutDots.induct with
  | case1 rest ih => exact ih
  | case2 c rest hpair ih =>
    cases rest with
    | nil =>
      by_cases hc : c = '.'
      · -- of three dots the first two go
        subst hc
        rfl
      · show withoutDots (c :: '.' :: '.' :: v) = withoutDots (c :: v)
        rw [withoutDots_cons fun _ h _ => hc h, withoutDots_cons fun _ h _ => hc h]
        rfl
    | cons d rest =>
      have hne : ∀ tail rest', c = '.' → d :: tail = '.' :: rest' → False := by
        rintro tail rest' rfl heq
        cases heq
        exact hpair rest rfl rfl
      show withoutDots (c :: d :: (rest ++ '.' :: '.' :: v)) = withoutDots (c :: d :: (rest ++ v))
      rw [withoutDots_cons (hne _), withoutDots_cons (hne _)]
      exact congrArg (c :: ·) ih
  | case3 => rfl

/-- What is left of the spelling of a text in the name of a sentinel. -/
def spelling (text : List Char) : List Char := withoutDots (dashes text)

theorem Respelled.spelling_eq {a b : List Char} (h : Respelled a b) : spelling a = spelling b := by
  cases h with
  | slash u v => simp [spelling, dashes]
  | dots u v =>
    have hdots : dashes (u ++ '.' :: '.' :: v) = dashes u ++ '.' :: '.' :: dashes v := by
      simp [dashes]
    rw [spelling, hdots, withoutDots_append_dots]
    simp [spelling, dashes]

theorem respelled_dashes (text : List Char) : EqvGen Respelled text (dashes text) := by
  induction text with
  | nil => exact .refl _
  | cons c rest ih =>
    have hrest := eqvGen_respelled_cons c ih
    by_cases hc : c = '/'
    · subst hc
      exact hrest.trans _ _ _ (.rel _ _ (.slash [] (dashes rest)))
    · simpa [dashes, hc] using hrest

theorem respelled_withoutDots (text : List Char) : EqvGen Respelled text (withoutDots text) := by
  induction text using withoutDots.induct with
  | case1 rest ih => exact .trans _ _ _ (.rel _ _ (.dots [] rest)) ih
  | case2 c rest hpair ih =>
    rw [withoutDots_cons hpair]
    exact eqvGen_respelled_cons c ih
  | case3 => exact .refl _

/-- Two texts can be respelled into each other exactly when the same is left of both. -/
theorem respelled_iff {a b : List Char} : EqvGen Respelled a b ↔ spelling a = spelling b := by
  have hreach : ∀ text, EqvGen Respelled text (spelling text) := fun text =>
    (respelled_dashes text).trans _ _ _ (respelled_withoutDots (dashes text))
  constructor
  · intro h
    induction h with
    | rel a b h => exact h.spelling_eq
    | refl a => rfl
    | symm a b _ ih => exact ih.symm
    | trans a b c _ _ ih ih' => exact ih.trans ih'
  · intro h
    exact (hreach a).trans _ _ _ (h ▸ (hreach b).symm _ _)

/-! ## the names of a legacy key -/

/-- A trailing `/` or `-`. -/
def isSeparator (c : Char) : Bool := c = '/' || c = '-'

/-- The text of a key without its trailing separators. -/
def trimmed (key : Key) : List Char := (keyText key).rdropWhile isSeparator

/-- The keys differ in spelling only. -/
def SpeltAlike (key key' : Key) : Prop := EqvGen Respelled (trimmed key) (trimmed key')

/-- The text whose hash names the sentinel of an object. -/
def safeId (key : Key) : List Char := withoutDots (dashes (buildPartitionId key).toList)

theorem dashes_rdropWhile (text : List Char) :
    (dashes text).rdropWhile (· = '-') = dashes (text.rdropWhile isSeparator) := by
  have hsep : (fun c => decide (c = '-')) ∘ (fun c => if c = '/' then '-' else c) =
      isSeparator := by
    funext c
    by_cases hc : c = '/' <;> simp [isSeparator, hc]
  unfold dashes List.rdropWhile
  rw [← List.map_reverse, List.dropWhile_map, hsep, List.map_reverse]

theorem dashes_dashes (text : List Char) : dashes (dashes text) = dashes text := by
  unfold dashes
  rw [List.map_map]
  refine List.map_congr_left fun c _ => ?_
  by_cases hc : c = '/' <;> simp [hc]

theorem safeId_eq (key : Key) :
    safeId key = spelling ((keyText (legacyKeyToCanonical key)).rdropWhile isSeparator) := by
  unfold safeId buildPartitionId
  rw [dashes_rdropWhile, String.toList_ofList, dashes_dashes]
  rfl

/-- Below `l1/market` the trailing separators end before `market` begins. -/
theorem trimmed_legacy (rest : Key) :
    trimmed ("l1" :: "market" :: rest) =
      ['l', '1', '/'] ++ (keyText ("market" :: rest)).rdropWhile isSeparator := by
  have htext : keyText ("l1" :: "market" :: rest) =
      ['l', '1', '/'] ++ keyText ("market" :: rest) := by
    simp [keyText]
  have hm : 'm' ∈ (keyText ("market" :: rest)).reverse := by
    cases rest <;> simp [keyText]
  have hstop : ((keyText ("market" :: rest)).reverse.dropWhile isSeparator).isEmpty = false := by
    rw [List.isEmpty_eq_false_iff]
    intro hnil
    have := List.dropWhile_eq_nil_iff.mp hnil 'm' hm
    revert this
    decide
  unfold trimmed List.rdropWhile
  rw [htext, List.reverse_append, List.dropWhile_append, hstop]
  simp

/-- **Two legacy keys are spelt alike exactly when one text is hashed for both.** -/
theorem speltAlike_iff {key key' : Key} (h : ["l1", "market"] <+: key)
    (h' : ["l1", "market"] <+: key') : SpeltAlike key key' ↔ safeId key = safeId key' := by
  obtain ⟨rest, rfl⟩ := h
  obtain ⟨rest', rfl⟩ := h'
  rw [SpeltAlike, respelled_iff, safeId_eq, safeId_eq]
  show spelling (trimmed ("l1" :: "market" :: rest)) =
    spelling (trimmed ("l1" :: "market" :: rest')) ↔ _
  rw [trimmed_legacy, trimmed_legacy]
  -- `l1-` stays in front of both
  have hfront : ∀ text, spelling (['l', '1', '/'] ++ text) = ['l', '1', '-'] ++ spelling text := by
    intro text
    unfold spelling dashes
    rfl
  rw [hfront, hfront, List.append_right_inj]
  exact Iff.rfl

/-! ## objects told apart -/

/-- No object of `K` is taken for handled because of another one. -/
structure NeverConfused (C : Type) [Blob C] (digest : Digest16) (cfg : RekeyConfig)
    (K : Set Key) : Prop where
  partitionIds : K.InjOn buildPartitionId
  sentinels : K.InjOn fun key => sentinelPath digest cfg (buildPartitionId key)
  /-- `upsert_pending` registers an object, whichever others are in the manifest. -/
  registers : ∀ key ∈ K, ∀ m : Manifest C,
    (∀ e ∈ m, e.oldKey ∈ K ∧ e.oldKey ≠ key ∧ e.partitionId = buildPartitionId e.oldKey) →
    (m.upsertPending (buildPartitionId key) key (buildNewKey key)).map (·.oldKey) =
      m.map (·.oldKey) ++ [key]
  /-- The sentinel check fails for an object, whichever others have a sentinel. -/
  unmarked : ∀ key ∈ K, ∀ handled : List Key, (∀ key' ∈ handled, key' ∈ K ∧ key' ≠ key) →
    sentinelPath digest cfg (buildPartitionId key) ∉
      handled.map fun key' => sentinelPath digest cfg (buildPartitionId key')

theorem sentinelPath_eq_iff {digest : Digest16} {cfg : RekeyConfig} {key key' : Key} :
    sentinelPath digest cfg (buildPartitionId key) =
        sentinelPath digest cfg (buildPartitionId key') ↔
      digest (safeId key) = digest (safeId key') := by
  unfold sentinelPath safeId
  simp [String.append_left_inj]

/-- **Names that tell all objects apart.** For a set of legacy keys, as one or several runs
discover them, and a hash prefix without collisions on it: partition ids and sentinels
tell all objects of the set apart exactly when no two of its keys are spelt alike. -/
theorem neverConfused_iff (C : Type) [Blob C] (digest : Digest16) (cfg : RekeyConfig)
    {K : Set Key} (hlegacy : ∀ key ∈ K, ["l1", "market"] <+: key)
    (hdigest : Set.InjOn digest (safeId '' K)) :
    NeverConfused C digest cfg K ↔
      ∀ key ∈ K, ∀ key' ∈ K, SpeltAlike key key' → key = key' := by
  constructor
  · intro h key hkey key' hkey' halike
    have hsafe := (speltAlike_iff (hlegacy key hkey) (hlegacy key' hkey')).mp halike
    exact h.sentinels hkey hkey' (sentinelPath_eq_iff.mpr (congrArg digest hsafe))
  · intro h
    have hsentinels : K.InjOn fun key => sentinelPath digest cfg (buildPartitionId key) := by
      intro key hkey key' hkey' heq
      have hsafe := hdigest (Set.mem_image_of_mem _ hkey) (Set.mem_image_of_mem _ hkey')
        (sentinelPath_eq_iff.mp heq)
      exact h key hkey key' hkey'
        ((speltAlike_iff (hlegacy key hkey) (hlegacy key' hkey')).mpr hsafe)
    have hids : K.InjOn buildPartitionId := fun key hkey key' hkey' heq =>
      hsentinels hkey hkey' (congrArg (sentinelPath digest cfg) heq)
    refine ⟨hids, hsentinels, ?_, ?_⟩
    · intro key hkey m hm
      have hnew : ¬ m.any (fun e => e.partitionId = buildPartitionId key) = true := by
        rw [List.any_eq_true]
        rintro ⟨e, he, hid⟩
        obtain ⟨hold, hne, hpid⟩ := hm e he
        exact hne (hids hold hkey (hpid.symm.trans (of_decide_eq_true hid)))
      rw [Manifest.upsertPending, if_neg hnew, List.map_append]
      rfl
    · intro key hkey handled hhandled hmem
      obtain ⟨key', hkey', heq⟩ := List.mem_map.mp hmem
      obtain ⟨hK, hne⟩ := hhandled key' hkey'
      exact hne (hsentinels hK hkey heq)

/-- Two files of one day. -/
theorem neverConfused_two_files :
    NeverConfused String String.ofList { exchange := "u", channel := "t" }
      {["l1", "market", "t", "d", "a"], ["l1", "market", "t", "d", "b"]} := by
  have hlegacy : ∀ key ∈ ({["l1", "market", "t", "d", "a"], ["l1", "market", "t", "d", "b"]} :
      Set Key), ["l1", "market"] <+: key := by
    rintro key (rfl | rfl) <;> decide
  refine (neverConfused_iff String String.ofList _ hlegacy
    (fun _ _ _ _ h => String.ofList_injective h)).mpr ?_
  intro key hkey key' hkey' halike
  have hsafe := (speltAlike_iff (hlegacy key hkey) (hlegacy key' hkey')).mp halike
  revert hsafe
  rcases hkey with rfl | rfl <;> rcases hkey' with rfl | rfl <;> decide

/-- **A slash and a dash.** Two objects with their markers, both candidates: they have one
partition id, the manifest gets an entry for the first only, and with the sentinel of the
first the second counts as migrated without an entry. -/
theorem slash_and_dash_share_a_name :
    let cfg : RekeyConfig := { exchange := "u", channel := "t" }
    let key : Key := ["l1", "market", "t", "tier=L1", "exchange=u", "a", "b"]
    let key' : Key := ["l1", "market", "t", "tier=L1", "exchange=u", "a-b"]
    candidateKeys "u" [key, compactedMarker key, key', compactedMarker key'] = [key, key'] ∧
      key ≠ key' ∧ buildPartitionId key = buildPartitionId key' ∧
      (populate String.ofList cfg [] [key, key'] ([] : Manifest String)).map (·.oldKey) =
        [key] ∧
      (populate String.ofList cfg [sentinelPath String.ofList cfg (buildPartitionId key)] [key']
        ([] : Manifest String)).map (·.oldKey) = [] := by
  decide +kernel

end MctraderData.Migration
