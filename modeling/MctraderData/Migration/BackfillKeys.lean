import MctraderData.Migration.BackfillSafety
import MctraderData.Tier.ReadBack

/-!
# mctrader-data — the object keys of the backfill

The backfill gives each file of a closed day a key of its own making: the root it is
configured with, five labels of the path and the file name. Everything else of the path,
the schema version first, is dropped, and a label that is missing is filled in. The
reader of the cold tiers takes the partition path as it is, and puts `node=DEFAULT` behind
the `date=` component of a path without a node, where the backfill puts it behind the hour.

## Results

* `objectKey_injective_iff` — the source trees whose files all get a key of their own.
* `buildNasObjectKey_eq_iff` — the paths without a node for which the reader's key is the
  one the backfill uploads to.
-/

namespace MctraderData.Backfill

open Nas
open Harness (basename)
open Tier (ReaderConfig buildNasObjectKey injectNodeDefault isLegacyNode)

variable {C : Type} [Blob C]

/-! ## what a key tells of a file -/

/-- The value of a label, where the given texts count like a label that is missing. -/
def labelValue (path : Path) (label : String) (missing : List String) : Option String :=
  (extractHiveValue path label).filter fun v => decide (v ∉ missing)

/-- Two files agree in all the key is made of: exchange (none, empty and `UNKNOWN` are one),
symbol, date, hour, node (none and `DEFAULT` are one) and file name. -/
structure SameSlot (path path' : Path) : Prop where
  exchange : labelValue path "exchange" ["", "UNKNOWN"] =
    labelValue path' "exchange" ["", "UNKNOWN"]
  symbol : labelValue path "symbol" ["UNKNOWN"] = labelValue path' "symbol" ["UNKNOWN"]
  date : labelValue path "date" ["unknown"] = labelValue path' "date" ["unknown"]
  hour : extractHiveValue path "hour" = extractHiveValue path' "hour"
  node : labelValue path "node" ["DEFAULT"] = labelValue path' "node" ["DEFAULT"]
  name : basename path = basename path'

variable {path : Path}

theorem labelValue_getD_inj {path' : Path} {label fallback : String} {missing : List String}
    (hmissing : fallback ∈ missing) :
    (labelValue path label missing).getD fallback = (labelValue path' label missing).getD fallback ↔
      labelValue path label missing = labelValue path' label missing := by
  -- a value that is there is none of the texts for a missing one
  have hne : ∀ {path v}, labelValue path label missing = some v → v ≠ fallback := by
    rintro path v hv rfl
    have hkept := (Option.filter_eq_some_iff.mp hv).2
    exact of_decide_eq_true hkept hmissing
  constructor
  · intro h
    cases hv : labelValue path label missing with
    | none =>
      cases hv' : labelValue path' label missing with
      | none => rfl
      | some v' =>
        rw [hv, hv'] at h
        exact absurd h.symm (hne hv')
    | some v =>
      cases hv' : labelValue path' label missing with
      | none =>
        rw [hv, hv'] at h
        exact absurd h (hne hv)
      | some v' =>
        rw [hv, hv'] at h
        exact congrArg some h
  · intro h
    rw [h]

theorem extractHiveValue_getD (path : Path) (label fallback : String) :
    (extractHiveValue path label).getD fallback =
      (labelValue path label [fallback]).getD fallback := by
  unfold labelValue
  cases extractHiveValue path label with
  | none => rfl
  | some v => by_cases hv : v = fallback <;> simp [Option.filter, hv]

/-- `exchange or 'UNKNOWN'` -/
def exchangeOf (path : Path) : String :=
  match extractHiveValue path "exchange" with
  | some "" | none => "UNKNOWN"
  | some exchange => exchange

theorem exchangeOf_eq (path : Path) :
    exchangeOf path = (labelValue path "exchange" ["", "UNKNOWN"]).getD "UNKNOWN" := by
  unfold exchangeOf labelValue
  split
  · rename_i hv
    rw [hv]
    rfl
  · rename_i hv
    rw [hv]
    rfl
  · rename_i v hne hv
    rw [hv]
    by_cases hunknown : v = "UNKNOWN"
    · rw [hunknown]
      rfl
    · rw [Option.filter_some_pos (by simpa using ⟨hne, hunknown⟩)]
      rfl

theorem exchangeOf_of_some {exchange : String}
    (h : extractHiveValue path "exchange" = some exchange) (hne : exchange ≠ "") :
    exchangeOf path = exchange := by
  unfold exchangeOf
  split
  · rename_i hv
    exact absurd (Option.some.inj (h.symm.trans hv)) hne
  · rename_i hv
    rw [h] at hv
    cases hv
  · rename_i v _ hv
    exact (Option.some.inj (h.symm.trans hv)).symm

/-- `/hour=HH`, where the path has an hour -/
def hourSegment (path : Path) : Key :=
  match extractHiveValue path "hour" with
  | some hour => ["hour=" ++ hour]
  | none => []

/-- The part of the key below the root. -/
def slotKey (path : Path) : Key :=
  ["exchange=" ++ (labelValue path "exchange" ["", "UNKNOWN"]).getD "UNKNOWN",
    "symbol=" ++ (labelValue path "symbol" ["UNKNOWN"]).getD "UNKNOWN",
    "date=" ++ (labelValue path "date" ["unknown"]).getD "unknown"] ++
    (hourSegment path ++
      ["node=" ++ (labelValue path "node" ["DEFAULT"]).getD "DEFAULT", basename path])

theorem objectKey_eq (o : Orchestrator C) (path : Path) :
    o.objectKey path = o.nasPartitionRoot ++ slotKey path := by
  have hpartition : o.nasPartition path = o.nasPartitionRoot ++ ["exchange=" ++ exchangeOf path,
      "symbol=" ++ (extractHiveValue path "symbol").getD "UNKNOWN",
      "date=" ++ (extractHiveValue path "date").getD "unknown"] ++ hourSegment path ++
      ["node=" ++ (extractHiveValue path "node").getD "DEFAULT"] := rfl
  rw [Orchestrator.objectKey, hpartition, exchangeOf_eq]
  simp only [extractHiveValue_getD, slotKey, List.append_assoc, List.singleton_append]

theorem hourSegment_inj {path' : Path} {tail tail' : Key}
    (h : hourSegment path ++ tail = hourSegment path' ++ tail')
    (hlen : tail.length = tail'.length) :
    extractHiveValue path "hour" = extractHiveValue path' "hour" ∧ tail = tail' := by
  obtain ⟨hhour, htail⟩ := List.append_inj' h hlen
  refine ⟨?_, htail⟩
  unfold hourSegment at hhour
  cases hv : extractHiveValue path "hour" <;> cases hv' : extractHiveValue path' "hour" <;>
    simp_all [String.append_right_inj]

/-- **A key tells exactly the slot of a file.** -/
theorem objectKey_eq_iff (o : Orchestrator C) (path path' : Path) :
    o.objectKey path = o.objectKey path' ↔ SameSlot path path' := by
  rw [objectKey_eq, objectKey_eq, List.append_right_inj]
  constructor
  · intro h
    obtain ⟨hlabels, htail⟩ := List.append_inj h rfl
    obtain ⟨hhour, hnode⟩ := hourSegment_inj htail rfl
    simp only [List.cons.injEq, String.append_right_inj, and_true] at hlabels hnode
    obtain ⟨hexchange, hsymbol, hdate⟩ := hlabels
    exact ⟨(labelValue_getD_inj (by decide)).mp hexchange,
      (labelValue_getD_inj (by decide)).mp hsymbol, (labelValue_getD_inj (by decide)).mp hdate,
      hhour, (labelValue_getD_inj (by decide)).mp hnode.1, hnode.2⟩
  · rintro ⟨hexchange, hsymbol, hdate, hhour, hnode, hname⟩
    have hsegment : hourSegment path = hourSegment path' := by
      unfold hourSegment
      rw [hhour]
    unfold slotKey
    rw [hexchange, hsymbol, hdate, hsegment, hnode, hname]

/-- **When all files get a key of their own.** For every source tree and every day: no two
of the discovered files share an object key exactly when no two of them share a slot. -/
theorem objectKey_injective_iff (o : Orchestrator C) (today : Int) (w : World C) :
    (∀ path ∈ o.discoverPartitions today w, ∀ path' ∈ o.discoverPartitions today w,
        path ≠ path' → o.objectKey path ≠ o.objectKey path') ↔
      ∀ path ∈ o.discoverPartitions today w, ∀ path' ∈ o.discoverPartitions today w,
        path ≠ path' → ¬ SameSlot path path' := by
  simp only [Ne, objectKey_eq_iff]

/-- A backfill with the default root of the command line. -/
def coldBackfill : Orchestrator String :=
  .ofHarness Harness.tickHarness "transaction" "L2" ["tier=L2"] (fun _ _ path => basename path)
    fun _ => some 0

/-- **Two schema versions of one file share a key**, and so do a file without a node and
the one of node `DEFAULT`. -/
theorem schema_versions_share_a_key :
    let day : Path := ["exchange=u", "symbol=b", "date=d"]
    let first := ["market", "transaction", "schema_version=1", "tier=L2"] ++ day ++ ["a.parquet"]
    let second := ["market", "transaction", "schema_version=2", "tier=L2"] ++ day ++ ["a.parquet"]
    let third := ["market", "transaction", "schema_version=1", "tier=L2"] ++ day ++
      ["node=DEFAULT", "a.parquet"]
    let tree : World String :=
      { files := List.toAList [⟨first, "x"⟩, ⟨second, "y"⟩, ⟨third, "z"⟩]
        dirs := []
        nas := ∅
        retryQueue := none
        replies := .const (.ok "" none)
        unlinkFaults := .const false }
    first ∈ coldBackfill.discoverPartitions 1 tree ∧
      second ∈ coldBackfill.discoverPartitions 1 tree ∧
      third ∈ coldBackfill.discoverPartitions 1 tree ∧ first ≠ second ∧ first ≠ third ∧
      coldBackfill.objectKey first = coldBackfill.objectKey second ∧
      coldBackfill.objectKey first = coldBackfill.objectKey third := by
  decide +kernel

/-! ## the key of the reader -/

section

variable {α : Type} {hit : α → Prop} {before before' after after' : List α} {a a' : α}

/-- The first hit of a list splits it in one way only. -/
theorem first_hit_unique (h : before ++ a :: after = before' ++ a' :: after')
    (hbefore : ∀ x ∈ before, ¬ hit x) (ha : hit a) (hbefore' : ∀ x ∈ before', ¬ hit x)
    (ha' : hit a') : before = before' ∧ a = a' ∧ after = after' := by
  induction before generalizing before' with
  | nil =>
    cases before' with
    | nil => exact ⟨rfl, List.cons.inj h⟩
    | cons x rest' =>
      obtain ⟨rfl, -⟩ := List.cons.inj h
      exact absurd ha (hbefore' a List.mem_cons_self)
  | cons x rest ih =>
    cases before' with
    | nil =>
      obtain ⟨rfl, -⟩ := List.cons.inj h
      exact absurd ha' (hbefore x List.mem_cons_self)
    | cons x' rest' =>
      obtain ⟨rfl, htail⟩ := List.cons.inj h
      obtain ⟨rfl, rfl, rfl⟩ := ih htail (fun y hy => hbefore y (List.mem_cons_of_mem _ hy))
        fun y hy => hbefore' y (List.mem_cons_of_mem _ hy)
      exact ⟨rfl, rfl, rfl⟩

/-- A list without hits, or its first hit. -/
theorem first_hit (hit : α → Prop) [DecidablePred hit] (l : List α) :
    (∀ x ∈ l, ¬ hit x) ∨
      ∃ before a after, l = before ++ a :: after ∧ (∀ x ∈ before, ¬ hit x) ∧ hit a := by
  cases hfind : l.find? (decide <| hit ·) with
  | none => exact Or.inl fun x hx => by simpa using List.find?_eq_none.mp hfind x hx
  | some a =>
    obtain ⟨ha, before, after, rfl, hbefore⟩ := List.find?_eq_some_iff_append.mp hfind
    exact Or.inr ⟨before, a, after, rfl, fun x hx => by simpa using hbefore x hx,
      of_decide_eq_true ha⟩

theorem insertIdx_behind (before : List α) (a b : α) (after : List α) :
    (before ++ a :: after).insertIdx (before.length + 1) b = before ++ a :: b :: after := by
  induction before with
  | nil => rfl
  | cons x rest ih =>
    rw [List.cons_append, List.length_cons, List.insertIdx_succ_cons, ih]
    rfl

end

/-- A `date=` component. -/
def IsDate (part : String) : Prop := (hiveValue "date" part).isSome

instance : DecidablePred IsDate := fun part =>
  inferInstanceAs (Decidable ((hiveValue "date" part).isSome = true))

/-- The reader puts the node behind the first date. -/
theorem injectNodeDefault_of_date {before after : Path} {date : String}
    (hbefore : ∀ part ∈ before, ¬ IsDate part) (hdate : IsDate date) :
    injectNodeDefault (before ++ date :: after) = before ++ date :: "node=DEFAULT" :: after := by
  have hidx : (before ++ date :: after).findIdx? (fun part => (hiveValue "date" part).isSome) =
      some before.length := by
    have hnone : before.findIdx? (fun part => (hiveValue "date" part).isSome) = none :=
      List.findIdx?_eq_none_iff.mpr fun part hpart => eq_false_of_ne_true (hbefore part hpart)
    have hsome : (hiveValue "date" date).isSome = true := hdate
    rw [List.findIdx?_append, hnone, List.findIdx?_cons, if_pos hsome]
    simp
  unfold injectNodeDefault
  rw [hidx]
  exact insertIdx_behind before date "node=DEFAULT" after

theorem not_isDate_injectNodeDefault (h : ∀ part ∈ path, ¬ IsDate part) :
    ∀ part ∈ injectNodeDefault path, ¬ IsDate part := by
  obtain ⟨i, hi, heq⟩ := Tier.injectNodeDefault_eq path
  rw [heq]
  intro part hpart
  rcases (List.mem_insertIdx hi).mp hpart with rfl | hpart
  · decide
  · exact h part hpart

/-- The file of the local tree whose path below the tier is `rest`. -/
def Orchestrator.localFile (o : Orchestrator C) (version : String) (rest : Path) : Path :=
  ["market", o.channel, "schema_version=" ++ version, "tier=" ++ o.tier] ++ rest

/-- A plain channel name leaves the labels below the tier in force. -/
theorem sameSlot_localFile (o : Orchestrator C) (version : String) {rest : Path}
    (hne : rest ≠ [])
    (hchannel : ∀ label ∈ ["exchange", "symbol", "date", "hour", "node"],
      hiveValue label o.channel = none) :
    SameSlot (o.localFile version rest) rest := by
  have hextract : ∀ label ∈ ["exchange", "symbol", "date", "hour", "node"],
      extractHiveValue (o.localFile version rest) label = extractHiveValue rest label := by
    intro label hlabel
    have habove : hiveValue label "market" = none ∧
        hiveValue label ("schema_version=" ++ version) = none ∧
        hiveValue label ("tier=" ++ o.tier) = none := by
      simp only [List.mem_cons, List.not_mem_nil, or_false] at hlabel
      rcases hlabel with rfl | rfl | rfl | rfl | rfl <;> simp [hiveValue]
    simp [extractHiveValue, Orchestrator.localFile, hchannel label hlabel, habove]
  have hlabels : ∀ label ∈ ["exchange", "symbol", "date", "hour", "node"], ∀ missing,
      labelValue (o.localFile version rest) label missing = labelValue rest label missing := by
    intro label hlabel missing
    rw [labelValue, hextract label hlabel, labelValue]
  refine ⟨hlabels _ (by simp) _, hlabels _ (by simp) _, hlabels _ (by simp) _,
    hextract _ (by simp), hlabels _ (by simp) _, ?_⟩
  rw [basename, basename, List.getLastD_eq_getLast?, List.getLastD_eq_getLast?,
    Orchestrator.localFile, List.getLast?_append_of_ne_nil _ hne]

/-- A file right below its day, with an exchange and without an hour. -/
def FlatDay (rest : Path) : Prop :=
  ∃ exchange symbol date name, rest =
      ["exchange=" ++ exchange, "symbol=" ++ symbol, "date=" ++ date, name] ∧
    exchange ≠ "" ∧ hiveValue "hour" name = none

/-- The slot of a flat day is spelt out by its path. -/
theorem slotKey_flatDay {rest : Path} {exchange symbol date name : String}
    (hrest : rest = ["exchange=" ++ exchange, "symbol=" ++ symbol, "date=" ++ date, name])
    (hexchange : exchange ≠ "") (hhour : hiveValue "hour" name = none)
    (hnode : hiveValue "node" name = none) :
    slotKey rest =
      ["exchange=" ++ exchange, "symbol=" ++ symbol, "date=" ++ date, "node=DEFAULT", name] := by
  have hvalues : extractHiveValue rest "exchange" = some exchange ∧
      extractHiveValue rest "symbol" = some symbol ∧ extractHiveValue rest "date" = some date := by
    rw [hrest]
    simp [extractHiveValue, hiveValue]
  have hmissing : extractHiveValue rest "hour" = none ∧ extractHiveValue rest "node" = none := by
    rw [hrest]
    simp only [extractHiveValue, List.findSome?_cons, hhour, hnode]
    simp [hiveValue]
  have hname : basename rest = name := by rw [hrest]; rfl
  obtain ⟨hexch, hsymb, hdate⟩ := hvalues
  unfold slotKey hourSegment
  rw [← exchangeOf_eq, ← extractHiveValue_getD, ← extractHiveValue_getD, ← extractHiveValue_getD,
    hsymb, hdate, hmissing.1, hmissing.2, exchangeOf_of_some hexch hexchange, hname]
  rfl

theorem labelValue_getD_ne_empty (path : Path) :
    (labelValue path "exchange" ["", "UNKNOWN"]).getD "UNKNOWN" ≠ "" := by
  cases hv : labelValue path "exchange" ["", "UNKNOWN"] with
  | none => decide
  | some v =>
    have hkept := of_decide_eq_true (Option.filter_eq_some_iff.mp hv).2
    exact fun hempty => hkept (hempty ▸ List.mem_cons_self)

theorem slotKey_shape (path : Path) : ∃ exchange symbol date node, exchange ≠ "" ∧
    slotKey path = ["exchange=" ++ exchange, "symbol=" ++ symbol, "date=" ++ date] ++
      (hourSegment path ++ ["node=" ++ node, basename path]) :=
  ⟨_, _, _, _, labelValue_getD_ne_empty path, rfl⟩

theorem isDate_date (v : String) : IsDate ("date=" ++ v) :=
  Option.isSome_of_eq_some (Tier.hiveValue_self "date" v)

theorem not_isDate_above {root : Path} (exchange symbol : String)
    (hroot : ∀ part ∈ root, ¬ IsDate part) :
    ∀ part ∈ root ++ ["exchange=" ++ exchange, "symbol=" ++ symbol], ¬ IsDate part := by
  intro part hpart
  simp only [List.mem_append, List.mem_cons, List.not_mem_nil, or_false] at hpart
  rcases hpart with hpart | rfl | rfl
  · exact hroot part hpart
  · simp [IsDate, hiveValue]
  · simp [IsDate, hiveValue]

/-- Reader and backfill agree only on a flat day below a root without a date. -/
theorem flatDay_of_injectNodeDefault_eq {root rest : Path}
    (hnode : ∀ part ∈ root ++ rest, hiveValue "node" part = none)
    (hsub : ∀ part ∈ rest, part ∈ path)
    (h : injectNodeDefault (root ++ rest) = root ++ slotKey path) :
    (∀ part ∈ root, ¬ IsDate part) ∧ FlatDay rest ∧ slotKey path = slotKey rest := by
  obtain ⟨exchange, symbol, date, node, hexchange, hslot⟩ := slotKey_shape path
  rcases first_hit IsDate (root ++ rest) with hno | ⟨before, d, after, hsplit, hbefore, hd⟩
  · -- no date anywhere, but the backfill writes one
    have hmem : "date=" ++ date ∈ injectNodeDefault (root ++ rest) := by
      rw [h, hslot]
      simp
    exact absurd (isDate_date date) (not_isDate_injectNodeDefault hno _ hmem)
  rw [hsplit, injectNodeDefault_of_date hbefore hd] at h
  rcases first_hit IsDate root with hroot | ⟨r₁, d₀, r₂, hr, hr₁, hd₀⟩
  · -- the first date on both sides is that of the day
    have hfirst := not_isDate_above exchange symbol hroot
    have h' : before ++ d :: "node=DEFAULT" :: after =
        (root ++ ["exchange=" ++ exchange, "symbol=" ++ symbol]) ++ ("date=" ++ date) ::
          (hourSegment path ++ ["node=" ++ node, basename path]) := by
      rw [h, hslot]
      simp
    obtain ⟨rfl, rfl, htail⟩ := first_hit_unique h' hbefore hd hfirst (isDate_date date)
    have hrest : rest =
        ["exchange=" ++ exchange, "symbol=" ++ symbol, "date=" ++ date] ++ after := by
      rw [List.append_assoc, List.append_right_inj] at hsplit
      exact hsplit
    -- behind the day the reader has the node, so the backfill has no hour
    unfold hourSegment at htail
    cases hhour : extractHiveValue path "hour" with
    | some hour =>
      rw [hhour] at htail
      have hhead := congrArg (hiveValue "node") (List.cons.inj htail).1
      simp [hiveValue] at hhead
    | none =>
      rw [hhour] at htail
      obtain ⟨hdefault, hafter⟩ := List.cons.inj htail
      rw [hafter] at hrest
      have hname : ∀ part ∈ rest, hiveValue "hour" part = none := fun part hpart =>
        List.findSome?_eq_none_iff.mp hhour part (hsub part hpart)
      have hflat : hiveValue "hour" (basename path) = none := hname _ (by rw [hrest]; simp)
      refine ⟨hroot, ⟨exchange, symbol, date, basename path, hrest, hexchange, hflat⟩, ?_⟩
      rw [slotKey_flatDay hrest hexchange hflat (hnode _ (by rw [hrest]; simp)), hslot,
        hourSegment, hhour, ← hdefault]
      rfl
  · -- the reader puts the node into the root
    have h' : before ++ d :: "node=DEFAULT" :: after = r₁ ++ d₀ :: (r₂ ++ slotKey path) := by
      rw [h, hr]
      simp
    obtain ⟨-, -, htail⟩ := first_hit_unique h' hbefore hd hr₁ hd₀
    cases r₂ with
    | nil =>
      have hhead := congrArg (hiveValue "node") (List.cons.inj htail).1
      simp [hiveValue] at hhead
    | cons x r₂ =>
      have hx : hiveValue "node" x = none := hnode x (by rw [hr]; simp)
      rw [← (List.cons.inj htail).1] at hx
      exact absurd hx (by decide)

/-- **Where reader and backfill agree.** For every partition path without a `node=`
component below any root: the key the reader builds is the one the backfill uploads the
file to exactly when the reader normalises, the path has `node=` nowhere in its text, the
root has no date, the file lies right below its day, and the labels of the local path are
those below the tier. -/
theorem buildNasObjectKey_eq_iff (cfg : ReaderConfig C) (o : Orchestrator C) (version : String)
    (rest : Path) (hnode : ∀ part ∈ o.nasPartitionRoot ++ rest, hiveValue "node" part = none) :
    buildNasObjectKey cfg (o.nasPartitionRoot ++ rest) = o.objectKey (o.localFile version rest) ↔
      cfg.partitionNormalization = true ∧ isLegacyNode (o.nasPartitionRoot ++ rest) = true ∧
        (∀ part ∈ o.nasPartitionRoot, ¬ IsDate part) ∧ FlatDay rest ∧
        SameSlot (o.localFile version rest) rest := by
  have hsub : ∀ part ∈ rest, part ∈ o.localFile version rest :=
    fun part hpart => List.mem_append_right _ hpart
  rw [objectKey_eq]
  unfold buildNasObjectKey
  constructor
  · intro h
    by_cases hinject : (isLegacyNode (o.nasPartitionRoot ++ rest) &&
        cfg.partitionNormalization) = true
    · rw [if_pos hinject] at h
      obtain ⟨hroot, hflat, hslot⟩ := flatDay_of_injectNodeDefault_eq hnode hsub h
      obtain ⟨hlegacy, hnormal⟩ := Bool.and_eq_true_iff.mp hinject
      refine ⟨hnormal, hlegacy, hroot, hflat, (objectKey_eq_iff o _ _).mp ?_⟩
      rw [objectKey_eq, objectKey_eq, hslot]
    · -- the reader leaves the path as it is, but the backfill writes a node
      rw [if_neg hinject] at h
      obtain ⟨exchange, symbol, date, node, -, hslot⟩ := slotKey_shape (o.localFile version rest)
      have hmem : "node=" ++ node ∈ o.nasPartitionRoot ++ rest := by
        rw [h, hslot]
        simp
      have hnone := hnode _ hmem
      rw [show hiveValue "node" ("node=" ++ node) = some node from Tier.hiveValue_self _ _] at hnone
      cases hnone
  · rintro ⟨hnormal, hlegacy, hroot, ⟨exchange, symbol, date, name, hrest, hexchange, hhour⟩,
      hslot⟩
    have hname : hiveValue "node" name = none := hnode name (by rw [hrest]; simp)
    have hbefore := not_isDate_above exchange symbol hroot
    have hkey := (objectKey_eq_iff o _ _).mpr hslot
    rw [← objectKey_eq, hkey, objectKey_eq, if_pos (by rw [hlegacy, hnormal]; rfl),
      slotKey_flatDay hrest hexchange hhour hname, hrest]
    have hinsert : injectNodeDefault ((o.nasPartitionRoot ++
        ["exchange=" ++ exchange, "symbol=" ++ symbol]) ++ ("date=" ++ date) :: [name]) = _ :=
      injectNodeDefault_of_date hbefore (isDate_date date)
    simpa using hinsert

/-- A reader with the default arguments. -/
def coldReader : ReaderConfig String where
  cutoff := 0
  datetime := fun _ _ _ => none
  noBytes := ""

/-- A file right below its day. -/
theorem buildNasObjectKey_eq_flat :
    buildNasObjectKey coldReader ["tier=L2", "exchange=u", "symbol=b", "date=d", "a.parquet"] =
      coldBackfill.objectKey (coldBackfill.localFile "1"
        ["exchange=u", "symbol=b", "date=d", "a.parquet"]) := by
  refine (buildNasObjectKey_eq_iff coldReader coldBackfill "1"
    ["exchange=u", "symbol=b", "date=d", "a.parquet"] (by decide)).mpr ?_
  refine ⟨rfl, by decide, by decide, ⟨"u", "b", "d", "a.parquet", rfl, by decide, by decide⟩, ?_⟩
  exact sameSlot_localFile coldBackfill "1" (by simp) (by decide)

/-- **With an hour the two keys differ**: the reader puts the node above the hour, the
backfill below it. The file is one that the backfill discovers. -/
theorem node_above_and_below_the_hour :
    let rest : Path := ["exchange=u", "symbol=b", "date=d", "hour=03", "a.parquet"]
    coldBackfill.isClosedDay 1 (coldBackfill.localFile "1" rest) = true ∧
      isLegacyNode ("tier=L2" :: rest) = true ∧
      buildNasObjectKey coldReader ("tier=L2" :: rest) =
        ["tier=L2", "exchange=u", "symbol=b", "date=d", "node=DEFAULT", "hour=03", "a.parquet"] ∧
      coldBackfill.objectKey (coldBackfill.localFile "1" rest) =
        ["tier=L2", "exchange=u", "symbol=b", "date=d", "hour=03", "node=DEFAULT", "a.parquet"] ∧
      buildNasObjectKey coldReader ("tier=L2" :: rest) ≠
        coldBackfill.objectKey (coldBackfill.localFile "1" rest) := by
  decide +kernel

end MctraderData.Backfill
