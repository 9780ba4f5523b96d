import MctraderData.Migration.Harness

/-!
# mctrader-data — what the harness's verdict is worth

Two questions about `verify`: does it accept every good partition, and is every partition
it accepts good?

It accepts none of the good ones that have files. The ambiguity check fails as soon as
there are local files and any object under the prefix, which is just what a replicated
partition looks like.

What it does accept may be anything. Only files with a counterpart of the same name are
compared, so that a wrong set of names passes if its size is right, and the one check that
would notice treats an error as an empty listing.

## Results

* `verify_readOnly` — whatever happens, `verify` changes neither disk nor bucket.
* `backfilled_never_allPass` — a replicated partition is reported as ambiguous.
* `verify_sound_iff` — when an `all_pass` implies replication, on one bucket and on all.
-/

namespace MctraderData.Harness

open Lib Eff
open Nas
open Compactor (hasSuffix)
open InvariantHarness

variable {C : Type} [Blob C] {α β : Type}

/-! ## names and texts -/

theorem keyText_prefix_append (key rest : Key) : keyText key <+: keyText (key ++ rest) := by
  by_cases hkey : key = []
  · rw [hkey]
    exact List.nil_prefix
  by_cases hrest : rest = []
  · rw [hrest, List.append_nil]
  · rw [keyText_append hkey hrest]
    exact List.prefix_append _ _

variable {pfx : Key}

/-- What lies directly under a partition is found by the probe. -/
theorem probe_finds (hne : pfx ≠ []) (x : String) : probePrefix pfx <+: keyText (pfx ++ [x]) := by
  rw [keyText_append hne (List.cons_ne_nil x [])]
  unfold probePrefix
  split
  · exact List.prefix_append _ _
  · exact ⟨keyText [x], by simp⟩

theorem hasVersion_nil (versions : List String) : hasVersion versions [] = false := by
  show versions.any (fun v => decide (versionLabel ++ v.toList <:+: [])) = false
  rw [List.any_eq_false]
  intro v _ hv
  have hnil : versionLabel = [] :=
    (List.append_eq_nil_iff.mp (List.infix_nil.mp (of_decide_eq_true hv))).1
  exact absurd hnil (by decide)

@[simp] theorem Verdict.ofBool_eq_pass {b : Bool} : Verdict.ofBool b = .pass ↔ b = true := by
  cases b <;> simp [Verdict.ofBool]

theorem Verdict.ne_fail {v : Verdict} : v ≠ .fail ↔ v = .pass := by
  cases v <;> simp

omit [Blob C] in
/-- The empty prefix carries no schema version. -/
theorem nasPartition_ne_nil {h : InvariantHarness C} {dir : Path}
    (hv : (h.checkSchemaVersion dir pfx).status = .pass) : pfx ≠ [] := by
  rintro rfl
  rw [checkSchemaVersion, Verdict.ofBool_eq_pass, Bool.and_eq_true] at hv
  exact absurd hv.2 (by simp [keyText, hasVersion_nil])

@[simp] theorem normalizeNasPartition_eq (pfx : Key) : normalizeNasPartition pfx = pfx :=
  ite_self pfx

omit [Blob C] in
theorem partition_eq_self (h : InvariantHarness C) (pfx : Key) :
    (if h.partitionNormalization then normalizeNasPartition pfx else pfx) = pfx := by
  rw [normalizeNasPartition_eq, ite_self]

theorem basename_append (dir : List String) (x : String) : basename (dir ++ [x]) = x := by
  simp [basename]

variable {w : World C}

theorem mem_globParquet {dir path : Path} :
    path ∈ globParquet w dir ↔
      path ∈ w.files ∧ path.dropLast = dir ∧ hasSuffix ".parquet" (basename path) = true := by
  rw [globParquet, mem_sortKeys, List.mem_filter, Bool.and_eq_true, decide_eq_true_eq,
    AList.mem_keys]

theorem globParquet_nodup (w : World C) (dir : Path) : (globParquet w dir).Nodup :=
  (sortKeys_perm _).nodup_iff.mpr (w.files.nodupKeys.filter _)

/-- A file of a directory is the directory and its name. -/
theorem eq_append_basename {dir path : Path} (h : path ∈ globParquet w dir) :
    path = dir ++ [basename path] := by
  obtain ⟨-, hdir, hsuffix⟩ := mem_globParquet.mp h
  have hne : path ≠ [] := by
    rintro rfl
    exact absurd hsuffix (by decide)
  rw [← hdir, basename, List.getLastD_eq_getLast?, List.getLast?_eq_some_getLast hne,
    Option.getD_some, List.dropLast_append_getLast hne]

variable {name : String}

theorem named_eq_some {files : List (List String)} {f : List String}
    (h : named files name = some f) : f ∈ files ∧ basename f = name := by
  have hmem := List.mem_of_getLast? h
  rw [List.mem_filter, beq_iff_eq] at hmem
  exact hmem

variable {nasObjects : List Key} {localFiles : List Path}

theorem mem_commonBasenames :
    name ∈ commonBasenames localFiles nasObjects ↔
      name ∈ localFiles.map basename ∧ name ∈ nasObjects.map basename := by
  rw [commonBasenames, List.mem_insertionSort, List.mem_filter, List.mem_dedup,
    decide_eq_true_eq]

/-! ## the verdict -/

/-- The seven checks other than ambiguity have passed. -/
structure PerResults.Clean (r : PerResults) : Prop where
  objectCount : r.objectCount.status = .pass
  sha256 : r.sha256.status = .pass
  rowCount : r.rowCount.status = .pass
  columnCount : r.columnCount.status = .pass
  columnOrder : r.columnOrder.status = .pass
  dtype : r.dtype.status = .pass
  schemaVersion : r.schemaVersion.status = .pass

theorem PerResults.status_of_clean {r : PerResults} (hclean : r.Clean) :
    r.status = if r.ambiguity.status = .fail then .ambiguityFail else .allPass := by
  simp only [PerResults.status, hclean.objectCount, hclean.sha256, hclean.rowCount,
    hclean.columnCount, hclean.columnOrder, hclean.dtype, hclean.schemaVersion, reduceCtorEq,
    if_false]

theorem PerResults.of_allPass {r : PerResults} (h : r.status = .allPass) :
    r.Clean ∧ r.ambiguity.status = .pass := by
  unfold PerResults.status at h
  split_ifs at h with h₁ h₂ h₃ h₄ h₅ h₆ h₇ h₈
  have hpass : ∀ {v : Verdict}, ¬ v = .fail → v = .pass := Verdict.ne_fail.mp
  exact ⟨⟨hpass h₁, hpass h₂, hpass h₃, hpass h₄, hpass h₅, hpass h₆, hpass h₇⟩, hpass h₈⟩

section

variable (h : InvariantHarness C) {dir : Path} {pfx : Key} {localFiles : List Path}
  {nasObjects : List Key} {ambiguity : PerInvariantResult}

theorem objectCount_pass :
    (checkObjectCount localFiles nasObjects).status = .pass ↔
      localFiles.length = nasObjects.length := by
  rw [checkObjectCount, Verdict.ofBool_eq_pass, decide_eq_true_eq]

omit [Blob C] in
/-- Without mismatches the per-file checks pass. -/
theorem perResults_clean (hcount : localFiles.length = nasObjects.length)
    (hversion : (h.checkSchemaVersion dir pfx).status = .pass) :
    (h.perResults dir pfx localFiles nasObjects {} ambiguity).Clean where
  objectCount := objectCount_pass.mpr hcount
  sha256 := rfl
  rowCount := rfl
  columnCount := rfl
  columnOrder := rfl
  dtype := rfl
  schemaVersion := hversion

omit [Blob C] in
theorem mismatches_of_clean {m : Mismatches}
    (hclean : (h.perResults dir pfx localFiles nasObjects m ambiguity).Clean) : m = {} := by
  have hnil : ∀ {l : List String}, Verdict.ofBool l.isEmpty = .pass → l = [] := fun hpass =>
    List.isEmpty_iff.mp (Verdict.ofBool_eq_pass.mp hpass)
  obtain ⟨sha256, rowCount, columnCount, columnOrder, dtype⟩ := m
  obtain rfl : sha256 = [] := hnil hclean.sha256
  obtain rfl : rowCount = [] := hnil hclean.rowCount
  obtain rfl : columnCount = [] := hnil hclean.columnCount
  obtain rfl : columnOrder = [] := hnil hclean.columnOrder
  obtain rfl : dtype = [] := hnil hclean.dtype
  rfl

end

/-! ## read only -/

instance : Std.Refl (SameButReplies (C := C)) := ⟨SameButReplies.refl⟩

instance : IsTrans (World C) SameButReplies := ⟨fun _ _ _ h h' => h.trans h'⟩

/-- A computation that at most consumes replies. -/
abbrev ReadOnly (m : Prog C α) : Prop := Eff.Keeps SameButReplies m

theorem readOnly_request {answer : Prog C α} (hanswer : ReadOnly answer) :
    ReadOnly (request answer) := by
  refine Eff.Keeps.bind (fun w => SameButReplies.next w) ?_
  intro reply
  cases reply with
  | ok etag versionId => exact hanswer
  | _ => exact keeps_throw _

variable {m : Prog C α}

theorem readOnly_orNone (hm : ReadOnly m) : ReadOnly (orNone m) :=
  (hm.bind fun _ => keeps_pure _).tryCatch fun _ => keeps_pure _

theorem readOnly_clientListText (text : List Char) :
    ReadOnly (clientListText text : Prog C (List Key)) :=
  readOnly_request (keeps_get.bind fun _ => keeps_pure _)

theorem readOnly_gatherObjects (pfx : Key) (nasObjects : Option (List Key)) :
    ReadOnly (gatherObjects pfx nasObjects : Prog C (List Key)) := by
  cases nasObjects with
  | some keys => exact keeps_pure _
  | none => exact readOnly_clientListText _

theorem readOnly_clientGetObject (key : Key) : ReadOnly (clientGetObject key : Prog C C) := by
  refine readOnly_request (keeps_get.bind fun w => ?_)
  cases w.nas.lookup key with
  | some o => exact keeps_pure _
  | none => exact keeps_throw _

theorem readOnly_readFile (path : Path) : ReadOnly (readFile path : Prog C C) := by
  refine keeps_get.bind fun w => ?_
  cases w.files.lookup path with
  | some c => exact keeps_pure _
  | none => exact keeps_throw _

section

variable (h : InvariantHarness C)

theorem readOnly_compareFile (name : String) (localFile : Path) (nasKey : Key) :
    ReadOnly (h.compareFile name localFile nasKey) := by
  refine (readOnly_orNone (readOnly_clientGetObject nasKey)).bind fun data => ?_
  cases data with
  | none => exact keeps_pure _
  | some nasData => exact (readOnly_readFile localFile).bind fun _ => keeps_pure _

theorem readOnly_compareNamed (localFiles : List Path) (nasObjects : List Key) (name : String) :
    ReadOnly (h.compareNamed localFiles nasObjects name) := by
  unfold compareNamed
  split
  · exact readOnly_compareFile h name _ _
  · exact keeps_pure _

theorem readOnly_compareFiles (localFiles : List Path) (nasObjects : List Key)
    (names : List String) : ReadOnly (h.compareFiles localFiles nasObjects names) := by
  induction names with
  | nil => exact keeps_pure _
  | cons name rest ih =>
    exact (readOnly_compareNamed h localFiles nasObjects name).bind fun m =>
      ih.bind fun n => keeps_pure _

theorem readOnly_checkNasPartitionExists (pfx : Key) :
    ReadOnly (checkNasPartitionExists pfx : Prog C Bool) := by
  refine (readOnly_orNone (readOnly_clientListText _)).bind fun keys => ?_
  cases keys <;> exact keeps_pure _

theorem readOnly_checkAmbiguity (dir : Path) (pfx : Key) (localFiles : List Path) :
    ReadOnly (h.checkAmbiguity dir pfx localFiles) := by
  unfold checkAmbiguity
  split
  · exact keeps_pure _
  · refine (readOnly_checkNasPartitionExists pfx).bind fun found => ?_
    cases found <;> exact keeps_pure _

/-- `verify` changes neither the disk nor the bucket, also when it raises. -/
theorem verify_readOnly (dir : Path) (pfx : Key) (localFiles : Option (List Path))
    (nasObjects : Option (List Key)) : ReadOnly (h.verify dir pfx localFiles nasObjects) := by
  refine keeps_get.bind fun w => (readOnly_gatherObjects _ nasObjects).bind fun keys => ?_
  refine (readOnly_compareFiles h _ _ _).bind fun m => ?_
  exact (readOnly_checkAmbiguity h _ _ _).bind fun a => keeps_pure _

end

/-! ## while every request is answered -/

/-- The computation returned something with `P`, and requests are still answered. -/
def Answers (w : World C) (P : α → Prop) (r : Except Exn α) (w' : World C) : Prop :=
  SameButReplies w w' ∧ Answering w'.replies ∧ ∃ a, r = .ok a ∧ P a

variable {P : α → Prop}

theorem answers_bind {f : α → Prog C β} {Q : β → Prop} (hm : wp m (Answers w P) w)
    (hf : ∀ a w', SameButReplies w w' → Answering w'.replies → P a →
      wp (f a) (Answers w' Q) w') : wp (m >>= f) (Answers w Q) w := by
  refine wp_seq hm ?_ ?_
  · rintro a w' ⟨hsame, hans, a', ha, hP⟩
    cases ha
    refine wp_mono (hf a w' hsame hans hP) fun r w'' h => ?_
    exact ⟨hsame.trans h.1, h.2⟩
  · rintro e w' ⟨-, -, a, ha, -⟩
    exact nomatch ha

theorem answers_pure (hans : Answering w.replies) {a : α} (ha : P a) :
    wp (pure a : Prog C α) (Answers w P) w :=
  ⟨.refl w, hans, a, rfl, ha⟩

theorem answers_orNone (hm : wp m (Answers w P) w) :
    wp (orNone m) (Answers w fun r => ∃ a, r = some a ∧ P a) w := by
  refine wp_mono (wp_orNone hm) ?_
  rintro r w' ⟨r', ⟨hsame, hans, a, rfl, ha⟩, rfl⟩
  exact ⟨hsame, hans, some a, rfl, a, rfl, ha⟩

theorem answers_request (hans : Answering w.replies) {answer : Prog C α}
    (hanswer : wp answer (Answers w.next P) w.next) : wp (request answer) (Answers w P) w := by
  refine wp_request_of (wp_mono hanswer ?_) fun e hno => absurd hans hno
  intro r w' h
  exact ⟨(SameButReplies.next w).trans h.1, h.2⟩

/-- The keys a text listing returns. -/
def listedText (w : World C) (text : List Char) : List Key :=
  sortKeys (w.nas.keys.filter fun key => text.isPrefixOf (keyText key))

variable {key : Key}

theorem mem_listedText {text : List Char} :
    key ∈ listedText w text ↔ key ∈ w.nas ∧ text <+: keyText key := by
  rw [listedText, mem_sortKeys, List.mem_filter, List.isPrefixOf_iff_prefix, AList.mem_keys]

section

variable {w : World C} (hans : Answering w.replies)

include hans

theorem clientListText_answers (text : List Char) :
    wp (clientListText text) (Answers w (· = listedText w text)) w :=
  answers_request hans ⟨.refl _, hans.tail, _, rfl, rfl⟩

variable (h : InvariantHarness C) {localFiles : List Path}

/-- **The ambiguity check** fails where there are files and an object below the prefix. -/
theorem checkAmbiguity_answers (dir : Path) (hne : localFiles ≠ []) (hkey : key ∈ w.nas)
    (hpfx : probePrefix pfx <+: keyText key) :
    wp (h.checkAmbiguity dir pfx localFiles) (Answers w (·.status = .fail)) w := by
  have hempty : ¬ localFiles.isEmpty = true := by simpa using hne
  unfold checkAmbiguity
  rw [if_neg hempty]
  refine answers_bind (P := (· = true)) ?_ ?_
  · refine answers_bind (answers_orNone (clientListText_answers hans _)) ?_
    rintro - w' - hans' ⟨keys, rfl, rfl⟩
    refine answers_pure hans' ?_
    have hmem : key ∈ listedText w (probePrefix pfx) := mem_listedText.mpr ⟨hkey, hpfx⟩
    cases hlist : listedText w (probePrefix pfx) with
    | nil => simp [hlist] at hmem
    | cons k rest => rfl
  · rintro - w' - hans' rfl
    exact answers_pure hans' rfl

end

/-! ## the comparisons -/

/-- The pair that is compared under a name, if there is one, has no mismatch. Of several
objects with that name it is the last one listed. -/
def MatchesNamed (h : InvariantHarness C) (w : World C) (localFiles : List Path)
    (nasObjects : List Key) (name : String) : Prop :=
  ∀ f key c o, named localFiles name = some f → named nasObjects name = some key →
    w.files.lookup f = some c → w.nas.lookup key = some o →
      h.compareBytes name f c o.body = {}

/-- How comparisons end, whatever the replies: there is no mismatch if `Match` holds and the
`n` downloads are answered, and only if `Match` holds. -/
def Compares (w : World C) (m : Prog C Mismatches) (Match : Prop) : Prop :=
  ∃ n, ∀ replies, ∃ r,
    m { w with replies := replies } = (.ok r, { w with replies := replies.drop n }) ∧
      (r = {} → Match) ∧ ((∀ i < n, (replies.get i).failure = none) → Match → r = {})

theorem Mismatches.append_eq_empty {m n : Mismatches} :
    m.append n = {} ↔ m = {} ∧ n = {} := by
  cases m
  cases n
  simp [Mismatches.append]
  tauto

section

variable {h : InvariantHarness C} {w : World C} {localFiles : List Path}

theorem Compares.answers {m : Prog C Mismatches} {Match : Prop} (hm : Compares w m Match)
    (hans : Answering w.replies) : wp m (Answers w fun r => Match → r = {}) w := by
  obtain ⟨n, hrun⟩ := hm
  obtain ⟨r, hr, -, hclean⟩ := hrun w.replies
  have hfailure : ∀ i < n, (w.replies.get i).failure = none := fun i _ => by
    obtain ⟨etag, versionId, hi⟩ := hans i
    exact congrArg Reply.failure hi
  unfold wp
  rw [hr]
  exact ⟨⟨n, rfl⟩, fun i => hans (i + n), r, rfl, hclean hfailure⟩

/-- A failed download counts as a mismatch of its own. -/
theorem compareFile_compares (name : String) {f : Path} {c : C} {o : Obj C}
    (hc : w.files.lookup f = some c) (ho : w.nas.lookup key = some o) :
    Compares w (h.compareFile name f key) (h.compareBytes name f c o.body = {}) := by
  refine ⟨1, fun replies => ?_⟩
  set s : World C := { w with replies := replies } with hs
  have hget : wp (clientGetObject key) (fun r s' => s' = s.next ∧
      r = (replies.head.failure.elim (.ok o.body) .error : Except Exn C)) s := by
    have ho' : s.next.nas.lookup key = some o := ho
    have hhead : s.replies.head = replies.head := rfl
    rw [clientGetObject, wp_request, hhead]
    cases replies.head.failure with
    | none => simp [ho']
    | some e => exact ⟨rfl, rfl⟩
  have hfile : wp (h.compareFile name f key) (fun r s' => s' = s.next ∧
      r = .ok (replies.head.failure.elim (h.compareBytes name f c o.body)
        fun _ => ⟨[name], [name], [name], [name], [name]⟩)) s := by
    have hc' : s.next.files.lookup f = some c := hc
    refine wp_seq (wp_orNone hget) ?_ (by simp)
    rintro data s' ⟨r, ⟨rfl, rfl⟩, hdata⟩
    obtain rfl := Except.ok.inj hdata
    cases replies.head.failure with
    | none => exact (wp_bind _ _).mpr ((wp_readFile hc').mpr ⟨rfl, rfl⟩)
    | some e => exact ⟨rfl, rfl⟩
  refine ⟨_, Prod.ext hfile.2 hfile.1, ?_, fun hans hmatch => ?_⟩
  · cases replies.head.failure with
    | none => exact id
    | some e => exact fun hempty => by cases hempty
  · have hhead : replies.head.failure = none := hans 0 one_pos
    rw [hhead]
    exact hmatch

theorem compareNamed_compares (hfiles : ∀ f ∈ localFiles, f ∈ w.files)
    (hkeys : ∀ k ∈ nasObjects, k ∈ w.nas) (name : String) :
    Compares w (h.compareNamed localFiles nasObjects name)
      (MatchesNamed h w localFiles nasObjects name) := by
  unfold compareNamed
  split
  · rename_i f k hf hk
    obtain ⟨c, hc⟩ := exists_lookup (hfiles f (named_eq_some hf).1)
    obtain ⟨o, ho⟩ := exists_lookup (hkeys k (named_eq_some hk).1)
    have hiff : h.compareBytes name f c o.body = {} ↔
        MatchesNamed h w localFiles nasObjects name := by
      refine ⟨fun hempty => ?_, fun hmatch => hmatch f k c o hf hk hc ho⟩
      intro f' k' c' o' hf' hk' hc' ho'
      cases hf.symm.trans hf'
      cases hk.symm.trans hk'
      cases hc.symm.trans hc'
      cases ho.symm.trans ho'
      exact hempty
    rw [← propext hiff]
    exact compareFile_compares name hc ho
  · rename_i hnone
    refine ⟨0, fun replies => ⟨{}, rfl, fun _ => ?_, fun _ _ => rfl⟩⟩
    exact fun f k _ _ hf hk => absurd hk (hnone f k hf)

/-- The loop takes the answers one after the other. -/
theorem compareFiles_compares (hfiles : ∀ f ∈ localFiles, f ∈ w.files)
    (hkeys : ∀ k ∈ nasObjects, k ∈ w.nas) (names : List String) :
    Compares w (h.compareFiles localFiles nasObjects names)
      (∀ name ∈ names, MatchesNamed h w localFiles nasObjects name) := by
  induction names with
  | nil => exact ⟨0, fun replies => ⟨{}, rfl, by simp, fun _ _ => rfl⟩⟩
  | cons name rest ih =>
    obtain ⟨n₁, hfirst⟩ := compareNamed_compares (h := h) hfiles hkeys name
    obtain ⟨n₂, hothers⟩ := ih
    refine ⟨n₁ + n₂, fun replies => ?_⟩
    obtain ⟨r₁, hr₁, hsound₁, hclean₁⟩ := hfirst replies
    obtain ⟨r₂, hr₂, hsound₂, hclean₂⟩ := hothers (replies.drop n₁)
    refine ⟨r₁.append r₂, ?_, fun hempty => ?_, fun hans hmatch => ?_⟩
    · rw [compareFiles, bind_ok hr₁, bind_ok hr₂, Stream'.drop_drop]
      rfl
    · obtain ⟨hempty₁, hempty₂⟩ := Mismatches.append_eq_empty.mp hempty
      exact List.forall_mem_cons.mpr ⟨hsound₁ hempty₁, hsound₂ hempty₂⟩
    · obtain ⟨hname, hrest⟩ := List.forall_mem_cons.mp hmatch
      refine Mismatches.append_eq_empty.mpr ⟨hclean₁ (fun i hi => hans i (by omega)) hname, ?_⟩
      exact hclean₂ (fun i hi => hans (i + n₁) (by omega)) hrest

end

/-! ## good partitions are refused -/

namespace InvariantHarness

/-- A parquet file with the columns the harness expects at that path. -/
def Conforms (h : InvariantHarness C) (file : Path) (c : C) : Prop :=
  ∃ schema rows, h.readParquetMeta c = some (schema, rows) ∧
    h.resolveExpectedColumnCount file =
      (some (schema.names.length : Int), some schema.names)

end InvariantHarness

/-- A correctly backfilled partition: every local file conforms and has a byte-identical
object of its name, the prefix holds nothing else, and both names carry an expected schema
version. -/
structure Backfilled (h : InvariantHarness C) (w : World C) (dir : Path) (pfx : Key) : Prop where
  files_ne : globParquet w dir ≠ []
  replicated : ∀ f ∈ globParquet w dir, ∃ o,
    w.nas.lookup (pfx ++ [basename f]) = some o ∧ w.files.lookup f = some o.body
  conforms : ∀ f ∈ globParquet w dir, ∀ c, w.files.lookup f = some c → h.Conforms f c
  only : ∀ key ∈ w.nas, pfx <+: key → ∃ f ∈ globParquet w dir, key = pfx ++ [basename f]
  version : (h.checkSchemaVersion dir pfx).status = .pass

/-- No other key of the bucket continues the text of the prefix. -/
def NoSiblings (w : World C) (pfx : Key) : Prop :=
  ∀ key ∈ w.nas, keyText pfx <+: keyText key → pfx <+: key

omit [Blob C] in
theorem fieldType_isSome {schema : Schema} (hname : name ∈ schema.names) :
    ∃ t, schema.fieldType name = some t := by
  obtain ⟨column, hcolumn, rfl⟩ := List.mem_map.mp hname
  have hfound : (schema.find? fun c => c.1 == column.1).isSome = true :=
    List.find?_isSome.mpr ⟨column, hcolumn, beq_self_eq_true _⟩
  obtain ⟨c, hc⟩ := Option.isSome_iff_exists.mp hfound
  exact ⟨c.2, by rw [Schema.fieldType, hc]; rfl⟩

theorem dtypeIdentity_self (schema : Schema) : dtypeIdentity schema schema = true := by
  rw [dtypeIdentity, Bool.and_eq_true, List.all_eq_true]
  refine ⟨decide_eq_true rfl, ?_⟩
  intro name hname
  obtain ⟨t, ht⟩ := fieldType_isSome hname
  rw [ht]
  exact decide_eq_true rfl

/-- Conforming bytes compared with themselves give no mismatch. -/
theorem compareBytes_self {h : InvariantHarness C} {file : Path} {c : C}
    (hconf : h.Conforms file c) (name : String) : h.compareBytes name file c c = {} := by
  obtain ⟨schema, rows, hmeta, hexpected⟩ := hconf
  simp [compareBytes, hmeta, hexpected, mismatchUnless, dtypeIdentity_self]

section

variable {h : InvariantHarness C} {w : World C} {dir : Path} {pfx : Key}

namespace Backfilled

variable (hgood : Backfilled h w dir pfx)

include hgood

theorem object_mem {f : Path} (hf : f ∈ globParquet w dir) : pfx ++ [basename f] ∈ w.nas := by
  obtain ⟨o, ho, -⟩ := hgood.replicated f hf
  exact AList.lookup_isSome.mp (by rw [ho]; rfl)

/-- What is compared under one name is one and the same content. -/
theorem matchesNamed (hlocal : ∀ f ∈ localFiles, f ∈ globParquet w dir)
    (hnas : ∀ k ∈ nasObjects, ∃ f ∈ globParquet w dir, k = pfx ++ [basename f])
    (name : String) : MatchesNamed h w localFiles nasObjects name := by
  intro f k c o hfile hkey hc ho
  obtain ⟨hf, hname⟩ := named_eq_some hfile
  obtain ⟨hk, hname'⟩ := named_eq_some hkey
  obtain ⟨g, hg, rfl⟩ := hnas k hk
  have hfg : f = g := by
    rw [eq_append_basename (hlocal f hf), eq_append_basename hg, hname, ← hname',
      basename_append]
  subst hfg
  obtain ⟨o', ho', hbody⟩ := hgood.replicated f (hlocal f hf)
  have hoo : o = o' := Option.some.inj (ho.symm.trans ho')
  have hcb : c = o.body := Option.some.inj (hc.symm.trans (hoo ▸ hbody))
  rw [← hcb]
  exact compareBytes_self (hgood.conforms f (hlocal f hf) c hc) _

/-- Without siblings the listing of the partition is its objects. -/
theorem mem_listed (halone : NoSiblings w pfx) :
    key ∈ listedText w (keyText pfx) ↔ key ∈ (globParquet w dir).map (pfx ++ [basename ·]) := by
  rw [mem_listedText, List.mem_map]
  constructor
  · rintro ⟨hkey, htext⟩
    obtain ⟨f, hf, rfl⟩ := hgood.only key hkey (halone key hkey htext)
    exact ⟨f, hf, rfl⟩
  · rintro ⟨f, hf, rfl⟩
    exact ⟨hgood.object_mem hf, keyText_prefix_append pfx _⟩

theorem length_listed (halone : NoSiblings w pfx) :
    (globParquet w dir).length = (listedText w (keyText pfx)).length := by
  have hinj : ∀ f ∈ globParquet w dir, ∀ g ∈ globParquet w dir,
      pfx ++ [basename f] = pfx ++ [basename g] → f = g := by
    intro f hf g hg heq
    have hname : basename f = basename g := by simpa using heq
    rw [eq_append_basename hf, eq_append_basename hg, hname]
  have hobjects : ((globParquet w dir).map (pfx ++ [basename ·])).Nodup :=
    List.Nodup.map_on hinj (globParquet_nodup w dir)
  have hlisted : (listedText w (keyText pfx)).Nodup :=
    (sortKeys_perm _).nodup_iff.mpr (w.nas.nodupKeys.filter _)
  have hperm := (List.perm_ext_iff_of_nodup hlisted hobjects).mpr fun key =>
    hgood.mem_listed halone
  rw [hperm.length_eq, List.length_map]

end Backfilled

/-- What `verify` reports of files next to objects, with every request answered. -/
theorem verify_ambiguous (hans : Answering w.replies) (hnil : pfx ≠ [])
    (localFiles : Option (List Path)) (nasObjects : Option (List Key)) {files : List Path}
    {objects : List Key} (hfiles : localFiles.getD (globParquet w dir) = files)
    (hobjects : nasObjects.getD (listedText w (keyText pfx)) = objects) (hne : files ≠ [])
    (hon : ∀ f ∈ files, f ∈ w.files) (hin : ∀ k ∈ objects, k ∈ w.nas) {f : Path}
    (hf : pfx ++ [basename f] ∈ w.nas) :
    wp (h.verify dir pfx localFiles nasObjects) (Answers w fun v => v.status ≠ .allPass ∧
      ((∀ name, MatchesNamed h w files objects name) → files.length = objects.length →
        (h.checkSchemaVersion dir pfx).status = .pass → v.status = .ambiguityFail)) w := by
  unfold InvariantHarness.verify
  rw [wp_bind, wp_get]
  simp only [hfiles, partition_eq_self]
  refine answers_bind (P := (· = objects)) ?_ ?_
  · cases nasObjects with
    | some keys => exact answers_pure hans hobjects
    | none =>
      refine wp_mono (clientListText_answers hans (keyText pfx)) ?_
      rintro r w' ⟨hsame, hans', a, rfl, rfl⟩
      exact ⟨hsame, hans', _, rfl, hobjects⟩
  intro objects' w₁ hsame₁ hans₁ hobjects'
  subst hobjects'
  obtain ⟨n, rfl⟩ := hsame₁
  refine answers_bind ((compareFiles_compares (w := { w with replies := w.replies.drop n })
    hon hin _).answers hans₁) ?_
  intro m w₂ hsame₂ hans₂ hm
  have hw₂ : w₂.nas = w.nas := hsame₂.stores.nas
  refine answers_bind (checkAmbiguity_answers hans₂ h dir hne (hw₂ ▸ hf)
    (probe_finds hnil _)) ?_
  intro ambiguity w₃ _ hans₃ hfail
  refine answers_pure hans₃ ⟨fun hall => ?_, fun hmatch hcount hver => ?_⟩
  · exact absurd ((PerResults.of_allPass hall).2.symm.trans hfail) (by decide)
  · obtain rfl : m = {} := hm fun name _ => hmatch name
    rw [PerResults.status_of_clean (perResults_clean h hcount hver)]
    exact if_pos hfail

/-- **Every good partition is refused.** For a correctly backfilled partition and a NAS
that answers every call, `verify` in partition mode never returns `all_pass`, and neither
does it in per-file mode for any of the files. What it reports is `ambiguity_fail`, in
partition mode provided no sibling prefix adds to the object count. -/
theorem backfilled_never_allPass (hgood : Backfilled h w dir pfx) (hans : Answering w.replies) :
    (∃ v, (h.verify dir pfx none none).result w = .ok v ∧ v.status ≠ .allPass ∧
      (NoSiblings w pfx → v.status = .ambiguityFail)) ∧
    ∀ f ∈ globParquet w dir, ∃ v,
      (h.verify dir pfx (some [f]) (some [pfx ++ [basename f]])).result w = .ok v ∧
        v.status = .ambiguityFail := by
  have hpfx : pfx ≠ [] := nasPartition_ne_nil hgood.version
  have hon : ∀ f ∈ globParquet w dir, f ∈ w.files := fun f hf => (mem_globParquet.mp hf).1
  constructor
  · obtain ⟨f, hf⟩ := List.exists_mem_of_ne_nil _ hgood.files_ne
    obtain ⟨-, -, v, hv, hnot, hambiguous⟩ := verify_ambiguous (h := h) hans hpfx none none
      rfl rfl hgood.files_ne hon
      (fun k hk => (mem_listedText.mp hk).1) (hgood.object_mem hf)
    refine ⟨v, hv, hnot, fun halone => ?_⟩
    refine hambiguous (hgood.matchesNamed (fun _ hf => hf) ?_) (hgood.length_listed halone)
      hgood.version
    intro k hk
    obtain ⟨g, hg, hgk⟩ := List.mem_map.mp ((hgood.mem_listed halone).mp hk)
    exact ⟨g, hg, hgk.symm⟩
  · intro f hf
    have hmem : ∀ g ∈ [f], g ∈ globParquet w dir := by
      intro g hg
      rwa [List.mem_singleton.mp hg]
    obtain ⟨-, -, v, hv, -, hambiguous⟩ := verify_ambiguous (h := h) hans hpfx
      (some [f]) (some [pfx ++ [basename f]]) rfl rfl
      (List.cons_ne_nil f []) (fun g hg => hon g (hmem g hg))
      (fun k hk => List.mem_singleton.mp hk ▸ hgood.object_mem hf) (hgood.object_mem hf)
    refine ⟨v, hv, hambiguous (hgood.matchesNamed hmem ?_) rfl hgood.version⟩
    intro k hk
    exact ⟨f, hf, List.mem_singleton.mp hk⟩

end

/-- A harness for tick partitions that reads one row of text columns from any file. -/
def tickHarness : InvariantHarness String where
  localRoot := "/data"
  expectedSchemaVersion := ["tick.v1"]
  readParquetMeta _ :=
    some (["ts_utc", "received_at", "exchange", "symbol", "price", "quantity", "side",
      "raw_json"].map fun name => (name, "string"), 1)

def nodeA : Path := ["schema_version=tick.v1", "node=A"]

/-- One segment on disk, one object on the NAS, and every request answered. -/
def oneSegment (key : Key) : World String where
  files := .singleton (nodeA ++ ["a.parquet"]) "rows"
  dirs := []
  nas := .singleton key ⟨"rows", none, "", none⟩
  retryQueue := none
  replies := .const (.ok "" none)
  unlinkFaults := .const false

theorem globParquet_oneSegment (key : Key) :
    globParquet (oneSegment key) nodeA = [nodeA ++ ["a.parquet"]] := by
  show sortKeys ([nodeA ++ ["a.parquet"]].filter fun path =>
    decide (path.dropLast = nodeA) && hasSuffix ".parquet" (basename path)) = _
  decide +kernel

theorem backfilled_oneSegment :
    Backfilled tickHarness (oneSegment (nodeA ++ ["a.parquet"])) nodeA nodeA where
  files_ne := List.cons_ne_nil _ _
  replicated := by
    intro f hf
    rw [globParquet_oneSegment, List.mem_singleton] at hf
    subst hf
    exact ⟨⟨"rows", none, "", none⟩, rfl, rfl⟩
  conforms := by
    intro f hf c hc
    rw [globParquet_oneSegment, List.mem_singleton] at hf
    subst hf
    exact ⟨_, _, rfl, by decide +kernel⟩
  only := by
    intro key hkey _
    obtain ⟨o, ho⟩ := exists_lookup hkey
    obtain ⟨rfl, -⟩ := lookup_singleton_eq_some ho
    exact ⟨nodeA ++ ["a.parquet"], by rw [globParquet_oneSegment]; exact List.mem_cons_self, rfl⟩
  version := by decide +kernel

theorem backfilled_segment_refused :
    Backfilled tickHarness (oneSegment (nodeA ++ ["a.parquet"])) nodeA nodeA ∧
      ∃ v, (tickHarness.verify nodeA nodeA none none).result
        (oneSegment (nodeA ++ ["a.parquet"])) = .ok v ∧ v.status ≠ .allPass := by
  have hgood := backfilled_oneSegment
  obtain ⟨⟨v, hv, hnot, -⟩, -⟩ := backfilled_never_allPass hgood (Answering.const "" none)
  exact ⟨hgood, v, hv, hnot⟩

/-- Both modes report the replicated segment as ambiguous. -/
theorem backfilled_segment_ambiguous :
    Backfilled tickHarness (oneSegment (nodeA ++ ["a.parquet"])) nodeA nodeA ∧
      ((tickHarness.verify nodeA nodeA none none).result
        (oneSegment (nodeA ++ ["a.parquet"]))).toOption.map InvariantResult.status =
          some .ambiguityFail ∧
      ((tickHarness.verify nodeA nodeA (some [nodeA ++ ["a.parquet"]])
        (some [nodeA ++ ["a.parquet"]])).result
        (oneSegment (nodeA ++ ["a.parquet"]))).toOption.map InvariantResult.status =
          some .ambiguityFail :=
  ⟨backfilled_oneSegment, by decide +kernel, by decide +kernel⟩

/-! ## what is accepted -/

/-- Directly under the prefix lie exactly the objects of the local files, with their
bytes. -/
structure Replicated (w : World C) (dir : Path) (pfx : Key) : Prop where
  stored : ∀ f ∈ globParquet w dir, ∃ o,
    w.nas.lookup (pfx ++ [basename f]) = some o ∧ w.files.lookup f = some o.body
  only : ∀ name, pfx ++ [name] ∈ w.nas → ∃ f ∈ globParquet w dir, basename f = name

/-- What a bucket has to look like for `all_pass`. The prefix is listed as a text, so that
objects of sibling prefixes count. -/
structure Acceptable (h : InvariantHarness C) (w : World C) (dir : Path) (pfx : Key) : Prop where
  count : (globParquet w dir).length = (listedText w (keyText pfx)).length
  version : (h.checkSchemaVersion dir pfx).status = .pass
  compared : ∀ name ∈ commonBasenames (globParquet w dir) (listedText w (keyText pfx)),
    MatchesNamed h w (globParquet w dir) (listedText w (keyText pfx)) name

section

variable {h : InvariantHarness C} {w : World C} {dir : Path} {pfx : Key}

theorem verify_compares (h : InvariantHarness C) (w : World C) (dir : Path) (pfx : Key) :
    Compares w (h.compareFiles (globParquet w dir) (listedText w (keyText pfx))
        (commonBasenames (globParquet w dir) (listedText w (keyText pfx))))
      (∀ name ∈ commonBasenames (globParquet w dir) (listedText w (keyText pfx)),
        MatchesNamed h w (globParquet w dir) (listedText w (keyText pfx)) name) :=
  compareFiles_compares (fun _ hf => (mem_globParquet.mp hf).1)
    (fun _ hk => (mem_listedText.mp hk).1) _

/-- An `all_pass` in partition mode says at least that the bucket is acceptable. -/
theorem verify_allPass :
    wp (h.verify dir pfx none none) (fun r _ => ∀ v, r = .ok v → v.status = .allPass →
      Acceptable h w dir pfx) w := by
  unfold InvariantHarness.verify
  rw [wp_bind, wp_get]
  simp only [partition_eq_self, Option.getD_none]
  refine wp_seq (P := fun r s => s = w.next ∧
    ∀ keys, r = .ok keys → keys = listedText w (keyText pfx)) ?_ ?_ fun e _ _ v hv => nomatch hv
  · show wp (clientListText (keyText pfx)) _ w
    rw [clientListText, wp_request]
    cases w.replies.head.failure with
    | none => exact ⟨rfl, fun keys hkeys => (Except.ok.inj hkeys).symm⟩
    | some e => exact ⟨rfl, fun keys hkeys => nomatch hkeys⟩
  rintro keys _ ⟨rfl, hkeys⟩
  obtain rfl := hkeys keys rfl
  obtain ⟨n, hrun⟩ := verify_compares h w dir pfx
  -- the first reply was that of the listing
  obtain ⟨m, hm, hsound, -⟩ := hrun w.replies.tail
  refine wp_bind_ok hm ?_
  refine wp_seq (P := fun _ _ => True) trivial ?_ fun e _ _ v hv => nomatch hv
  intro ambiguity w₃ _ v hv hall
  cases hv
  obtain ⟨hclean, -⟩ := PerResults.of_allPass hall
  exact ⟨objectCount_pass.mp hclean.objectCount, hclean.schemaVersion,
    hsound (mismatches_of_clean h hclean)⟩

theorem clientListText_down (hdown : w.replies.head = .other) (text : List Char) :
    wp (clientListText text : Prog C (List Key))
      (fun r s => r = .error .botoCoreError ∧ s = w.next) w := by
  rw [clientListText, wp_request, hdown]
  exact ⟨rfl, rfl⟩

/-- **What is accepted.** An acceptable bucket passes all eight checks if the listing and the
downloads are answered and the probe of the ambiguity check is not. -/
theorem verify_acceptable (hacc : Acceptable h w dir pfx) :
    ∃ replies v, (h.verify dir pfx none none).result { w with replies := replies } = .ok v ∧
      v.status = .allPass := by
  obtain ⟨n, hrun⟩ := verify_compares h w dir pfx
  let replies : Stream' Reply := fun i => if i < n + 1 then .ok "" none else .other
  obtain ⟨m, hm, -, hclean⟩ := hrun replies.tail
  obtain rfl : m = {} := by
    refine hclean (fun i hi => ?_) hacc.compared
    show (if i + 1 < n + 1 then Reply.ok "" none else .other).failure = none
    rw [if_pos (Nat.succ_lt_succ hi)]
    rfl
  refine ⟨replies, ?_⟩
  suffices hwp : wp (h.verify dir pfx none none)
      (fun r _ => ∃ v, r = .ok v ∧ v.status = .allPass) { w with replies := replies } from hwp
  have hglob : globParquet { w with replies := replies } dir = globParquet w dir := rfl
  unfold InvariantHarness.verify
  rw [wp_bind, wp_get]
  simp only [partition_eq_self, Option.getD_none, hglob]
  refine wp_bind_ok (b := listedText w (keyText pfx)) rfl (wp_bind_ok hm ?_)
  refine wp_seq (P := fun r _ => ∃ a : PerInvariantResult, r = .ok a ∧ a.status = .pass)
    ?_ ?_ fun e _ he => he.elim fun _ ha => nomatch ha.1
  · -- nothing answers the probe
    have hprobe : (replies.tail.drop n).head = .other := by
      show (if 0 + n + 1 < n + 1 then Reply.ok "" none else .other) = .other
      exact if_neg (by omega)
    unfold checkAmbiguity
    split
    · exact ⟨_, rfl, rfl⟩
    · refine wp_seq (P := fun r _ => r = .ok false) ?_ ?_ (by simp)
      · refine wp_seq (wp_orNone (clientListText_down hprobe _)) ?_ (by simp)
        rintro _ _ ⟨_, ⟨rfl, -⟩, ⟨rfl⟩⟩
        rfl
      · rintro _ _ ⟨rfl⟩
        exact ⟨_, rfl, rfl⟩
  rintro ambiguity w₃ ⟨a, ha, hpass⟩
  have hamb : ambiguity.status ≠ .fail := by simp [Except.ok.inj ha, hpass]
  refine ⟨_, rfl, ?_⟩
  rw [PerResults.status_of_clean (perResults_clean h hacc.count hacc.version)]
  exact if_neg hamb

/-- Without a connection the listing of the partition raises, and `verify` with it. -/
theorem verify_down (hdown : w.replies.head = .other) :
    (h.verify dir pfx none none) w = (.error .botoCoreError, w.next) := by
  suffices hwp : wp (h.verify dir pfx none none)
      (fun r s => r = .error .botoCoreError ∧ s = w.next) w from Prod.ext hwp.1 hwp.2
  unfold InvariantHarness.verify
  rw [wp_bind, wp_get]
  obtain ⟨hresult, hafter⟩ := clientListText_down hdown _
  exact wp_bind_error (Prod.ext hresult hafter) ⟨rfl, rfl⟩

/-- The stray objects of the failing case: as many as there are files, under names that
no file has. -/
def strayName (i : Nat) : String := String.ofList (List.replicate i 'x')

theorem strayName_injective : Function.Injective strayName := by
  intro i j hij
  have hlen := congrArg (fun s => s.toList.length) hij
  simpa [strayName] using hlen

theorem strayName_ne (hname : hasSuffix ".parquet" name = true) (i : Nat) : strayName i ≠ name := by
  rintro rfl
  have hsuffix : ".parquet".toList <:+ (strayName i).toList := List.isSuffixOf_iff_suffix.mp hname
  have hmem : '.' ∈ (strayName i).toList := hsuffix.subset (by decide)
  rw [strayName, String.toList_ofList] at hmem
  exact absurd (List.eq_of_mem_replicate hmem) (by decide)

/-- A bucket of `n` stray objects below `pfx`. -/
def strays (pfx : Key) (c : C) (n : Nat) : AList fun _ : Key => Obj C where
  entries := (List.range n).map fun i => ⟨pfx ++ [strayName i], ⟨c, none, "", none⟩⟩
  nodupKeys := by
    rw [List.NodupKeys, List.keys, List.map_map]
    refine List.Nodup.map ?_ List.nodup_range
    intro i j hij
    have hname : pfx ++ [strayName i] = pfx ++ [strayName j] := hij
    exact strayName_injective (by simpa using hname)

theorem keys_strays (c : C) (n : Nat) :
    (strays pfx c n).keys = (List.range n).map fun i => pfx ++ [strayName i] := by
  rw [AList.keys, List.keys, strays, List.map_map]
  rfl

/-- The bucket of the failing case. -/
def strayWorld (w : World C) (dir : Path) (pfx : Key) (c : C) : World C :=
  { w with nas := strays pfx c (globParquet w dir).length }

theorem mem_strayWorld {c : C} :
    key ∈ (strayWorld w dir pfx c).nas ↔
      ∃ i < (globParquet w dir).length, pfx ++ [strayName i] = key := by
  show key ∈ (strays pfx c _).keys ↔ _
  rw [keys_strays, List.mem_map]
  simp only [List.mem_range]

/-- The listing of the partition finds every stray object. -/
theorem length_listedText_strayWorld (c : C) :
    (listedText (strayWorld w dir pfx c) (keyText pfx)).length = (globParquet w dir).length := by
  have hall : (strays pfx c (globParquet w dir).length).keys.filter
      (fun key => (keyText pfx).isPrefixOf (keyText key)) =
        (strays pfx c (globParquet w dir).length).keys := by
    rw [List.filter_eq_self]
    intro key hkey
    rw [keys_strays, List.mem_map] at hkey
    obtain ⟨i, -, rfl⟩ := hkey
    exact List.isPrefixOf_iff_prefix.mpr (keyText_prefix_append pfx _)
  show (sortKeys ((strays pfx c _).keys.filter _)).length = _
  rw [hall, (sortKeys_perm _).length_eq, keys_strays, List.length_map,
    List.length_range]

/-- No stray object is compared with a file. -/
theorem commonBasenames_strayWorld (c : C) :
    commonBasenames (globParquet w dir)
      (listedText (strayWorld w dir pfx c) (keyText pfx)) = [] := by
  rw [List.eq_nil_iff_forall_not_mem]
  intro name hname
  obtain ⟨hlocal, hnas⟩ := mem_commonBasenames.mp hname
  obtain ⟨f, hf, rfl⟩ := List.mem_map.mp hlocal
  obtain ⟨key, hkey, hbase⟩ := List.mem_map.mp hnas
  obtain ⟨i, -, rfl⟩ := mem_strayWorld.mp (mem_listedText.mp hkey).1
  rw [basename_append] at hbase
  exact strayName_ne (mem_globParquet.mp hf).2.2 i hbase

/-- **The wrong names are acceptable.** -/
theorem acceptable_strayWorld (hversion : (h.checkSchemaVersion dir pfx).status = .pass) (c : C) :
    Acceptable h (strayWorld w dir pfx c) dir pfx where
  count := (length_listedText_strayWorld c).symm
  version := hversion
  compared name hname := by
    have hnil : name ∈ ([] : List String) := commonBasenames_strayWorld c ▸ hname
    exact absurd hnil List.not_mem_nil

/-- Over the bucket of `w`, an `all_pass` in partition mode implies replication, whichever
calls fail. -/
def SoundOn (h : InvariantHarness C) (w : World C) (dir : Path) (pfx : Key) : Prop :=
  ∀ replies v, (h.verify dir pfx none none).result { w with replies := replies } = .ok v →
    v.status = .allPass → Replicated w dir pfx

theorem soundOn_iff (h : InvariantHarness C) (w : World C) (dir : Path) (pfx : Key) :
    SoundOn h w dir pfx ↔ (Acceptable h w dir pfx → Replicated w dir pfx) := by
  constructor
  · intro hsound hacc
    obtain ⟨replies, v, hv, hall⟩ := verify_acceptable hacc
    exact hsound replies v hv hall
  · intro hrep replies v hv hall
    obtain ⟨hcount, hversion, hcompared⟩ :=
      verify_allPass (w := { w with replies := replies }) v hv hall
    exact hrep ⟨hcount, hversion, hcompared⟩

/-- **Soundness of the harness, exactly.** For a directory, a prefix and a bucket, `all_pass`
in partition mode implies replication whichever calls fail if and only if the bucket is
replicated or is not acceptable. It does so for every bucket if and only if the directory
holds no parquet file or the schema_version check rejects the two names. -/
theorem verify_sound_iff (h : InvariantHarness C) (w : World C) (dir : Path) (pfx : Key) :
    (SoundOn h w dir pfx ↔ (Acceptable h w dir pfx → Replicated w dir pfx)) ∧
      ((∀ nas, SoundOn h { w with nas := nas } dir pfx) ↔
        globParquet w dir = [] ∨ (h.checkSchemaVersion dir pfx).status = .fail) := by
  refine ⟨soundOn_iff h w dir pfx, ?_, ?_⟩
  · intro hsound
    by_contra hcond
    obtain ⟨hne, hfail⟩ := not_or.mp hcond
    have hversion : (h.checkSchemaVersion dir pfx).status = .pass := Verdict.ne_fail.mp hfail
    obtain ⟨f, hf⟩ := List.exists_mem_of_ne_nil _ hne
    obtain ⟨c, -⟩ := exists_lookup (mem_globParquet.mp hf).1
    have hrep := (soundOn_iff h (strayWorld w dir pfx c) dir pfx).mp (hsound _)
      (acceptable_strayWorld hversion c)
    -- the first stray object has the name of no file
    have hstray : pfx ++ [strayName 0] ∈ (strayWorld w dir pfx c).nas :=
      mem_strayWorld.mpr ⟨0, List.length_pos_iff.mpr hne, rfl⟩
    obtain ⟨g, hg, hname⟩ := hrep.only (strayName 0) hstray
    exact strayName_ne (mem_globParquet.mp hg).2.2 0 hname.symm
  · intro hcond nas
    refine (soundOn_iff h { w with nas := nas } dir pfx).mpr ?_
    rintro ⟨hcount, hversion, -⟩
    rcases hcond with hempty | hfail
    · have hglob : globParquet { w with nas := nas } dir = [] := hempty
      have hlisted : listedText { w with nas := nas } (keyText pfx) = [] :=
        List.length_eq_zero_iff.mp (hcount.symm.trans (congrArg List.length hempty))
      refine ⟨fun f hf => ?_, fun name hname => ?_⟩
      · simp [hglob] at hf
      · have hmem := mem_listedText.mpr ⟨hname, keyText_prefix_append pfx [name]⟩
        simp [hlisted] at hmem
    · cases hversion.symm.trans hfail

end

/-- With every call answered, the object of a sibling prefix is taken for the missing
object of the segment. -/
theorem verify_accepts_sibling :
    ((tickHarness.verify nodeA nodeA none none).result
      (oneSegment ["schema_version=tick.v1", "node=AB", "b.parquet"])).toOption.map
        InvariantResult.status = some .allPass ∧
      ¬ Replicated (oneSegment ["schema_version=tick.v1", "node=AB", "b.parquet"]) nodeA nodeA := by
  refine ⟨by decide +kernel, fun hrep => ?_⟩
  obtain ⟨o, ho, -⟩ := hrep.stored (nodeA ++ ["a.parquet"])
    (by rw [globParquet_oneSegment]; exact List.mem_cons_self)
  obtain ⟨hkey, -⟩ := lookup_singleton_eq_some ho
  exact absurd hkey (by decide)

end MctraderData.Harness
