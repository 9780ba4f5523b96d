import Mathlib.Data.Char
import Mathlib.Data.List.Lex
import Mathlib.Data.List.Sort
import MctraderData.Base

/-!
# mctrader-data — NAS object keys

Model of `nas_storage/nas_key.py` on component lists. A listing prefix of the
source always ends in `/`, so "starts with the prefix" is the list order `<+:`.
Sorted listings are in the order of the keys' text.
-/

namespace MctraderData.Nas

/-- The value of a Hive component `label=value`. -/
def hiveValue (label : String) (component : String) : Option String :=
  if (label ++ "=").toList.isPrefixOf component.toList then
    some (String.ofList (component.toList.drop (label ++ "=").toList.length))
  else none

/-- `_extract_tier`: the value of the first `tier=` component. -/
def extractTier (path : Path) : Option String := path.findSome? (hiveValue "tier")

/-- `build_nas_key`; `none` is the `ValueError` (the root itself, or a `tier`
argument that contradicts the path). -/
def buildNasKey (path : Path) (tier : Option String) : Option Key :=
  if path = [] then none
  else match tier, extractTier path with
    | some t, some t' => if t = t' then some path else none
    | _, _ => some path

variable {key : Key}

/-- A key is the path of its file. -/
theorem buildNasKey_eq_some {path : Path} {tier : Option String}
    (h : buildNasKey path tier = some key) : path ≠ [] ∧ key = path := by
  unfold buildNasKey at h
  split at h
  · cases h
  · rename_i hne
    refine ⟨hne, ?_⟩
    split at h
    · split at h <;> cases h
      rfl
    · cases h
      rfl

/-- `build_nas_prefix`; `none` is the `ValueError` (unknown tier or empty segment). -/
def buildNasPrefix (tier channel schemaVer exchange symbol dateStr : String) : Option Key :=
  if tier ∉ ["L1", "L2", "L3"] then none
  else if "" ∈ [channel, schemaVer, exchange, symbol, dateStr] then none
  else some ["market", channel, "schema_version=" ++ schemaVer, "tier=" ++ tier,
    "exchange=" ++ exchange, "symbol=" ++ symbol, "date=" ++ dateStr]

/-- `build_l1_prefix` -/
def buildL1Prefix (channel schemaVer exchange symbol dateStr : String) : Option Key :=
  buildNasPrefix "L1" channel schemaVer exchange symbol dateStr

/-- `build_legacy_nas_key` -/
def buildLegacyNasKey (path : Path) : Option Key :=
  if path = [] then none
  else if extractTier path = some "L1" then some ("l1" :: path) else some path

/-- `build_legacy_l1_prefix` -/
def buildLegacyL1Prefix (channel schemaVer exchange symbol dateStr : String) : Option Key :=
  (buildL1Prefix channel schemaVer exchange symbol dateStr).map ("l1" :: ·)

theorem buildLegacyL1Prefix_eq_some {channel schemaVer exchange symbol dateStr : String}
    {flat : Key} (h : buildL1Prefix channel schemaVer exchange symbol dateStr = some flat) :
    buildLegacyL1Prefix channel schemaVer exchange symbol dateStr = some ("l1" :: flat) := by
  unfold buildLegacyL1Prefix
  rw [h]
  rfl

/-- `_legacy_key_to_canonical`: `key.removeprefix("l1/")` -/
def legacyKeyToCanonical : Key → Key
  | "l1" :: k :: rest => k :: rest
  | key => key

/-- The text of a key. -/
def keyText (key : Key) : List Char := ((key.map String.toList).intersperse ['/']).flatten

/-- `sorted` on keys. -/
def sortKeys (keys : List Key) : List Key := keys.insertionSort fun a b => keyText a ≤ keyText b

theorem keyText_append {p q : Key} (hp : p ≠ []) (hq : q ≠ []) :
    keyText (p ++ q) = keyText p ++ '/' :: keyText q := by
  induction p with
  | nil => exact absurd rfl hp
  | cons x rest ih =>
    obtain ⟨y, q, rfl⟩ := List.exists_cons_of_ne_nil hq
    cases rest with
    | nil => simp [keyText]
    | cons x' rest =>
      have ih := ih (List.cons_ne_nil x' rest)
      simp only [keyText, List.cons_append, List.map_cons, List.intersperse_cons_cons,
        List.flatten_cons, List.append_assoc] at ih ⊢
      rw [ih]

/-- The components of a path. -/
abbrev Slashless (key : Key) : Prop := ∀ part ∈ key, '/' ∉ part.toList

theorem splitOn_keyText (h : Slashless key) (hne : key ≠ []) :
    (keyText key).splitOn '/' = key.map String.toList := by
  refine List.splitOn_intercalate '/' ?_ (by simpa using hne)
  simpa [Slashless] using h

/-- A listing prefix ends in `/`, so of slashless keys it takes those below it. -/
theorem keyText_prefix_iff {pfx : Key} (hpfx : Slashless pfx) (hkey : Slashless key)
    (hne : pfx ≠ []) (hlt : pfx.length < key.length) :
    keyText pfx ++ ['/'] <+: keyText key ↔ pfx <+: key := by
  constructor
  · rintro ⟨text, htext⟩
    have hkne : key ≠ [] := List.ne_nil_of_length_pos (by omega)
    have hsplit := congrArg (List.splitOn '/') htext
    rw [List.append_assoc, List.singleton_append, List.splitOn_append_cons_self,
      splitOn_keyText hpfx hne, splitOn_keyText hkey hkne] at hsplit
    exact (List.prefix_map_iff_of_injective fun _ _ => String.toList_inj.mp).mp ⟨_, hsplit⟩
  · rintro ⟨rest, rfl⟩
    have hrest : rest ≠ [] := by
      rintro rfl
      simp at hlt
    exact ⟨keyText rest, by simp [keyText_append hne hrest]⟩

theorem mem_sortKeys {keys : List Key} : key ∈ sortKeys keys ↔ key ∈ keys :=
  List.mem_insertionSort _

theorem sortKeys_perm (keys : List Key) : (sortKeys keys).Perm keys :=
  List.perm_insertionSort _ _

end MctraderData.Nas
