import Mathlib.Logic.Function.Basic

/-!
# mctrader-data — names and file contents

Paths below the data root and NAS object keys are lists of components: the
source builds both with `/`, and every place that needs the text of a name
(a suffix, a key prefix that ends in `/`) works on whole components.

File contents are abstract. What the storage code observes of a content is its
length and its sha256; `Blob` carries the two, with collision freedom of the hash
as a field, since every "same bytes" check of the code compares hashes.
-/

namespace MctraderData

/-- A path below the data root, as its components. -/
abbrev Path := List String

/-- A NAS object key, as its `/`-separated components. -/
abbrev Key := List String

/-- Names are compared component by component. -/
instance lawfulBEqPath : LawfulBEq (List String) := inferInstance

/-- What the storage code observes of a file content. -/
class Blob (C : Type) where
  /-- Hash values; the source carries them as hex strings. -/
  Digest : Type
  [digestDecEq : DecidableEq Digest]
  /-- `len(data)`, `Path.stat().st_size`, the `ContentLength` of a stored object. -/
  size : C → Nat
  /-- `hashlib.sha256(data).hexdigest()` -/
  sha256 : C → Digest
  /-- Two contents with one sha256 are the same bytes. -/
  sha256_injective : Function.Injective sha256

instance (C : Type) [Blob C] : DecidableEq (Blob.Digest C) := Blob.digestDecEq

/-- Text contents, on which concrete runs are evaluated. -/
instance : Blob String where
  Digest := String
  size := String.length
  sha256 := id
  sha256_injective := Function.injective_id

end MctraderData
