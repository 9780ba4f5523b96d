import MctraderData.Wal.Segment

/-!
# mctrader-data — replacing a parquet file

Model of `atomic_replace_parquet` of `wal/replay.py`, which `TransactionTierCompactor` writes
its tables with. The table is written beside its target, synced and moved over the target.

The clean-up after a failure removes both names, so that a writer that left a part of a file
under the target is cleaned up too. A file that was there before the call goes with it.

Which step fails, and with what, is given; a writer that fails may leave anything under the
temporary name. An `unlink` of the clean-up that is refused is ignored, as in the source.

## Results

* `atomicReplaceParquet_iff` — when a call replaces its target or leaves it.
-/

namespace MctraderData.Wal

open Lib Eff
open Nas (Exn)

variable {C : Type}

/-- The files by their paths. -/
abbrev Disk (C : Type) := Path → Option C

/-- What goes wrong during a call. -/
structure Faults (C : Type) where
  mkdir : Option Exn := none
  /-- The exception of `pq.write_table`, and what it leaves. -/
  write : Option (Exn × Option C) := none
  sync : Option Exn := none
  replace : Option Exn := none
  /-- `unlink` raises an `OSError`. -/
  refused : Path → Bool := fun _ => false

/-- The exception of the first step that fails. -/
def Faults.first (faults : Faults C) : Option Exn :=
  faults.mkdir <|> faults.write.map Prod.fst <|> faults.sync <|> faults.replace

def raiseAny : Option Exn → Eff (Disk C) Exn Unit
  | some e => throw e
  | none => pure ()

def setFile (path : Path) (content : Option C) : Eff (Disk C) Exn Unit :=
  modify fun disk => Function.update disk path content

/-- `_write_table_to_parquet` -/
def writeTableToParquet (faults : Faults C) (table : C) (path : Path) : Eff (Disk C) Exn Unit :=
  match faults.write with
  | some (e, left) => do
    setFile path left
    throw e
  | none => do
    setFile path (some table)
    raiseAny faults.sync

/-- `os.replace` -/
def replaceBy (src dst : Path) : Eff (Disk C) Exn Unit := do
  let disk ← get
  setFile dst (disk src)
  setFile src none

/-- `try: if path.exists(): path.unlink() except OSError: pass` -/
def unlinkQuietly (faults : Faults C) (path : Path) : Eff (Disk C) Exn Unit :=
  if faults.refused path then pure () else setFile path none

/-- `_next_tmp_suffix` -/
def tmpSuffix (pid ident counter : Nat) : String :=
  "." ++ toString pid ++ "." ++ toString ident ++ "." ++ toString counter ++ ".tmp"

/-- The `except BaseException` of `atomic_replace_parquet`. -/
def cleanUp (faults : Faults C) (final tmp : Path) (e : Exn) : Eff (Disk C) Exn Unit := do
  unlinkQuietly faults tmp
  unlinkQuietly faults final
  throw e

/-- `atomic_replace_parquet` -/
def atomicReplaceParquet (faults : Faults C) (final tmp : Path) (table : C) :
    Eff (Disk C) Exn Unit := do
  raiseAny faults.mkdir
  tryCatch (do
    writeTableToParquet faults table tmp
    raiseAny faults.replace
    replaceBy tmp final) (cleanUp faults final tmp)

/-- After a failure: the exception is raised, an old target is as it was, and there is no new
file but one whose removal was refused. -/
def LeavesOld (faults : Faults C) (final : Path) (disk : Disk C) (e : Exn)
    (r : Except Exn Unit) (disk' : Disk C) : Prop :=
  r = .error e ∧ (disk final ≠ none → disk' final = disk final) ∧
    ∀ path, disk path = none → faults.refused path = false → disk' path = none

/-- What a call is to do: it leaves what was there, or puts the table in its place and frees
the temporary name. -/
def ReplacesAtomically (faults : Faults C) (final tmp : Path) (table : C) (disk : Disk C) :
    Prop :=
  wp (atomicReplaceParquet faults final tmp table) (fun r disk' =>
    match faults.first with
    | some e => LeavesOld faults final disk e r disk'
    | none => r = .ok () ∧ disk' final = some table ∧ disk' tmp = none) disk

theorem withSuffix_ne (path : Path) (pid ident counter : Nat) :
    withSuffix path (tmpSuffix pid ident counter) ≠ path := by
  intro h
  have hlast := congrArg (List.getLastD · "") h
  simp only [withSuffix, List.getLastD_concat] at hlast
  have hlength := congrArg String.length hlast
  simp [tmpSuffix] at hlength

/-- The clean-up removes the target too. -/
theorem cleanUp_iff (faults : Faults C) {final tmp : Path} (hne : tmp ≠ final) (disk : Disk C)
    (left : Option C) (e : Exn) :
    wp (cleanUp faults final tmp e) (LeavesOld faults final disk e)
        (Function.update disk tmp left) ↔
      disk final = none ∨ faults.refused final = true := by
  cases hfinal : faults.refused final <;> cases htmp : faults.refused tmp <;>
    simp only [cleanUp, unlinkQuietly, setFile, LeavesOld, hfinal, htmp, wp_bind, wp_modify,
      wp_pure, wp_throw, if_true, Bool.false_eq_true, if_false, Function.update_apply] <;>
    grind

/-- A call replaces its target or leaves it exactly when nothing fails, when nothing was begun,
when there was no target, or when its removal was refused. -/
theorem atomicReplaceParquet_iff (faults : Faults C) (final : Path) (pid ident counter : Nat)
    (table : C) (disk : Disk C) :
    ReplacesAtomically faults final (withSuffix final (tmpSuffix pid ident counter)) table disk ↔
      faults.first = none ∨ faults.mkdir.isSome ∨ disk final = none ∨
        faults.refused final = true := by
  have hne := withSuffix_ne final pid ident counter
  generalize withSuffix final (tmpSuffix pid ident counter) = tmp at hne
  have hclean := cleanUp_iff faults hne disk
  obtain ⟨mkdir, write, sync, replace, refused⟩ := faults
  simp only [ReplacesAtomically, atomicReplaceParquet, writeTableToParquet, setFile]
  rcases mkdir with _ | e
  · rcases write with _ | ⟨e, left⟩
    · rcases sync with _ | e
      · rcases replace with _ | e
        · simp [raiseAny, replaceBy, Faults.first, setFile, hne.symm]
        · simpa [raiseAny, Faults.first] using hclean (some table) e
      · simpa [raiseAny, Faults.first] using hclean (some table) e
    · simpa [raiseAny, Faults.first] using hclean left e
  · exact iff_of_true ⟨rfl, fun _ => rfl, fun _ hnone _ => hnone⟩ (Or.inr (Or.inl rfl))

/-- `os.replace` fails, and the old table is gone. -/
theorem old_table_removed :
    let faults : Faults Nat := { replace := some .osError }
    let tmp := withSuffix ["part.parquet"] (tmpSuffix 1 1 1)
    let disk : Disk Nat := fun path => if path = ["part.parquet"] then some 1 else none
    (atomicReplaceParquet faults ["part.parquet"] tmp 2).after disk ["part.parquet"] = none ∧
      ¬ReplacesAtomically faults ["part.parquet"] tmp 2 disk := by
  refine ⟨by decide +kernel, fun h => ?_⟩
  exact absurd (h.2.1 (by decide)) (by decide +kernel)

end MctraderData.Wal
