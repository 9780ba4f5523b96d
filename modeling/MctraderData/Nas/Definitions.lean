import Mathlib.Data.Stream.Init
import MctraderData.Lib.Effect
import MctraderData.Lib.FiniteMap
import MctraderData.Nas.Keys
import MctraderData.RetryQueue.Backlog

/-!
# mctrader-data — local files, NAS and the exceptions between them

The world the storage code acts on: the files below the data root, the NAS
bucket, and the retry queue (through its backlog, see `RetryQueue.Backlog`).

The NAS is honest: a HEAD answers from the bucket, an upload stores the bytes and
the sha256 metadata it is given. What is not under the code's control is a stream
of replies, one per request: the request is answered, or the endpoint is
unreachable (an upload may still have landed), or a `ClientError` comes back, or
another exception of the client library is raised. A second stream says which
`unlink` calls of the promotion fail.
-/

namespace MctraderData.Nas

open Lib Eff

/-- A stored object: its bytes and what HEAD reports besides their length. -/
structure Obj (C : Type) [Blob C] where
  body : C
  sha256 : Option (Blob.Digest C)
  etag : String
  versionId : Option String

/-- What comes back from one request to the NAS. -/
inductive Reply where
  | ok (etag : String) (versionId : Option String)
  | unreachable (landed : Bool)
  | clientError (code : String)
  | other

/-- Why `promote_l1` refused to delete. -/
inductive VerifyFailure where
  | head404
  | headClientError (code : String)
  | headUnreachable
  | sha256Mismatch
  | contentLengthMismatch
  | guardMismatch
deriving DecidableEq, Repr

/-- The exceptions that cross the modelled functions. -/
inductive Exn where
  | endpointConnectionError
  | clientError (code : String)
  | botoCoreError
  | conditionalWriteConflict (key : Key)
  | nasOperationalAlert (code reason : String) (key : Key)
  | promotionVerifyError (why : VerifyFailure)
  | fileNotFoundError
  | sameFileError
  | osError
  | valueError
  | runtimeError
  | notImplementedError
  | arrowInvalid
  | invalidOperation
deriving DecidableEq, Repr

/-- `except OSError`: the two subclasses included. -/
def Exn.isOSError : Exn → Bool
  | .fileNotFoundError | .sameFileError | .osError => true
  | _ => false

structure World (C : Type) [Blob C] where
  files : AList fun _ : Path => C
  dirs : List Path
  nas : AList fun _ : Key => Obj C
  retryQueue : Option (RetryQueue.Backlog C)
  replies : Stream' Reply
  unlinkFaults : Stream' Bool

/-- A block of storage code. -/
abbrev Prog (C : Type) [Blob C] := Eff (World C) Exn

variable {C : Type} [Blob C]

/-! ## local files -/

/-- `open("rb")` and read to the end. -/
def readFile (path : Path) : Prog C C := do
  match (← get).files.lookup path with
  | some c => pure c
  | none => throw .fileNotFoundError

def writeFile (path : Path) (c : C) : Prog C Unit :=
  modify fun w => { w with files := w.files.insert path c }

/-- `mkdir(parents=True, exist_ok=True)` -/
def mkdir (dir : Path) : Prog C Unit :=
  modify fun w => { w with dirs := dir :: w.dirs }

/-- The directories known to exist: those made, and those of the files, with
everything above them. -/
def World.dirExists (w : World C) (dir : Path) : Bool :=
  w.dirs.any dir.isPrefixOf || w.files.keys.any fun p => dir.isPrefixOf p.dropLast

/-- `unlink(missing_ok=True)` -/
def unlinkMissingOk (path : Path) : Prog C Unit :=
  modify fun w => { w with files := w.files.erase path }

/-- `unlink(missing_ok=False)`, which the operating system may refuse. -/
def unlink (path : Path) : Prog C Unit := do
  let w ← get
  set { w with unlinkFaults := w.unlinkFaults.tail }
  if w.unlinkFaults.head then throw .osError
  else match w.files.lookup path with
    | none => throw .fileNotFoundError
    | some _ => modify fun w => { w with files := w.files.erase path }

/-- `shutil.copy2`: refuses to copy a file onto itself. -/
def copy2 (src dst : Path) : Prog C Unit := do
  let c ← readFile src
  if src = dst then throw .sameFileError
  else writeFile dst c

/-- `os.replace` -/
def replace (src dst : Path) : Prog C Unit := do
  let c ← readFile src
  unlinkMissingOk src
  writeFile dst c

/-! ## requests to the NAS -/

def nextReply : Prog C Reply := do
  let w ← get
  set { w with replies := w.replies.tail }
  pure w.replies.head

/-- A read request: `answer` if it is answered, the client's exception otherwise. -/
def request {α : Type} (answer : Prog C α) : Prog C α := do
  match ← nextReply with
  | .ok _ _ => answer
  | .unreachable _ => throw .endpointConnectionError
  | .clientError code => throw (.clientError code)
  | .other => throw .botoCoreError

/-- `client.head_object` -/
def clientHeadObject (key : Key) : Prog C (Obj C) := request do
  match (← get).nas.lookup key with
  | some o => pure o
  | none => throw (.clientError "404")

/-- Every page of `client.list_objects_v2` under a prefix, sorted. -/
def clientListObjects (pfx : Key) : Prog C (List Key) := request do
  pure (sortKeys ((← get).nas.keys.filter pfx.isPrefixOf))

/-- The same with a prefix that is a text and may end inside a component. -/
def clientListText (pfx : List Char) : Prog C (List Key) := request do
  pure (sortKeys ((← get).nas.keys.filter fun key => pfx.isPrefixOf (keyText key)))

/-- `client.get_object`, read to the end. -/
def clientGetObject (key : Key) : Prog C C := request do
  match (← get).nas.lookup key with
  | some o => pure o.body
  | none => throw (.clientError "NoSuchKey")

/-- `client.put_object` and `client.upload_fileobj`: the bytes go under `key` with
`Metadata={"sha256": sha256}`. -/
def clientPutObject (key : Key) (body : C) (sha256 : Blob.Digest C) : Prog C String := do
  match ← nextReply with
  | .ok etag versionId =>
    modify fun w => { w with nas := w.nas.insert key ⟨body, some sha256, etag, versionId⟩ }
    pure etag
  | .unreachable landed =>
    if landed then
      modify fun w => { w with nas := w.nas.insert key ⟨body, some sha256, "", none⟩ }
    throw .endpointConnectionError
  | .clientError code => throw (.clientError code)
  | .other => throw .botoCoreError

/-! ## rules for the primitives -/

/-- The world after one more reply was consumed. -/
def World.next (w : World C) : World C := { w with replies := w.replies.tail }

variable {w : World C} {α : Type} {path : Path} {Q : Except Exn C → World C → Prop}

theorem wp_readFile {c : C} (hc : w.files.lookup path = some c) :
    wp (readFile path) Q w ↔ Q (.ok c) w := by
  simp [readFile, hc]

theorem wp_readFile_none (hc : w.files.lookup path = none) :
    wp (readFile path) Q w ↔ Q (.error .fileNotFoundError) w := by
  simp [readFile, hc]

/-- An `unlink` of a present file either removes it or is refused. -/
theorem wp_unlink {c : C} {Q : Except Exn Unit → World C → Prop}
    (hc : w.files.lookup path = some c) (hdone : Q (.ok ())
      { w with files := w.files.erase path, unlinkFaults := w.unlinkFaults.tail })
    (hrefused : Q (.error .osError) { w with unlinkFaults := w.unlinkFaults.tail }) :
    wp (unlink path) Q w := by
  simp only [unlink, wp_bind, wp_get, wp_set]
  cases w.unlinkFaults.head with
  | true => exact hrefused
  | false =>
    simp only [Bool.false_eq_true, if_false, hc]
    exact hdone

/-- What the client raises for a request that is not answered. -/
def Reply.failure : Reply → Option Exn
  | .ok _ _ => none
  | .unreachable _ => some .endpointConnectionError
  | .clientError code => some (.clientError code)
  | .other => some .botoCoreError

theorem wp_request {answer : Prog C α} {Q : Except Exn α → World C → Prop} :
    wp (request answer) Q w ↔
      match w.replies.head.failure with
      | none => wp answer Q w.next
      | some e => Q (.error e) w.next := by
  simp only [request, nextReply, wp_bind, wp_get, wp_set, wp_pure]
  cases w.replies.head <;> rfl

/-- How a HEAD ends. -/
def World.headAnswer (w : World C) (key : Key) : Except Exn (Obj C) :=
  match w.replies.head.failure, w.nas.lookup key with
  | some e, _ => .error e
  | none, some o => .ok o
  | none, none => .error (.clientError "404")

variable {key : Key}

theorem wp_clientHeadObject {Q : Except Exn (Obj C) → World C → Prop} :
    wp (clientHeadObject key) Q w ↔ Q (w.headAnswer key) w.next := by
  rw [clientHeadObject, wp_request, World.headAnswer]
  cases w.replies.head.failure with
  | some e => rfl
  | none =>
    show wp (match w.nas.lookup key with
      | some o => pure o
      | none => throw (.clientError "404")) Q w.next ↔ _
    cases w.nas.lookup key <;> rfl

theorem World.lookup_of_headAnswer {o : Obj C} (h : w.headAnswer key = .ok o) :
    w.nas.lookup key = some o := by
  unfold World.headAnswer at h
  split at h
  · cases h
  · cases h
    assumption
  · cases h

/-- Every request from now on is answered. -/
def Answering (replies : Stream' Reply) : Prop :=
  ∀ n, ∃ etag versionId, replies.get n = .ok etag versionId

theorem Answering.tail {replies : Stream' Reply} (h : Answering replies) :
    Answering replies.tail :=
  fun n => h (n + 1)

theorem Answering.failure {replies : Stream' Reply} (h : Answering replies) :
    replies.head.failure = none := by
  obtain ⟨etag, versionId, hhead⟩ := h 0
  exact congrArg Reply.failure hhead

theorem Answering.const (etag : String) (versionId : Option String) :
    Answering (Stream'.const (.ok etag versionId)) :=
  fun _ => ⟨etag, versionId, rfl⟩

/-- `w'` is `w` after some replies were consumed. -/
def SameButReplies (w w' : World C) : Prop := ∃ n, w' = { w with replies := w.replies.drop n }

/-- Bucket, retry queue and pending faults are the same, and replies were at most
consumed. -/
structure SameStores (w w' : World C) : Prop where
  nas : w'.nas = w.nas
  retryQueue : w'.retryQueue = w.retryQueue
  unlinkFaults : w'.unlinkFaults = w.unlinkFaults
  replies : ∃ n, w'.replies = w.replies.drop n

variable {w' w'' : World C}

theorem SameStores.trans (h : SameStores w w') (h' : SameStores w' w'') : SameStores w w'' where
  nas := h'.nas.trans h.nas
  retryQueue := h'.retryQueue.trans h.retryQueue
  unlinkFaults := h'.unlinkFaults.trans h.unlinkFaults
  replies := by
    obtain ⟨n, hn⟩ := h.replies
    obtain ⟨m, hm⟩ := h'.replies
    exact ⟨n + m, by rw [hm, hn, Stream'.drop_drop]⟩

namespace SameButReplies

theorem refl (w : World C) : SameButReplies w w := ⟨0, rfl⟩

theorem next (w : World C) : SameButReplies w w.next := ⟨1, rfl⟩

variable (h : SameButReplies w w')
include h

theorem trans (h' : SameButReplies w' w'') : SameButReplies w w'' := by
  obtain ⟨n, rfl⟩ := h
  obtain ⟨m, rfl⟩ := h'
  exact ⟨n + m, by rw [Stream'.drop_drop]⟩

theorem files : w'.files = w.files := by
  obtain ⟨n, rfl⟩ := h
  rfl

theorem dirs : w'.dirs = w.dirs := by
  obtain ⟨n, rfl⟩ := h
  rfl

theorem stores : SameStores w w' := by
  obtain ⟨n, rfl⟩ := h
  exact ⟨rfl, rfl, rfl, n, rfl⟩

end SameButReplies

/-- A read request through a spec of its answer; an exception of the client is
excluded while every request is answered. -/
theorem wp_request_of {answer : Prog C α} {Q : Except Exn α → World C → Prop}
    (hanswer : wp answer Q w.next)
    (hraise : ∀ e, ¬ Answering w.replies → Q (.error e) w.next) :
    wp (request answer) Q w := by
  rw [wp_request]
  cases hfailure : w.replies.head.failure with
  | none => exact hanswer
  | some e => exact hraise e fun hans => by cases hans.failure.symm.trans hfailure

theorem wp_clientPutObject {body : C} {sha256 : Blob.Digest C}
    {Q : Except Exn String → World C → Prop} :
    wp (clientPutObject key body sha256) Q w ↔
      match w.replies.head with
      | .ok etag versionId => Q (.ok etag)
          { w.next with nas := w.nas.insert key ⟨body, some sha256, etag, versionId⟩ }
      | .unreachable landed => Q (.error .endpointConnectionError)
          (if landed then { w.next with nas := w.nas.insert key ⟨body, some sha256, "", none⟩ }
            else w.next)
      | .clientError code => Q (.error (.clientError code)) w.next
      | .other => Q (.error .botoCoreError) w.next := by
  simp only [clientPutObject, nextReply, wp_bind, wp_get, wp_set, wp_pure]
  cases w.replies.head with
  | unreachable landed => cases landed <;> rfl
  | _ => rfl

/-- The stored sha256 metadata are the hashes of the stored bytes. -/
def Truthful (w : World C) : Prop :=
  ∀ key o s, w.nas.lookup key = some o → o.sha256 = some s → s = Blob.sha256 o.body

theorem Truthful.of_nas (h : Truthful w) (hnas : w'.nas = w.nas) : Truthful w' := by
  rwa [Truthful, hnas]

/-- A bucket with one object is honest if that object is. -/
theorem truthful_singleton {o : Obj C} (hnas : w.nas = AList.singleton key o)
    (h : ∀ s, o.sha256 = some s → s = Blob.sha256 o.body) : Truthful w := by
  intro k o' s ho hs
  rw [hnas] at ho
  obtain ⟨-, rfl⟩ := lookup_singleton_eq_some ho
  exact h s hs

/-- The object at `key` has exactly the bytes `c`. -/
def HoldsNas (w : World C) (key : Key) (c : C) : Prop :=
  ∃ o, w.nas.lookup key = some o ∧ o.body = c

/-- The retry queue holds an item for `key` with payload `c`. -/
def HoldsQueue (w : World C) (key : Key) (c : C) : Prop :=
  ∃ q, w.retryQueue = some q ∧ ∃ item ∈ q.items, item.key = key ∧ item.data = c

end MctraderData.Nas
