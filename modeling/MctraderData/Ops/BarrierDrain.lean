import Mathlib.Algebra.Order.Field.Basic
import Mathlib.Data.Rat.Cast.Order
import MctraderData.Ops.DualWriteWindow

/-!
# mctrader-data — what the drain barrier takes for idle

`drain_and_block` asks the compactor how many tasks are in flight by reading a JSON file
that another process writes. This module opens the reading up: the text of the file,
what `json.loads` makes of it, the `get` and the `int` around it, and the handlers that
turn a failure into a count of zero. The drain loop itself is the one of the window.

A file that is missing counts as idle, as no compactor runs then; so do text that is not
UTF-8 or not JSON, an object without the count, and a count that `int` cuts down to zero
or refuses. Everything else that is not a count leaves `drain_and_block` as an exception.

## Results

* `drainAndBlock_ok_iff` — the contents on which `drain_and_block` returns `ok`.
* `drainAndBlock_ok_of_partial_write` — one of them is a file that is being written.
* `drainAndBlock_sound` — where the file is only ever seen absent or whole, `ok` means that
  there was no file or a count of zero.
-/

namespace MctraderData.Ops

open Lib

/-! ## the state file -/

/-- How `Path.read_text(encoding="utf-8")` fails. -/
inductive ReadExn where
  | fileNotFoundError
  | unicodeDecodeError
  /-- `PermissionError`, `IsADirectoryError`, … -/
  | osError
  | other (name : String)
  | interrupt
deriving DecidableEq, Repr

/-- How `json.loads` fails. -/
inductive LoadsExn where
  | jsonDecodeError
  /-- An integer of more digits than `int` converts. -/
  | valueError
  /-- `RecursionError`, … -/
  | other (name : String)
  | interrupt
deriving DecidableEq, Repr

/-- The exception as the handlers see it: both decode errors are a `ValueError`. -/
def ReadExn.raised : ReadExn → Exn
  | .fileNotFoundError => .fileNotFoundError
  | .unicodeDecodeError => .valueError
  | .osError => .osError
  | .other name => .otherException name
  | .interrupt => .interrupt

def LoadsExn.raised : LoadsExn → Exn
  | .jsonDecodeError | .valueError => .valueError
  | .other name => .otherException name
  | .interrupt => .interrupt

/-- A `float`, as `json.loads` makes them. -/
inductive Float64 where
  | finite (q : ℚ)
  | infinite
  | nan

/-- What `json.loads` returns. -/
inductive Json where
  | null
  | bool (b : Bool)
  | int (n : Int)
  | float (x : Float64)
  | str (s : String)
  | arr (items : List Json)
  | obj (members : List (String × Json))

/-- The two functions of the Python library whose values are taken as given. -/
structure Python where
  /-- `json.loads` -/
  loads : String → Except LoadsExn Json
  /-- `int(s)` of a `str`; `none` where it raises `ValueError`. -/
  intOfStr : String → Option Int

/-- `state.get(key, default)`, which only a `dict` has. -/
def Json.get (state : Json) (key : String) (default : Json) : Except Exn Json :=
  match state with
  | .obj members => .ok ((members.lookup key).getD default)
  | _ => .error (.otherException "AttributeError")

/-- `int(value)` -/
def Python.int (py : Python) : Json → Except Exn Int
  | .null | .arr _ | .obj _ => .error (.otherException "TypeError")
  | .bool b => .ok (if b then 1 else 0)
  | .int n => .ok n
  -- `int` of a float cuts towards zero
  | .float (.finite q) => .ok (q.num.tdiv q.den)
  | .float .infinite => .error (.otherException "OverflowError")
  | .float .nan => .error .valueError
  | .str s =>
    match py.intOfStr s with
    | some n => .ok n
    | none => .error .valueError

/-- The body of the `try` of `_read_in_flight_count`, on the outcome of reading the file. -/
def Python.inFlightCount (py : Python) (read : Except ReadExn String) : Except Exn Int := do
  let content ← read.mapError ReadExn.raised
  let state ← (py.loads content).mapError LoadsExn.raised
  let count ← state.get "in_flight_count" (.int 0)
  py.int count

/-- One turn of the drain loop, with what the file holds. -/
structure Reading where
  read : Except ReadExn String
  readAt : ℚ
  now : ℚ
  sleep : Except Exn Unit := .ok ()

def Reading.poll (py : Python) (r : Reading) : Poll where
  state := py.inFlightCount r.read
  readAt := r.readAt
  now := r.now
  sleep := r.sleep

/-! ## what counts as idle -/

/-- A value of `in_flight_count` that ends as zero. -/
inductive ZeroCount (py : Python) : Json → Prop where
  | zero : ZeroCount py (.int 0)
  | false : ZeroCount py (.bool false)
  | fraction {q : ℚ} (h : |q| < 1) : ZeroCount py (.float (.finite q))
  | nan : ZeroCount py (.float .nan)
  | zeroText {s : String} (h : py.intOfStr s = some 0) : ZeroCount py (.str s)
  | badText {s : String} (h : py.intOfStr s = none) : ZeroCount py (.str s)

/-- A state file that ends as zero tasks in flight. -/
inductive ReadsIdle (py : Python) : Except ReadExn String → Prop where
  | noFile : ReadsIdle py (.error .fileNotFoundError)
  | notUtf8 : ReadsIdle py (.error .unicodeDecodeError)
  | notJson {content : String} {e : LoadsExn} (h : py.loads content = .error e)
      (he : e = .jsonDecodeError ∨ e = .valueError) : ReadsIdle py (.ok content)
  | noCount {content : String} {members : List (String × Json)}
      (h : py.loads content = .ok (.obj members))
      (hcount : members.lookup "in_flight_count" = none) : ReadsIdle py (.ok content)
  | count {content : String} {members : List (String × Json)} {value : Json}
      (h : py.loads content = .ok (.obj members))
      (hcount : members.lookup "in_flight_count" = some value) (hzero : ZeroCount py value) :
      ReadsIdle py (.ok content)

theorem num_tdiv_den_eq_zero_iff (q : ℚ) : q.num.tdiv q.den = 0 ↔ |q| < 1 := by
  have hden : (0 : ℚ) < q.den := by exact_mod_cast q.den_pos
  have habs : |q| = (q.num.natAbs : ℚ) / q.den := by
    nth_rewrite 1 [← Rat.num_div_den q]
    rw [abs_div, abs_of_pos hden, Nat.cast_natAbs, Int.cast_abs]
  rw [habs, div_lt_one hden, Nat.cast_lt, ← Int.natAbs_eq_zero, Int.natAbs_tdiv,
    Int.natAbs_natCast]
  exact Nat.div_eq_zero_iff_lt q.den_pos

/-- The handlers turn exactly a `FileNotFoundError`, a `ValueError` and a `KeyError` into
zero. -/
theorem readInFlightCount_eq_zero_iff {state : Except Exn Int} :
    readInFlightCount state = .ok 0 ↔
      state = .ok 0 ∨ state = .error .fileNotFoundError ∨ state = .error .valueError ∨
        state = .error .keyError := by
  unfold readInFlightCount
  split <;> simp_all

variable {py : Python}

theorem int_eq_zero_iff {value : Json} :
    py.int value = .ok 0 ∨ py.int value = .error .valueError ↔ ZeroCount py value := by
  constructor
  · intro h
    cases value with
    | null | arr items | obj members => simp [Python.int] at h
    | bool b =>
      cases b with
      | false => exact .false
      | true => simp [Python.int] at h
    | int n =>
      have hn : n = 0 := by simpa [Python.int] using h
      exact hn ▸ .zero
    | float x =>
      cases x with
      | finite q =>
        have hq : q.num.tdiv q.den = 0 := by simpa [Python.int] using h
        exact .fraction ((num_tdiv_den_eq_zero_iff q).mp hq)
      | infinite => simp [Python.int] at h
      | nan => exact .nan
    | str s =>
      cases hs : py.intOfStr s with
      | none => exact .badText hs
      | some n =>
        have hn : n = 0 := by simpa [Python.int, hs] using h
        exact .zeroText (hn ▸ hs)
  · rintro (_ | _ | h | _ | h | h)
    · exact Or.inl rfl
    · exact Or.inl rfl
    · exact Or.inl (congrArg Except.ok ((num_tdiv_den_eq_zero_iff _).mpr h))
    · exact Or.inr rfl
    · exact Or.inl (by simp [Python.int, h])
    · exact Or.inr (by simp [Python.int, h])

theorem int_ne_error {value : Json} {e : Exn} (h : py.int value = .error e) :
    e ≠ .fileNotFoundError ∧ e ≠ .keyError := by
  unfold Python.int at h
  split at h
  case h_9 => split at h <;> cases h; exact ⟨nofun, nofun⟩
  all_goals cases h
  all_goals exact ⟨nofun, nofun⟩

section

variable {py : Python} {content : String}

theorem inFlightCount_error (e : ReadExn) : py.inFlightCount (.error e) = .error e.raised := rfl

theorem inFlightCount_of_loads_error {e : LoadsExn} (h : py.loads content = .error e) :
    py.inFlightCount (.ok content) = .error e.raised := by
  show (py.loads content).mapError LoadsExn.raised >>= _ = _
  rw [h]
  rfl

theorem inFlightCount_of_loads_ok {state : Json} (h : py.loads content = .ok state) :
    py.inFlightCount (.ok content) =
      state.get "in_flight_count" (.int 0) >>= py.int := by
  show (py.loads content).mapError LoadsExn.raised >>= _ = _
  rw [h]
  rfl

end

variable {read : Except ReadExn String}

/-- **Idle, as the barrier sees it.** -/
theorem readInFlightCount_idle_iff :
    readInFlightCount (py.inFlightCount read) = .ok 0 ↔ ReadsIdle py read := by
  rw [readInFlightCount_eq_zero_iff]
  constructor
  · intro h
    cases read with
    | error e =>
      rw [inFlightCount_error] at h
      cases e with
      | fileNotFoundError => exact .noFile
      | unicodeDecodeError => exact .notUtf8
      | osError | interrupt | other name => simp [ReadExn.raised] at h
    | ok content =>
      cases hloads : py.loads content with
      | error e =>
        rw [inFlightCount_of_loads_error hloads] at h
        refine .notJson hloads ?_
        cases e with
        | jsonDecodeError => exact Or.inl rfl
        | valueError => exact Or.inr rfl
        | other name | interrupt => simp [LoadsExn.raised] at h
      | ok state =>
        rw [inFlightCount_of_loads_ok hloads] at h
        cases state with
        | obj members =>
          cases hcount : members.lookup "in_flight_count" with
          | none => exact .noCount hloads hcount
          | some value =>
            refine .count hloads hcount (int_eq_zero_iff.mp ?_)
            simp only [Json.get, hcount] at h
            rcases h with h | h | h | h
            · exact Or.inl h
            · exact absurd rfl (int_ne_error h).1
            · exact Or.inr h
            · exact absurd rfl (int_ne_error h).2
        | null | bool b | int n | float x | str s | arr items =>
          rcases h with h | h | h | h <;> cases h
  · rintro (_ | _ | ⟨hloads, he⟩ | ⟨hloads, hcount⟩ | ⟨hloads, hcount, hzero⟩)
    · exact Or.inr (Or.inl rfl)
    · exact Or.inr (Or.inr (Or.inl rfl))
    · rw [inFlightCount_of_loads_error hloads]
      rcases he with rfl | rfl <;> exact Or.inr (Or.inr (Or.inl rfl))
    · rw [inFlightCount_of_loads_ok hloads]
      simp only [Json.get, hcount]
      exact Or.inl rfl
    · rw [inFlightCount_of_loads_ok hloads]
      simp only [Json.get, hcount]
      rcases int_eq_zero_iff.mpr hzero with h | h
      · exact Or.inl h
      · exact Or.inr (Or.inr (Or.inl h))

/-! ## `drain_and_block` -/

/-- A reading before the deadline of a count other than zero, after which the loop
sleeps. -/
def Reading.Waits (py : Python) (cfg : Config) (deadline : ℚ) (r : Reading) : Prop :=
  (r.poll py).Waits cfg deadline

variable {cfg : Config} {readings : List Reading}

/-- The drain loop over readings, in their terms. -/
theorem seenIdle_readings {deadline : ℚ} :
    SeenIdle cfg deadline (readings.map (Reading.poll py)) ↔
      ∃ before r rest, readings = before ++ r :: rest ∧
        (∀ q ∈ before, q.Waits py cfg deadline) ∧ ReadsIdle py r.read := by
  constructor
  · rintro ⟨before, p, rest, hsplit, hbefore, hidle⟩
    obtain ⟨before', rest', rfl, rfl, hrest⟩ := List.map_eq_append_iff.mp hsplit
    obtain ⟨r, rest', rfl, rfl, rfl⟩ := List.map_eq_cons_iff.mp hrest
    refine ⟨before', r, rest', rfl, fun q hq => ?_, readInFlightCount_idle_iff.mp hidle⟩
    exact hbefore _ (List.mem_map_of_mem hq)
  · rintro ⟨before, r, rest, rfl, hbefore, hidle⟩
    refine ⟨before.map (Reading.poll py), r.poll py, rest.map (Reading.poll py), by simp, ?_,
      readInFlightCount_idle_iff.mpr hidle⟩
    intro p hp
    obtain ⟨q, hq, rfl⟩ := List.mem_map.mp hp
    exact hbefore q hq

theorem drainAndBlock_ok_iff_drains (c : Cycle cfg) (f : Frame) :
    (∃ b, (drainAndBlock c).result f = .ok b ∧ b.status = .ok) ↔
      c.mkdirSignal = .ok () ∧ c.Drains := by
  have hwp : Eff.wp (drainAndBlock c) (fun r _ => (∃ b, r = .ok b ∧ b.status = .ok) ↔
      c.mkdirSignal = .ok () ∧ c.Drains) f := by
    simp only [drainAndBlock, emitBarrierSignal, Eff.wp_bind, Eff.wp_lift]
    cases hmkdir : c.mkdirSignal with
    | error e => simp
    | ok u =>
      cases hwrite : c.writeSignal with
      | failed e left =>
        simp only [setSignal, Eff.wp_bind, Eff.wp_modify, Eff.wp_throw]
        simp [Cycle.Drains, hwrite]
      | written =>
        simp only [setSignal, Eff.wp_modify]
        rw [c.drained_ok_iff hwrite]
        simp
  exact hwp

/-- **When the barrier lets the window open.** For any contents of the state file and any
clock: `drain_and_block` returns `ok` exactly when it has set the signal and then, after
readings of a count other than zero before the deadline, finds no file or one that ends
as zero. -/
theorem drainAndBlock_ok_iff (py : Python) {cfg : Config} (c : Cycle cfg) (f : Frame)
    {readings : List Reading} (hpolls : c.polls = readings.map (Reading.poll py)) :
    (∃ b, (drainAndBlock c).result f = .ok b ∧ b.status = .ok) ↔
      c.mkdirSignal = .ok () ∧ c.writeSignal = .written ∧
        ∃ before r rest, readings = before ++ r :: rest ∧
          (∀ q ∈ before, q.Waits py cfg (c.armed + cfg.drainTimeoutSeconds)) ∧
          ReadsIdle py r.read := by
  rw [drainAndBlock_ok_iff_drains, Cycle.Drains, hpolls, seenIdle_readings]

/-- A cycle in which nothing fails outside the drain loop, over the given readings. -/
def cycleOf (py : Python) (readings : List Reading)
    (h : (drainLoop defaultConfig 0 (0 + 86400) (readings.map (Reading.poll py))).isSome) :
    Cycle defaultConfig :=
  { pollOnce ⟨.ok 0, 1, 1, .ok ()⟩ rfl with polls := readings.map (Reading.poll py), ends := h }

/-- A library that reads two state texts, of three tasks in flight and of none, and refuses
others. -/
def stateTexts : Python where
  loads text :=
    if text = "\x7b\"in_flight_count\": 3\x7d" then .ok (.obj [("in_flight_count", .int 3)])
    else if text = "\x7b\"in_flight_count\": 0\x7d" then .ok (.obj [("in_flight_count", .int 0)])
    else .error .jsonDecodeError
  intOfStr _ := none

def threeInFlight (now : ℚ) : Reading := ⟨.ok "\x7b\"in_flight_count\": 3\x7d", now, now, .ok ()⟩

def noneInFlight (now : ℚ) : Reading := ⟨.ok "\x7b\"in_flight_count\": 0\x7d", now, now, .ok ()⟩

/-- Two polls find three tasks in flight and the third none. -/
theorem drainAndBlock_ok_after_two_waits :
    ∃ b, (drainAndBlock (cycleOf stateTexts [threeInFlight 1, threeInFlight 2, noneInFlight 3]
      (by decide +kernel))).result ⟨{}, none, ∅, none, .healthy, ""⟩ = .ok b ∧
        b.status = .ok := by
  refine (drainAndBlock_ok_iff stateTexts _ _ rfl).mpr ⟨rfl, rfl, ?_⟩
  refine ⟨[threeInFlight 1, threeInFlight 2], noneInFlight 3, [], rfl, ?_,
    .count rfl rfl .zero⟩
  intro q hq
  simp only [List.mem_cons, List.not_mem_nil, or_false] at hq
  rcases hq with rfl | rfl <;>
    exact ⟨⟨3, by decide +kernel, by decide⟩, by decide +kernel, by decide +kernel⟩

/-! ## whole and partial files -/

/-- There is no state file, or it holds a count of zero. -/
inductive FoundIdle (py : Python) : Except ReadExn String → Prop where
  | noFile : FoundIdle py (.error .fileNotFoundError)
  | zero {content : String} {members : List (String × Json)}
      (h : py.loads content = .ok (.obj members))
      (hcount : members.lookup "in_flight_count" = some (.int 0)) : FoundIdle py (.ok content)

/-- There is no state file, or it holds a count. -/
inductive WholeFile (py : Python) : Except ReadExn String → Prop where
  | noFile : WholeFile py (.error .fileNotFoundError)
  | count {content : String} {members : List (String × Json)} {n : Int}
      (h : py.loads content = .ok (.obj members))
      (hcount : members.lookup "in_flight_count" = some (.int n)) : WholeFile py (.ok content)

theorem ReadsIdle.found (h : ReadsIdle py read) (hwhole : WholeFile py read) :
    FoundIdle py read := by
  cases hwhole with
  | noFile => exact .noFile
  | count hloads hcount =>
    cases h with
    | notJson hloads' he =>
      simp [hloads] at hloads'
    | noCount hloads' hcount' =>
      rw [hloads] at hloads'
      cases hloads'
      simp [hcount] at hcount'
    | count hloads' hcount' hzero =>
      rw [hloads] at hloads'
      cases hloads'
      rw [hcount] at hcount'
      cases hcount'
      cases hzero
      exact .zero hloads hcount

/-- **Sound over whole files.** If the compactor replaces its state file at once, so that
every reading finds no file or a count, then `ok` means that the signal was set and some
reading after it found no file or a count of zero. -/
theorem drainAndBlock_sound (py : Python) (c : Cycle cfg) (f : Frame)
    (hpolls : c.polls = readings.map (Reading.poll py))
    (hwhole : ∀ r ∈ readings, WholeFile py r.read)
    (hok : ∃ b, (drainAndBlock c).result f = .ok b ∧ b.status = .ok) :
    c.writeSignal = .written ∧ ∃ r ∈ readings, FoundIdle py r.read := by
  obtain ⟨-, hwritten, before, r, rest, hsplit, -, hidle⟩ :=
    (drainAndBlock_ok_iff_drains c f).mp hok |>.imp_right fun h => by
      rwa [Cycle.Drains, hpolls, seenIdle_readings] at h
  have hr : r ∈ readings := by simp [hsplit]
  exact ⟨hwritten, r, hr, hidle.found (hwhole r hr)⟩

/-- Of three polls the last found a count of zero. -/
theorem drainAndBlock_sound_after_two_waits :
    ∃ r ∈ [threeInFlight 1, threeInFlight 2, noneInFlight 3], FoundIdle stateTexts r.read := by
  refine (drainAndBlock_sound stateTexts (cycleOf stateTexts _ (by decide +kernel))
    ⟨{}, none, ∅, none, .healthy, ""⟩ rfl (fun r hr => ?_) ⟨⟨.ok, 3000, 0⟩, ?_, rfl⟩).2
  · simp only [List.mem_cons, List.not_mem_nil, or_false] at hr
    rcases hr with rfl | rfl | rfl <;> exact .count rfl rfl
  · decide +kernel

/-- Three tasks are in flight and the compactor is rewriting its state file: the first
reading sees the old text, the second the beginning of the new one. -/
def partialWrite : List Reading :=
  [threeInFlight 1, ⟨.ok "\x7b\"in_flight_co", 2, 2, .ok ()⟩]

/-- **A partial write opens the window**: no reading found the compactor idle, and
`drain_and_block` returns `ok`. -/
theorem drainAndBlock_ok_of_partial_write :
    (∃ b, (drainAndBlock (cycleOf stateTexts partialWrite (by decide +kernel))).result
        ⟨{}, none, ∅, none, .healthy, ""⟩ = .ok b ∧ b.status = .ok) ∧
      ∀ r ∈ partialWrite, ¬ FoundIdle stateTexts r.read := by
  constructor
  · refine ⟨⟨.ok, 2000, 0⟩, ?_, rfl⟩
    decide +kernel
  · intro r hr hfound
    simp only [partialWrite, List.mem_cons, List.not_mem_nil, or_false] at hr
    rcases hr with rfl | rfl
    · cases hfound with
      | zero hloads hcount =>
        cases hloads
        simp [List.lookup_cons_self] at hcount
    · cases hfound with
      | zero hloads hcount =>
        simp [stateTexts] at hloads

end MctraderData.Ops
