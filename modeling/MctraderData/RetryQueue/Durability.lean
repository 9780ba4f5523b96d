import MctraderData.RetryQueue.Definitions

/-!
# mctrader-data — the retry queue loses nothing

`enqueue` writes the payload before the row and `drain` deletes the row before
the payload, so between any two durable steps every row has its payload: the
only leftovers a crash can leave are payload files without a row. The invariant
`Inv` says so, and ties each running call to what it has established so far.

## Results

* `queue_keeps_acked_items` — in every reachable state, crashes included: an
  item `enqueue` acknowledged is stored with its payload or was put; every row
  has its payload; the table stays within the hard floor.
-/

namespace MctraderData.RetryQueue

open Lib

variable {C : Type} [Blob C]

/-! ## what the guarantees say -/

/-- The item is in the table under `itemId`, with its payload. -/
def Stored (S : Store C) (itemId : String) (item : Item C) : Prop :=
  ∃ r ∈ S.rows, r.id = itemId ∧ (r.state = .pending ∨ r.state = .quarantined) ∧
    r.key = item.key ∧ r.sha256 = item.sha256 ∧
    S.payloads.lookup r.payloadFile = some item.data

/-- An uploader put of exactly this item, made for this row, returned a status
other than `queued`. -/
def Delivered (puts : List (String × Item C × PutStatus)) (itemId : String)
    (item : Item C) : Prop :=
  ∃ status, (itemId, item, status) ∈ puts ∧ status ≠ .queued

/-! ## the invariant -/

/-- The table and the payload directory agree. -/
structure StoreOk (cfg : Config) (s : St C) : Prop where
  idsNodup : (s.store.rows.map Row.id).Nodup
  rowFile : ∀ r ∈ s.store.rows, r.payloadFile = payloadFilename r.id
  rowInserted : ∀ r ∈ s.store.rows, r.id ∈ s.inserted
  insertedIssued : ∀ i ∈ s.inserted, i ∈ s.issued
  rowPayload : ∀ r ∈ s.store.rows, (s.store.payloads.lookup (payloadFilename r.id)).isSome
  floor : s.store.rows.length ≤ cfg.hardFloor

/-- What a running `enqueue` has established. -/
def EnqOk (cfg : Config) (s : St C) : Prop :=
  match s.enq with
  | .idle => True
  | .demote _ => s.store.rows.length < cfg.hardFloor
  | .save _ => s.store.rows.length < cfg.hardFloor
  | .insert item itemId =>
    s.store.rows.length < cfg.hardFloor ∧ itemId ∉ s.inserted ∧ itemId ∈ s.issued ∧
      s.store.payloads.lookup (payloadFilename itemId) = some item.data
  | .cleanup itemId => itemId ∉ s.inserted ∧ itemId ∈ s.issued
  | .ret item itemId => Stored s.store itemId item ∨ Delivered s.puts itemId item

/-- A row of a snapshot: if it is still in the table, it names the same item. -/
structure SnapOk (s : St C) (r : Row C) : Prop where
  inserted : r.id ∈ s.inserted
  file : r.payloadFile = payloadFilename r.id
  agrees : ∀ r' ∈ s.store.rows, r'.id = r.id → r'.key = r.key ∧ r'.sha256 = r.sha256

/-- `data` is the payload of row `r` for as long as the row exists. -/
def PayloadIs (s : St C) (r : Row C) (data : C) : Prop :=
  (∃ r' ∈ s.store.rows, r'.id = r.id) →
    s.store.payloads.lookup (payloadFilename r.id) = some data

/-- What the loop body of a running `drain` has established. -/
def StageOk (s : St C) : DrainStage C → Prop
  | .next => True
  | .put r data => SnapOk s r ∧ PayloadIs s r data
  | .delete r => SnapOk s r ∧ ∃ data, PayloadIs s r data ∧ Delivered s.puts r.id (r.item data)
  | .unlink r => SnapOk s r ∧ ∀ r' ∈ s.store.rows, r'.id ≠ r.id

def DrainOk (s : St C) : Prop :=
  match s.drn with
  | .idle => True
  | .loop _ todo stage _ => (∀ r ∈ todo, SnapOk s r) ∧ StageOk s stage

structure Inv (cfg : Config) (s : St C) : Prop where
  store : StoreOk cfg s
  acked : ∀ p ∈ s.acked, Stored s.store p.1 p.2 ∨ Delivered s.puts p.1 p.2
  enq : EnqOk cfg s
  drn : DrainOk s

/-! ## the table's statements -/

theorem payloadFilename_inj {a b : String} : payloadFilename a = payloadFilename b ↔ a = b :=
  String.append_left_inj ".bin"

theorem totalActive_eq_length (rows : List (Row C)) : totalActive rows = rows.length := by
  refine List.countP_eq_length.mpr fun r _ => ?_
  cases r.state <;> simp

variable {rows : List (Row C)} {r : Row C}

/-- A SELECT returns rows of the table. -/
theorem mem_selectState {st : RowState} (h : r ∈ selectState rows st) : r ∈ rows := by
  unfold selectState at h
  rw [List.mem_insertionSort] at h
  exact List.mem_of_mem_filter h

/-- Two tables with the same rows up to the `state` column. -/
def SameUpToState (rows rows' : List (Row C)) : Prop :=
  rows'.map (fun r => { r with state := .pending }) =
    rows.map (fun r => { r with state := .pending })

theorem quarantineOldestLocked_same (rows : List (Row C)) :
    SameUpToState rows (quarantineOldestLocked rows) := by
  unfold quarantineOldestLocked SameUpToState
  cases selectState rows .pending with
  | nil => rfl
  | cons r _ =>
    simp only [setQuarantined, List.map_map]
    refine List.map_congr_left fun x _ => ?_
    by_cases hx : x.id = r.id <;> simp [hx]

variable {rows' : List (Row C)}

section

variable (h : SameUpToState rows rows')
include h

theorem SameUpToState.mem {r' : Row C} (hr : r' ∈ rows') :
    ∃ r ∈ rows, r.id = r'.id ∧ r.key = r'.key ∧ r.sha256 = r'.sha256 ∧
      r.payloadFile = r'.payloadFile := by
  have hmem : ({ r' with state := .pending } : Row C) ∈
      rows.map (fun r => { r with state := .pending }) :=
    h ▸ List.mem_map_of_mem hr
  obtain ⟨r, hr', heq⟩ := List.mem_map.mp hmem
  rw [Row.mk.injEq] at heq
  exact ⟨r, hr', heq.1, heq.2.1, heq.2.2.1, heq.2.2.2.1⟩

theorem SameUpToState.symm : SameUpToState rows' rows :=
  Eq.symm h

/-- Whatever does not read the `state` column is the same in both tables. -/
theorem SameUpToState.map_eq {α : Type} (f : Row C → α)
    (hf : ∀ r : Row C, f { r with state := .pending } = f r) : rows'.map f = rows.map f := by
  have := congrArg (List.map f) h
  simpa [List.map_map, Function.comp_def, hf] using this

theorem SameUpToState.ids : rows'.map Row.id = rows.map Row.id :=
  h.map_eq Row.id fun _ => rfl

theorem SameUpToState.length : rows'.length = rows.length := by
  have := congrArg List.length h
  simpa using this

end

/-! ## what any step may do to the store -/

/-- The change a step makes, seen from a row: surviving rows keep their item and
payload, a row that goes was delivered, and new rows have new ids. -/
structure Frame (s s' : St C) : Prop where
  inserted : ∀ i ∈ s.inserted, i ∈ s'.inserted
  puts : ∀ p ∈ s.puts, p ∈ s'.puts
  origin : ∀ r' ∈ s'.store.rows, r'.id ∈ s.inserted →
    (∃ r ∈ s.store.rows, r.id = r'.id ∧ r.key = r'.key ∧ r.sha256 = r'.sha256) ∧
      s'.store.payloads.lookup (payloadFilename r'.id) =
        s.store.payloads.lookup (payloadFilename r'.id)
  kept : ∀ r ∈ s.store.rows,
    (∃ r' ∈ s'.store.rows, r'.id = r.id ∧ r'.key = r.key ∧ r'.sha256 = r.sha256) ∨
      ∃ data, s.store.payloads.lookup (payloadFilename r.id) = some data ∧
        Delivered s'.puts r.id (r.item data)

variable {s s' : St C}

/-- A step that touches neither the store nor the put history's past. -/
theorem Frame.of_store_eq (hstore : s'.store = s.store) (hins : s'.inserted = s.inserted)
    (hputs : ∀ p ∈ s.puts, p ∈ s'.puts) : Frame s s' where
  inserted i hi := hins ▸ hi
  puts := hputs
  origin r' hr' _ := by
    rw [hstore] at hr' ⊢
    exact ⟨⟨r', hr', rfl, rfl, rfl⟩, rfl⟩
  kept r hr := Or.inl ⟨r, hstore ▸ hr, rfl, rfl, rfl⟩

theorem Frame.snapOk (hF : Frame s s') (h : SnapOk s r) :
    SnapOk s' r where
  inserted := hF.inserted _ h.inserted
  file := h.file
  agrees r' hr' hid := by
    obtain ⟨⟨r₀, hr₀, hid₀, hkey, hsha⟩, -⟩ := hF.origin r' hr' (hid ▸ h.inserted)
    obtain ⟨hk, hs⟩ := h.agrees r₀ hr₀ (hid₀.trans hid)
    exact ⟨hkey ▸ hk, hsha ▸ hs⟩

theorem Frame.payloadIs (hF : Frame s s') {data : C} (hins : r.id ∈ s.inserted)
    (h : PayloadIs s r data) : PayloadIs s' r data := by
  rintro ⟨r', hr', hid⟩
  obtain ⟨⟨r₀, hr₀, hid₀, -, -⟩, hlook⟩ := hF.origin r' hr' (hid ▸ hins)
  rw [← hid, hlook, hid]
  exact h ⟨r₀, hr₀, hid₀.trans hid⟩

variable {i : String} {item : Item C}

theorem Delivered.mono {puts puts' : List (String × Item C × PutStatus)}
    (hsub : ∀ p ∈ puts, p ∈ puts') (h : Delivered puts i item) : Delivered puts' i item := by
  obtain ⟨status, hmem, hne⟩ := h
  exact ⟨status, hsub _ hmem, hne⟩

theorem Frame.stageOk (hF : Frame s s') {stage : DrainStage C} (h : StageOk s stage) :
    StageOk s' stage := by
  cases stage with
  | next => trivial
  | put r data =>
    obtain ⟨hsnap, hdata⟩ := h
    exact ⟨hF.snapOk hsnap, hF.payloadIs hsnap.inserted hdata⟩
  | delete r =>
    obtain ⟨hsnap, data, hdata, hdel⟩ := h
    exact ⟨hF.snapOk hsnap, data, hF.payloadIs hsnap.inserted hdata, hdel.mono hF.puts⟩
  | unlink r =>
    obtain ⟨hsnap, hgone⟩ := h
    refine ⟨hF.snapOk hsnap, fun r' hr' hid => ?_⟩
    obtain ⟨⟨r₀, hr₀, hid₀, -, -⟩, -⟩ := hF.origin r' hr' (hid ▸ hsnap.inserted)
    exact hgone r₀ hr₀ (hid₀.trans hid)

/-- The running `drain` keeps what it has established. -/
theorem Frame.drainOk (hF : Frame s s') (hdrn : s'.drn = s.drn) (h : DrainOk s) : DrainOk s' := by
  unfold DrainOk at h ⊢
  rw [hdrn]
  cases hd : s.drn with
  | idle => trivial
  | loop cycle todo stage stats =>
    rw [hd] at h
    obtain ⟨htodo, hstage⟩ := h
    exact ⟨fun r hr => hF.snapOk (htodo r hr), hF.stageOk hstage⟩

variable {cfg : Config}

/-- A stored or delivered item stays stored or becomes delivered. -/
theorem Frame.storedOrDelivered (hF : Frame s s') (hOk : StoreOk cfg s) (hOk' : StoreOk cfg s')
    (h : Stored s.store i item ∨ Delivered s.puts i item) :
    Stored s'.store i item ∨ Delivered s'.puts i item := by
  rcases h with ⟨r, hr, hid, -, hkey, hsha, hlook⟩ | hdel
  · rw [hOk.rowFile r hr] at hlook
    rcases hF.kept r hr with ⟨r', hr', hid', hkey', hsha'⟩ | ⟨data, hdata, hdel⟩
    · have hins : r'.id ∈ s.inserted := hid' ▸ hOk.rowInserted r hr
      have hpay := (hF.origin r' hr' hins).2
      refine Or.inl ⟨r', hr', hid'.trans hid, ?_, hkey'.trans hkey, hsha'.trans hsha, ?_⟩
      · cases r'.state <;> simp
      · rw [hOk'.rowFile r' hr', hpay, hid', hlook]
    · -- the row went because this very item was put
      rw [hlook, Option.some.injEq] at hdata
      have hitem : r.item data = item := by
        rw [Row.item, ← hdata, hkey, hsha]
      exact Or.inr (hid ▸ hitem ▸ hdel)
  · exact Or.inr (hdel.mono hF.puts)

/-- The running `enqueue` keeps what it has established while `drain` steps. -/
theorem Frame.enqOk (hF : Frame s s') (hOk : StoreOk cfg s) (hOk' : StoreOk cfg s')
    (henq : s'.enq = s.enq) (hins : s'.inserted = s.inserted) (hiss : s'.issued = s.issued)
    (hlen : s'.store.rows.length ≤ s.store.rows.length)
    (hpay : ∀ i, i ∉ s.inserted → s'.store.payloads.lookup (payloadFilename i) =
      s.store.payloads.lookup (payloadFilename i)) (h : EnqOk cfg s) : EnqOk cfg s' := by
  unfold EnqOk at h ⊢
  rw [henq]
  cases he : s.enq with
  | idle => trivial
  | demote item =>
    simp only [he] at h
    exact lt_of_le_of_lt hlen h
  | save item =>
    simp only [he] at h
    exact lt_of_le_of_lt hlen h
  | insert item itemId =>
    simp only [he] at h
    obtain ⟨hlt, hnot, hissued, hlook⟩ := h
    refine ⟨lt_of_le_of_lt hlen hlt, hins ▸ hnot, hiss ▸ hissued, ?_⟩
    rw [hpay itemId hnot, hlook]
  | cleanup itemId =>
    simp only [he] at h
    exact ⟨hins ▸ h.1, hiss ▸ h.2⟩
  | ret item itemId =>
    simp only [he] at h
    exact hF.storedOrDelivered hOk hOk' h

theorem Inv.of_frame (hI : Inv cfg s) (hF : Frame s s') (hOk' : StoreOk cfg s')
    (hacked : s'.acked = s.acked) (hEnq : EnqOk cfg s') (hDrn : DrainOk s') : Inv cfg s' where
  store := hOk'
  acked p hp := hF.storedOrDelivered hI.store hOk' (hI.acked p (hacked ▸ hp))
  enq := hEnq
  drn := hDrn

/-! ## the five changes of the store -/

variable {e : EnqPc C}

/-- Demoting the oldest pending row changes no item. -/
theorem frame_quarantineOldest :
    Frame s { s with
      store := { s.store with rows := quarantineOldestLocked s.store.rows }, enq := e } where
  inserted _ hi := hi
  puts _ hp := hp
  origin r' hr' _ := by
    obtain ⟨r, hr, hid, hkey, hsha, -⟩ := (quarantineOldestLocked_same _).mem hr'
    exact ⟨⟨r, hr, hid, hkey, hsha⟩, rfl⟩
  kept r hr := by
    obtain ⟨r', hr', hid, hkey, hsha, -⟩ := (quarantineOldestLocked_same _).symm.mem hr
    exact Or.inl ⟨r', hr', hid, hkey, hsha⟩

theorem storeOk_quarantineOldest (h : StoreOk cfg s) :
    StoreOk cfg { s with
      store := { s.store with rows := quarantineOldestLocked s.store.rows }, enq := e } where
  idsNodup := by
    show ((quarantineOldestLocked s.store.rows).map Row.id).Nodup
    rw [(quarantineOldestLocked_same _).ids]
    exact h.idsNodup
  rowFile r' hr' := by
    obtain ⟨r, hr, hid, -, -, hfile⟩ := (quarantineOldestLocked_same _).mem hr'
    rw [← hfile, h.rowFile r hr, hid]
  rowInserted r' hr' := by
    obtain ⟨r, hr, hid, -, -, -⟩ := (quarantineOldestLocked_same _).mem hr'
    exact hid ▸ h.rowInserted r hr
  insertedIssued := h.insertedIssued
  rowPayload r' hr' := by
    obtain ⟨r, hr, hid, -, -, -⟩ := (quarantineOldestLocked_same _).mem hr'
    exact hid ▸ h.rowPayload r hr
  floor := by
    show (quarantineOldestLocked s.store.rows).length ≤ _
    rw [(quarantineOldestLocked_same _).length]
    exact h.floor

/-- Changing payload files that belong to no row, under whatever ids. -/
theorem frame_payloads (s' : St C) (hrows : s'.store.rows = s.store.rows)
    (hins : s'.inserted = s.inserted) (hputs : s'.puts = s.puts)
    (hpay : ∀ r ∈ s.store.rows, s'.store.payloads.lookup (payloadFilename r.id) =
      s.store.payloads.lookup (payloadFilename r.id)) : Frame s s' where
  inserted i hi := hins ▸ hi
  puts p hp := hputs ▸ hp
  origin r' hr' _ := by
    rw [hrows] at hr'
    exact ⟨⟨r', hr', rfl, rfl, rfl⟩, hpay r' hr'⟩
  kept r hr := Or.inl ⟨r, hrows ▸ hr, rfl, rfl, rfl⟩

theorem storeOk_payloads (h : StoreOk cfg s) (hrows : s'.store.rows = s.store.rows)
    (hins : s'.inserted = s.inserted) (hiss : ∀ i ∈ s.issued, i ∈ s'.issued)
    (hpay : ∀ r ∈ s.store.rows, s'.store.payloads.lookup (payloadFilename r.id) =
      s.store.payloads.lookup (payloadFilename r.id)) : StoreOk cfg s' where
  idsNodup := hrows ▸ h.idsNodup
  rowFile := hrows ▸ h.rowFile
  rowInserted := by
    rw [hrows, hins]
    exact h.rowInserted
  insertedIssued i hi := hiss i (h.insertedIssued i (hins ▸ hi))
  rowPayload r hr := by
    rw [hrows] at hr
    rw [hpay r hr]
    exact h.rowPayload r hr
  floor := hrows ▸ h.floor

/-- The INSERT of a row under a new id whose payload is on disk. -/
theorem frame_insertRow {itemId : String} {ts : Nat} (hnew : itemId ∉ s.inserted) :
    Frame s { s with
      store := { s.store with rows := s.store.rows ++ [newRow item itemId ts] }
      enq := e, inserted := itemId :: s.inserted } where
  inserted i hi := List.mem_cons_of_mem _ hi
  puts _ hp := hp
  origin r' hr' hins := by
    rcases List.mem_append.mp hr' with hr' | hr'
    · exact ⟨⟨r', hr', rfl, rfl, rfl⟩, rfl⟩
    · rw [List.mem_singleton] at hr'
      subst hr'
      exact absurd hins hnew
  kept r hr := Or.inl ⟨r, List.mem_append_left _ hr, rfl, rfl, rfl⟩

theorem storeOk_insertRow {itemId : String} {ts : Nat} (h : StoreOk cfg s)
    (hnew : itemId ∉ s.inserted) (hiss : itemId ∈ s.issued)
    (hlt : s.store.rows.length < cfg.hardFloor)
    (hlook : s.store.payloads.lookup (payloadFilename itemId) = some item.data) :
    StoreOk cfg { s with
      store := { s.store with rows := s.store.rows ++ [newRow item itemId ts] }
      enq := e, inserted := itemId :: s.inserted } where
  idsNodup := by
    rw [List.map_append, List.nodup_append']
    refine ⟨h.idsNodup, List.nodup_singleton _, ?_⟩
    simp only [List.map_cons, List.map_nil, List.disjoint_singleton]
    intro hmem
    obtain ⟨r, hr, hid⟩ := List.mem_map.mp hmem
    have hid : r.id = itemId := hid
    exact hnew (hid ▸ h.rowInserted r hr)
  rowFile r hr := by
    rcases List.mem_append.mp hr with hr | hr
    · exact h.rowFile r hr
    · rw [List.mem_singleton.mp hr]
      rfl
  rowInserted r hr := by
    rcases List.mem_append.mp hr with hr | hr
    · exact List.mem_cons_of_mem _ (h.rowInserted r hr)
    · rw [List.mem_singleton.mp hr]
      exact List.mem_cons_self ..
  insertedIssued i hi := by
    rcases List.mem_cons.mp hi with rfl | hi
    · exact hiss
    · exact h.insertedIssued i hi
  rowPayload r hr := by
    rcases List.mem_append.mp hr with hr | hr
    · exact h.rowPayload r hr
    · rw [List.mem_singleton.mp hr]
      show (s.store.payloads.lookup (payloadFilename itemId)).isSome
      rw [hlook]
      rfl
  floor := by
    show (s.store.rows ++ [newRow item itemId ts]).length ≤ _
    rw [List.length_append, List.length_singleton]
    exact hlt

/-- The DELETE of a row whose item was put. -/
theorem frame_deleteRow {d : DrainPc C} (hdel : ∀ r ∈ s.store.rows, r.id = i →
      ∃ data, s.store.payloads.lookup (payloadFilename r.id) = some data ∧
      Delivered s.puts r.id (r.item data)) :
    Frame s { s with store := { s.store with rows := deleteRow s.store.rows i }, drn := d } where
  inserted _ hi := hi
  puts _ hp := hp
  origin r' hr' _ := ⟨⟨r', List.mem_of_mem_filter hr', rfl, rfl, rfl⟩, rfl⟩
  kept r hr := by
    by_cases hid : r.id = i
    · exact Or.inr (hdel r hr hid)
    · exact Or.inl ⟨r, List.mem_filter.mpr ⟨hr, by simpa using hid⟩, rfl, rfl, rfl⟩

section

variable (h : StoreOk cfg s)
include h

theorem storeOk_deleteRow {d : DrainPc C} :
    StoreOk cfg
      { s with store := { s.store with rows := deleteRow s.store.rows i }, drn := d } where
  idsNodup := h.idsNodup.sublist (List.filter_sublist.map _)
  rowFile r hr := h.rowFile r (List.mem_of_mem_filter hr)
  rowInserted r hr := h.rowInserted r (List.mem_of_mem_filter hr)
  insertedIssued := h.insertedIssued
  rowPayload r hr := h.rowPayload r (List.mem_of_mem_filter hr)
  floor := le_trans (List.length_filter_le _ _) h.floor

/-! ## preservation, step by step -/

/-- A step that changes only the program counters and the put history. -/
theorem StoreOk.of_store_eq (hstore : s'.store = s.store) (hins : s'.inserted = s.inserted)
    (hiss : s'.issued = s.issued) : StoreOk cfg s' :=
  storeOk_payloads h (by rw [hstore]) hins (fun i hi => hiss ▸ hi) (fun r _ => by rw [hstore])

/-- A file named by an id that no row had so far belongs to no row. -/
theorem StoreOk.payloadFilename_ne (hi : i ∉ s.inserted) (hr : r ∈ s.store.rows) :
    payloadFilename r.id ≠ payloadFilename i := by
  intro heq
  have hid : r.id = i := payloadFilename_inj.mp heq
  exact hi (hid ▸ h.rowInserted r hr)

theorem StoreOk.not_inserted_of_fresh (hi : i ∉ s.issued) : i ∉ s.inserted :=
  fun hins => hi (h.insertedIssued i hins)

/-- Writing a file under an id that no row had so far leaves the rows their payloads. -/
theorem StoreOk.lookup_insert_new (hi : i ∉ s.inserted) (data : C) (hr : r ∈ s.store.rows) :
    (s.store.payloads.insert (payloadFilename i) data).lookup (payloadFilename r.id) =
      s.store.payloads.lookup (payloadFilename r.id) :=
  AList.lookup_insert_ne (h.payloadFilename_ne hi hr)

theorem StoreOk.lookup_leftBehind (hi : i ∉ s.inserted) (partialData : Option C)
    (hr : r ∈ s.store.rows) :
    (leftBehind s.store.payloads i partialData).lookup (payloadFilename r.id) =
      s.store.payloads.lookup (payloadFilename r.id) := by
  cases partialData with
  | none => rfl
  | some data => exact h.lookup_insert_new hi data hr

/-- The same for the handler that unlinks such a file, or fails to. -/
theorem StoreOk.lookup_cleanup (hi : i ∉ s.inserted) (unlinked : Bool) (hr : r ∈ s.store.rows) :
    (if unlinked then s.store.payloads.erase (payloadFilename i)
      else s.store.payloads).lookup (payloadFilename r.id) =
      s.store.payloads.lookup (payloadFilename r.id) := by
  cases unlinked with
  | false => rfl
  | true => exact AList.lookup_erase_ne (h.payloadFilename_ne hi hr)

end

/-- Unlinking the file of a snapshot's row touches no file of another id. -/
theorem SnapOk.lookup_unlink (h : SnapOk s r) (hi : i ≠ r.id) :
    (s.store.payloads.erase r.payloadFile).lookup (payloadFilename i) =
      s.store.payloads.lookup (payloadFilename i) := by
  refine AList.lookup_erase_ne fun heq => hi ?_
  rw [h.file] at heq
  exact payloadFilename_inj.mp heq

theorem enqueueEntry_ok (item : Item C) :
    EnqOk cfg { s with enq := (enqueueEntry cfg s.store.rows item).2 } := by
  unfold enqueueEntry EnqOk
  rw [totalActive_eq_length]
  by_cases hfloor : cfg.hardFloor ≤ s.store.rows.length
  · simp [hfloor]
  · have hlt : s.store.rows.length < cfg.hardFloor := by omega
    by_cases hthr : thresholdBreached cfg s.store.rows (Blob.size item.data) <;>
      simp [hfloor, hthr, hlt]

/-- A row a SELECT of the present table returned. -/
theorem StoreOk.snapOk (h : StoreOk cfg s) {st : RowState} (hr : r ∈ selectState s.store.rows st) :
    SnapOk s r where
  inserted := h.rowInserted r (mem_selectState hr)
  file := h.rowFile r (mem_selectState hr)
  agrees r' hr' hid := by
    have heq : r' = r := List.inj_on_of_nodup_map h.idsNodup hr' (mem_selectState hr) hid
    rw [heq]
    exact ⟨rfl, rfl⟩

/-- Drain steps that leave the store alone: they move the program counter and may
append to the put history. -/
theorem Inv.drainStep (hI : Inv cfg s) {cycle : RowState} {todo : List (Row C)}
    {stage : DrainStage C} {stats : DrainStats} {puts : List (String × Item C × PutStatus)}
    (hputs : ∀ p ∈ s.puts, p ∈ puts) (htodo : ∀ r ∈ todo, SnapOk s r)
    (hstage : StageOk { s with puts := puts } stage) :
    Inv cfg { s with drn := .loop cycle todo stage stats, puts := puts } := by
  have hF : Frame s { s with drn := .loop cycle todo stage stats, puts := puts } :=
    Frame.of_store_eq rfl rfl hputs
  have hOk' : StoreOk cfg { s with drn := .loop cycle todo stage stats, puts := puts } :=
    hI.store.of_store_eq rfl rfl rfl
  refine hI.of_frame hF hOk' rfl
    (hF.enqOk hI.store hOk' rfl rfl rfl le_rfl (fun _ _ => rfl) hI.enq) ?_
  have hpc : Frame { s with puts := puts }
      { s with drn := .loop cycle todo stage stats, puts := puts } :=
    Frame.of_store_eq rfl rfl fun _ hp => hp
  exact ⟨fun r hr => hF.snapOk (htodo r hr), hpc.stageOk hstage⟩

theorem Inv.drainNext (hI : Inv cfg s) {cycle : RowState} {todo : List (Row C)}
    {stats : DrainStats} (htodo : ∀ r ∈ todo, SnapOk s r) :
    Inv cfg { s with drn := .loop cycle todo .next stats } :=
  hI.drainStep (fun _ hp => hp) htodo trivial

/-- A step that changes at most payload files of no row. -/
theorem Inv.payloadStep (hI : Inv cfg s) (hrows : s'.store.rows = s.store.rows)
    (hins : s'.inserted = s.inserted) (hputs : s'.puts = s.puts) (hacked : s'.acked = s.acked)
    (hiss : ∀ i ∈ s.issued, i ∈ s'.issued)
    (hpay : ∀ r ∈ s.store.rows, s'.store.payloads.lookup (payloadFilename r.id) =
      s.store.payloads.lookup (payloadFilename r.id))
    (hEnq : Frame s s' → StoreOk cfg s' → EnqOk cfg s') (hDrn : Frame s s' → DrainOk s') :
    Inv cfg s' := by
  have hF : Frame s s' := frame_payloads s' hrows hins hputs hpay
  have hOk' : StoreOk cfg s' := storeOk_payloads hI.store hrows hins hiss hpay
  exact hI.of_frame hF hOk' hacked (hEnq hF hOk') (hDrn hF)

/-- **What one step does**, with the program counter it starts from. -/
inductive QueueStep (cfg : Config) (s : St C) : Action C → St C → Prop where
  | enqueue (item : Item C) (hpc : s.enq = .idle) :
      QueueStep cfg s (.enqueue item) { s with enq := (enqueueEntry cfg s.store.rows item).2 }
  | quarantineOldest {item : Item C} (hpc : s.enq = .demote item) :
      QueueStep cfg s .quarantineOldest { s with
        store := { s.store with rows := quarantineOldestLocked s.store.rows }
        enq := .save item }
  | savePayload {item : Item C} {itemId : String} (hpc : s.enq = .save item)
      (hfresh : itemId ∉ s.issued) :
      QueueStep cfg s (.savePayload itemId) { s with
        store := { s.store with
          payloads := s.store.payloads.insert (payloadFilename itemId) item.data }
        enq := .insert item itemId
        issued := itemId :: s.issued }
  | savePayloadRaises {item : Item C} {itemId : String} (partialData : Option C)
      (hpc : s.enq = .save item) (hfresh : itemId ∉ s.issued) :
      QueueStep cfg s (.savePayloadRaises itemId partialData) { s with
        store := { s.store with payloads := leftBehind s.store.payloads itemId partialData }
        enq := .idle
        issued := itemId :: s.issued }
  | insertRow {item : Item C} {itemId : String} (ts : Nat) (hpc : s.enq = .insert item itemId) :
      QueueStep cfg s (.insertRow ts) { s with
        store := { s.store with rows := s.store.rows ++ [newRow item itemId ts] }
        enq := .ret item itemId
        inserted := itemId :: s.inserted }
  | insertRaises {item : Item C} {itemId : String} (hpc : s.enq = .insert item itemId) :
      QueueStep cfg s .insertRaises { s with enq := .cleanup itemId }
  | cleanupPayload {itemId : String} (unlinked : Bool) (hpc : s.enq = .cleanup itemId) :
      QueueStep cfg s (.cleanupPayload unlinked) { s with
        store := { s.store with payloads :=
          if unlinked then s.store.payloads.erase (payloadFilename itemId)
          else s.store.payloads }
        enq := .idle }
  | enqueueReturns {item : Item C} {itemId : String} (hpc : s.enq = .ret item itemId) :
      QueueStep cfg s .enqueueReturns { s with
        enq := .idle
        acked := (itemId, item) :: s.acked }
  | drain (hpc : s.drn = .idle) :
      QueueStep cfg s .drain { s with
        drn := .loop .pending (selectState s.store.rows .pending) .next {} }
  | drainRow {cycle : RowState} {r : Row C} {rest : List (Row C)} {stats : DrainStats}
      (hpc : s.drn = .loop cycle (r :: rest) .next stats) :
      QueueStep cfg s .drainNext { s with drn := drainRow s.store cycle r rest stats }
  | secondCycle {stats : DrainStats} (hpc : s.drn = .loop .pending [] .next stats) :
      QueueStep cfg s .drainNext { s with
        drn := .loop .quarantined (selectState s.store.rows .quarantined) .next stats }
  /-- The second cycle is over, or a payload cannot be read. -/
  | drainEnds {a : Action C} : QueueStep cfg s a { s with drn := .idle }
  | putReturns {cycle : RowState} {todo : List (Row C)} {r : Row C} {data : C}
      {stats : DrainStats} (status : PutStatus)
      (hpc : s.drn = .loop cycle todo (.put r data) stats) :
      QueueStep cfg s (.putReturns status) { s with
        drn := if status = .queued
          then .loop cycle todo .next { stats with failed := stats.failed + 1 }
          else .loop cycle todo (.delete r) stats
        puts := (r.id, r.item data, status) :: s.puts }
  | deleteCommits {cycle : RowState} {todo : List (Row C)} {r : Row C} {stats : DrainStats}
      (hpc : s.drn = .loop cycle todo (.delete r) stats) :
      QueueStep cfg s .deleteCommits { s with
        store := { s.store with rows := deleteRow s.store.rows r.id }
        drn := .loop cycle todo (.unlink r) stats }
  | unlinkPayload {cycle : RowState} {todo : List (Row C)} {r : Row C} {stats : DrainStats}
      (hpc : s.drn = .loop cycle todo (.unlink r) stats) :
      QueueStep cfg s .unlinkPayload { s with
        store := { s.store with payloads := s.store.payloads.erase r.payloadFile }
        drn := .loop cycle todo .next { stats with drained := stats.drained + 1 } }
  /-- The put, the delete or the unlink of a row raised: on to the next row. -/
  | rowFails {a : Action C} {cycle : RowState} {todo : List (Row C)} {stage : DrainStage C}
      {stats : DrainStats} (hpc : s.drn = .loop cycle todo stage stats) :
      QueueStep cfg s a { s with
        drn := .loop cycle todo .next { stats with failed := stats.failed + 1 } }
  | crash : QueueStep cfg s .crash { s with enq := .idle, drn := .idle }

variable {a : Action C}

theorem queueStep_of_stepEnqueue (h : stepEnqueue cfg s a = some s') : QueueStep cfg s a s' := by
  cases a with
  | savePayload itemId | savePayloadRaises itemId partialData =>
    simp only [stepEnqueue] at h
    split at h
    case h_2 => cases h
    split at h <;> cases h
    constructor <;> assumption
  | enqueue | quarantineOldest | insertRow | insertRaises | cleanupPayload | enqueueReturns =>
    simp only [stepEnqueue] at h
    split at h <;> cases h
    constructor
    assumption
  | _ => simp [stepEnqueue] at h

theorem queueStep_of_stepDrain (h : stepDrain s a = some s') : QueueStep cfg s a s' := by
  cases a with
  | drainNext =>
    simp only [stepDrain] at h
    split at h <;> cases h
    · exact .drainRow ‹_›
    · exact .secondCycle ‹_›
    · exact .drainEnds
  | readRaises =>
    simp only [stepDrain] at h
    split at h <;> cases h
    exact .drainEnds
  | drain | putReturns | deleteCommits | unlinkPayload =>
    simp only [stepDrain] at h
    split at h <;> cases h
    constructor
    assumption
  | putRaises | deleteRaises | unlinkRaises =>
    simp only [stepDrain] at h
    split at h <;> cases h
    exact .rowFails ‹_›
  | _ => simp [stepDrain] at h

theorem queueStep_of_step (h : step cfg s a = some s') : QueueStep cfg s a s' := by
  unfold step at h
  split at h
  · cases h
    exact .crash
  · cases he : stepEnqueue cfg s a with
    | some s₁ =>
      rw [he] at h
      cases h
      exact queueStep_of_stepEnqueue he
    | none =>
      rw [he] at h
      exact queueStep_of_stepDrain h

/-- **Every step keeps the invariant**, a crash included. -/
theorem step_inv (hI : Inv cfg s) (h : step cfg s a = some s') : Inv cfg s' := by
  have hEnq := hI.enq
  have hDrn := hI.drn
  unfold EnqOk at hEnq
  unfold DrainOk at hDrn
  cases queueStep_of_step h with
  | enqueue item hpc =>
    exact hI.payloadStep rfl rfl rfl rfl (fun _ => id) (fun _ _ => rfl)
      (fun _ _ => enqueueEntry_ok item) fun hF => hF.drainOk rfl hI.drn
  | quarantineOldest hpc =>
    rw [hpc] at hEnq
    refine hI.of_frame frame_quarantineOldest (storeOk_quarantineOldest hI.store) rfl ?_
      (frame_quarantineOldest.drainOk rfl hI.drn)
    show (quarantineOldestLocked s.store.rows).length < cfg.hardFloor
    rw [(quarantineOldestLocked_same _).length]
    exact hEnq
  | @savePayload item itemId hpc hfresh =>
    rw [hpc] at hEnq
    have hnew := hI.store.not_inserted_of_fresh hfresh
    exact hI.payloadStep rfl rfl rfl rfl (fun _ => List.mem_cons_of_mem _)
      (fun r hr => hI.store.lookup_insert_new hnew item.data hr)
      (fun _ _ => ⟨hEnq, hnew, List.mem_cons_self .., AList.lookup_insert _⟩)
      fun hF => hF.drainOk rfl hI.drn
  | savePayloadRaises partialData hpc hfresh =>
    -- a truncated file may stay behind, under an id that no row ever gets
    have hnew := hI.store.not_inserted_of_fresh hfresh
    exact hI.payloadStep rfl rfl rfl rfl (fun _ => List.mem_cons_of_mem _)
      (fun r hr => hI.store.lookup_leftBehind hnew partialData hr) (fun _ _ => trivial)
      fun hF => hF.drainOk rfl hI.drn
  | @insertRow item itemId ts hpc =>
    rw [hpc] at hEnq
    obtain ⟨hlt, hnew, hiss, hlook⟩ := hEnq
    refine hI.of_frame (frame_insertRow hnew)
      (storeOk_insertRow hI.store hnew hiss hlt hlook) rfl ?_
      ((frame_insertRow hnew).drainOk rfl hI.drn)
    exact Or.inl ⟨newRow item itemId ts, by simp, rfl, Or.inl rfl, rfl, rfl, hlook⟩
  | insertRaises hpc =>
    rw [hpc] at hEnq
    exact hI.payloadStep rfl rfl rfl rfl (fun _ => id) (fun _ _ => rfl)
      (fun _ _ => ⟨hEnq.2.1, hEnq.2.2.1⟩) fun hF => hF.drainOk rfl hI.drn
  | cleanupPayload unlinked hpc =>
    rw [hpc] at hEnq
    exact hI.payloadStep rfl rfl rfl rfl (fun _ => id)
      (fun r hr => hI.store.lookup_cleanup hEnq.1 unlinked hr) (fun _ _ => trivial)
      fun hF => hF.drainOk rfl hI.drn
  | @enqueueReturns item itemId hpc =>
    rw [hpc] at hEnq
    have hF : Frame s { s with enq := .idle, acked := (itemId, item) :: s.acked } :=
      Frame.of_store_eq rfl rfl fun _ hp => hp
    refine ⟨hI.store.of_store_eq rfl rfl rfl, ?_, trivial, hF.drainOk rfl hI.drn⟩
    intro p hp
    rcases List.mem_cons.mp hp with rfl | hp
    · exact hEnq
    · exact hI.acked p hp
  | drain hpc => exact hI.drainNext fun r hr => hI.store.snapOk hr
  | @drainRow cycle r rest stats hpc =>
    rw [hpc] at hDrn
    obtain ⟨htodo, -⟩ := hDrn
    have hr : SnapOk s r := htodo r (List.mem_cons_self ..)
    have hrest : ∀ r' ∈ rest, SnapOk s r' := fun r' hr' => htodo r' (List.mem_cons_of_mem _ hr')
    unfold RetryQueue.drainRow
    cases hlook : s.store.payloads.lookup r.payloadFile with
    | none => exact hI.drainNext hrest
    | some data =>
      refine hI.drainStep (fun _ hp => hp) hrest ⟨hr, fun _ => ?_⟩
      rw [← hr.file]
      exact hlook
  | secondCycle hpc => exact hI.drainNext fun r hr => hI.store.snapOk hr
  | drainEnds => exact ⟨hI.store.of_store_eq rfl rfl rfl, hI.acked, hI.enq, trivial⟩
  | @putReturns cycle todo r data stats status hpc =>
    rw [hpc] at hDrn
    obtain ⟨htodo, hsnap, hdata⟩ := hDrn
    have hF : Frame s { s with puts := (r.id, r.item data, status) :: s.puts } :=
      Frame.of_store_eq rfl rfl fun _ => List.mem_cons_of_mem _
    by_cases hq : status = .queued
    · rw [if_pos hq]
      exact hI.drainStep (fun _ => List.mem_cons_of_mem _) htodo trivial
    · rw [if_neg hq]
      exact hI.drainStep (fun _ => List.mem_cons_of_mem _) htodo
        ⟨hF.snapOk hsnap, data, hF.payloadIs hsnap.inserted hdata, status,
          List.mem_cons_self .., hq⟩
  | @deleteCommits cycle todo r stats hpc =>
    rw [hpc] at hDrn
    obtain ⟨htodo, hsnap, data, hdata, hdel⟩ := hDrn
    have hgone : ∀ r' ∈ s.store.rows, r'.id = r.id →
        ∃ data, s.store.payloads.lookup (payloadFilename r'.id) = some data ∧
          Delivered s.puts r'.id (r'.item data) := by
      intro r' hr' hid
      obtain ⟨hkey, hsha⟩ := hsnap.agrees r' hr' hid
      refine ⟨data, ?_, ?_⟩
      · rw [hid]
        exact hdata ⟨r', hr', hid⟩
      · rw [Row.item, hid, hkey, hsha]
        exact hdel
    have hF := frame_deleteRow (d := .loop cycle todo (.unlink r) stats) hgone
    have hOk' := storeOk_deleteRow (i := r.id) (d := .loop cycle todo (.unlink r) stats) hI.store
    refine hI.of_frame hF hOk' rfl
      (hF.enqOk hI.store hOk' rfl rfl rfl (List.length_filter_le _ _) (fun _ _ => rfl) hI.enq) ?_
    refine ⟨fun r' hr' => hF.snapOk (htodo r' hr'), hF.snapOk hsnap, fun r' hr' => ?_⟩
    simpa using (List.mem_filter.mp hr').2
  | @unlinkPayload cycle todo r stats hpc =>
    rw [hpc] at hDrn
    obtain ⟨htodo, hsnap, hgone⟩ := hDrn
    -- the row is already gone, so no row of the table reads this file
    refine hI.payloadStep rfl rfl rfl rfl (fun _ => id)
      (fun r' hr' => hsnap.lookup_unlink (hgone r' hr')) (fun hF hOk' => ?_)
      fun hF => ⟨fun r' hr' => hF.snapOk (htodo r' hr'), trivial⟩
    refine hF.enqOk hI.store hOk' rfl rfl rfl le_rfl (fun i hi => ?_) hI.enq
    exact hsnap.lookup_unlink fun heq => hi (heq ▸ hsnap.inserted)
  | rowFails hpc =>
    rw [hpc] at hDrn
    exact hI.drainNext hDrn.1
  | crash => exact ⟨hI.store.of_store_eq rfl rfl rfl, hI.acked, trivial, trivial⟩

theorem initial_inv (cfg : Config) : Inv cfg (initial : St C) where
  store := {
    idsNodup := List.nodup_nil
    rowFile := by simp [initial]
    rowInserted := by simp [initial]
    insertedIssued := by simp [initial]
    rowPayload := by simp [initial]
    floor := Nat.zero_le _ }
  acked := by simp [initial]
  enq := trivial
  drn := trivial

/-- The invariant holds in every reachable state. -/
theorem inv_of_reaches (h : (machine C cfg).Reaches Machine.anyStep s) : Inv cfg s :=
  h.invariant (I := Inv cfg) (fun _ hs => hs ▸ initial_inv cfg)
    (fun _ _ _ hI _ hstep => step_inv hI hstep)

/-- **The queue loses nothing.** In every state reached by enqueue and drain
steps, uploader replies and crashes: an item whose `enqueue` returned ok is
stored with its payload, or an uploader put of exactly its key, payload and
sha256 returned a status other than `queued`; every row has its payload; the
pending and quarantined rows together stay within the hard floor. -/
theorem queue_keeps_acked_items (cfg : Config) {s : St C}
    (h : (machine C cfg).Reaches Machine.anyStep s) :
    (∀ p ∈ s.acked, Stored s.store p.1 p.2 ∨ Delivered s.puts p.1 p.2) ∧
      (∀ r ∈ s.store.rows, (s.store.payloads.lookup r.payloadFile).isSome) ∧
      totalActive s.store.rows ≤ cfg.hardFloor := by
  have hI : Inv cfg s := inv_of_reaches h
  refine ⟨hI.acked, fun r hr => ?_, ?_⟩
  · rw [hI.store.rowFile r hr]
    exact hI.store.rowPayload r hr
  · rw [totalActive_eq_length]
    exact hI.store.floor

/-- A run in which the guarantee has something to keep: one item is acknowledged,
a first put is answered `queued`, a crash follows, and the item is still there. -/
theorem queue_keeps_acked_items_after_crash :
    ∃ s : St String,
      (machine String ⟨1, 100, 2⟩).run initial
        [.enqueue ⟨["k"], "bytes", "h"⟩, .savePayload "u1", .insertRow 7, .enqueueReturns,
          .drain, .drainNext, .putReturns .queued, .crash] = some s ∧
        s.acked = [("u1", ⟨["k"], "bytes", "h"⟩)] ∧ s.store.rows.length = 1 ∧
        (∀ p ∈ s.acked, Stored s.store p.1 p.2 ∨ Delivered s.puts p.1 p.2) ∧
        (∀ r ∈ s.store.rows, (s.store.payloads.lookup r.payloadFile).isSome) ∧
        totalActive s.store.rows ≤ 2 := by
  refine ⟨_, rfl, rfl, rfl, ?_⟩
  exact queue_keeps_acked_items ⟨1, 100, 2⟩ (Machine.reaches_of_run (.init rfl)
    (l := [.enqueue ⟨["k"], "bytes", "h"⟩, .savePayload "u1", .insertRow 7, .enqueueReturns,
      .drain, .drainNext, .putReturns .queued, .crash]) rfl)

end MctraderData.RetryQueue
