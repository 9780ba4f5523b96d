import Mathlib.Logic.Function.Basic
import Mathlib.Logic.Relation

/-!
# Slots of a compacted log

A log keeps its records under names. What is kept under one name is a `Slot`: the records
being written, a sealed batch, an archived batch, and a mark that says the sealed batch
may go. `Slot.Step` lists what may happen to a slot; the one step with a side condition
that other parties must respect is `close`, which needs a name that is not in use.

Every step keeps a slot `Sound` and loses no record it holds, and so does every sequence
of steps on a family of slots (`Evolves`).
-/

namespace MctraderData.Lib

open Function (update)

/-- What is kept under one name. -/
structure Slot (W : Type) where
  active : Option (List W) := none
  sealed : Option (List W) := none
  archived : Option (List W) := none
  marked : Bool := false

namespace Slot

variable {W : Type}

def Holds (x : Slot W) (r : W) : Prop :=
  ∃ l, (x.active = some l ∨ x.sealed = some l ∨ x.archived = some l) ∧ r ∈ l

/-- A mark vouches for an archive, and the archive is of the sealed batch. -/
structure Sound (x : Slot W) : Prop where
  marked : x.marked = true → ∃ l, x.archived = some l
  agree : ∀ l l', x.sealed = some l → x.archived = some l' → l' = l

/-- The batch `l` is sealed or archived. -/
def Secured (x : Slot W) (l : List W) : Prop := x.sealed = some l ∨ x.archived = some l

/-- What may happen to a slot. -/
inductive Step : Slot W → Slot W → Prop where
  | start {x} : x.active = none → Step x { x with active := some [] }
  | write {x l} (r : W) : x.active = some l → Step x { x with active := some (l ++ [r]) }
  | close {x l} : x.active = some l → x.sealed = none → x.archived = none →
      Step x { x with active := none, sealed := some l }
  | archive {x l} : x.Secured l → Step x { x with archived := some l }
  | mark {x l} : x.archived = some l → Step x { x with marked := true }
  | dropSealed {x} : x.marked = true → Step x { x with sealed := none }
  | dropMark {x} : Step x { x with marked := false }

variable {x y : Slot W} {l : List W} {r : W}

theorem Sound.secured (h : x.Sound) (hl : x.Secured l) {l' : List W} (ha : x.archived = some l') :
    l' = l := by
  rcases hl with hs | ha'
  · exact h.agree l l' hs ha
  · rw [ha] at ha'
    exact Option.some.inj ha'

theorem Step.sound (h : Step x y) (hx : x.Sound) : y.Sound := by
  cases h with
  | start | write => exact ⟨hx.marked, hx.agree⟩
  | close _ _ ha =>
    refine ⟨hx.marked, fun l l' _ ha' => ?_⟩
    simp [ha] at ha'
  | archive hl =>
    refine ⟨fun _ => ⟨_, rfl⟩, fun l l' hs ha => ?_⟩
    cases ha
    rcases hl with hs' | ha'
    · exact Option.some.inj (hs'.symm.trans hs)
    · exact hx.agree l _ hs ha'
  | mark ha => exact ⟨fun _ => ⟨_, ha⟩, hx.agree⟩
  | dropSealed _ => exact ⟨hx.marked, nofun⟩
  | dropMark => exact ⟨nofun, hx.agree⟩

/-- A batch that is sealed or archived stays so. -/
theorem Step.secured (h : Step x y) (hx : x.Sound) (hl : x.Secured l) : y.Secured l := by
  cases h with
  | start | write => exact hl
  | close _ hs ha =>
    rcases hl with hs' | ha'
    · simp [hs] at hs'
    · simp [ha] at ha'
  | archive hl' =>
    rcases hl with hs | ha
    · exact Or.inl hs
    · exact Or.inr (congrArg some (hx.secured hl' ha).symm)
  | mark _ => exact hl
  | dropSealed hm =>
    obtain ⟨l', ha⟩ := hx.marked hm
    exact Or.inr (hx.secured hl ha ▸ ha)
  | dropMark => exact hl

theorem Step.archived (h : Step x y) (ha : ∃ l, x.archived = some l) :
    ∃ l, y.archived = some l := by
  cases h with
  | archive _ => exact ⟨_, rfl⟩
  | _ => exact ha

theorem holds_iff : x.Holds r ↔
    (∃ l, x.active = some l ∧ r ∈ l) ∨ ∃ l, x.Secured l ∧ r ∈ l := by
  constructor
  · rintro ⟨l, ha | hs | ha, hr⟩
    · exact Or.inl ⟨l, ha, hr⟩
    · exact Or.inr ⟨l, Or.inl hs, hr⟩
    · exact Or.inr ⟨l, Or.inr ha, hr⟩
  · rintro (⟨l, ha, hr⟩ | ⟨l, hs | ha, hr⟩)
    · exact ⟨l, Or.inl ha, hr⟩
    · exact ⟨l, Or.inr (Or.inl hs), hr⟩
    · exact ⟨l, Or.inr (Or.inr ha), hr⟩

/-- **No step loses a record.** -/
theorem Step.holds (h : Step x y) (hx : x.Sound) (hr : x.Holds r) : y.Holds r := by
  rw [holds_iff] at hr ⊢
  rcases hr with ⟨l, hactive, hr⟩ | ⟨l, hl, hr⟩
  · cases h with
    | start hnone =>
      simp [hnone] at hactive
    | write r' ha =>
      rw [ha] at hactive
      cases hactive
      exact Or.inl ⟨_, rfl, List.mem_append_left _ hr⟩
    | close ha _ _ =>
      rw [ha] at hactive
      cases hactive
      exact Or.inr ⟨_, Or.inl rfl, hr⟩
    | _ => exact Or.inl ⟨l, hactive, hr⟩
  · exact Or.inr ⟨l, h.secured hx hl, hr⟩

end Slot

/-! ## families of slots -/

section

variable {N W : Type} {x y z : N → Slot W}

/-- Every slot went through some steps. -/
def Evolves (x y : N → Slot W) : Prop := ∀ n, Relation.ReflTransGen Slot.Step (x n) (y n)

theorem Evolves.refl (x : N → Slot W) : Evolves x x := fun _ => .refl

theorem Evolves.trans (h : Evolves x y) (h' : Evolves y z) : Evolves x z :=
  fun n => (h n).trans (h' n)

variable {n : N}

/-- One step of one slot. -/
theorem Evolves.single [DecidableEq N] {s : Slot W} (h : Slot.Step (x n) s) :
    Evolves x (update x n s) := by
  intro m
  by_cases hm : m = n
  · subst hm
    rw [Function.update_self]
    exact .single h
  · rw [Function.update_of_ne hm]

/-- **Run rule.** What every step of a sound slot keeps is kept by a whole evolution. -/
theorem Evolves.keeps {P : Slot W → Prop} (h : Evolves x y)
    (hP : ∀ s s', Slot.Step s s' → s.Sound → P s → P s') (hx : (x n).Sound) (hn : P (x n)) :
    (y n).Sound ∧ P (y n) := by
  have hrun := h n
  generalize y n = b at hrun
  induction hrun with
  | refl => exact ⟨hx, hn⟩
  | tail _ hstep ih => exact ⟨hstep.sound ih.1, hP _ _ hstep ih.1 ih.2⟩

variable (h : Evolves x y) (hx : ∀ n, (x n).Sound)

include h hx

theorem Evolves.sound : ∀ n, (y n).Sound :=
  fun n => (h.keeps (P := fun _ => True) (fun _ _ _ _ => id) (hx n) trivial).1

theorem Evolves.secured {l : List W} (hl : (x n).Secured l) : (y n).Secured l :=
  (h.keeps (fun _ _ hstep hs => hstep.secured hs) (hx n) hl).2

theorem Evolves.archived (ha : ∃ l, (x n).archived = some l) : ∃ l, (y n).archived = some l :=
  (h.keeps (P := fun s => ∃ l, s.archived = some l) (fun _ _ hstep _ => hstep.archived)
    (hx n) ha).2

theorem Evolves.holds {r : W} (hr : (x n).Holds r) : (y n).Holds r :=
  (h.keeps (fun _ _ hstep hs => hstep.holds hs) (hx n) hr).2

end

end MctraderData.Lib
