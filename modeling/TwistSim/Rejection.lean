/-
Rejection sampling of distinct numbers: a loop that draws from a generator until it
has seen enough of them.
-/
import Mathlib.Data.List.Sort
import Mathlib.Data.List.Perm.Subperm
import Mathlib.Logic.Function.Iterate

namespace TwistSim

namespace Rejection

variable {G : Type*} (next : G → Nat × G) (length count : Nat)

/-- What the generator yields of the numbers from 1 to `length`. -/
def draw (g : G) : Nat := 1 + (next g).1 % length

/-- The numbers seen so far, in increasing order. -/
def note (points : List Nat) (point : Nat) : List Nat :=
  if points.elem point then points else points.orderedInsert (· ≤ ·) point

/-- Draw until `count` numbers were seen, `fuel` times at most. -/
def collect : Nat → List Nat → G → Option (List Nat × G)
  | 0, points, g => if count ≤ points.length then some (points, g) else none
  | fuel + 1, points, g =>
      if count ≤ points.length then some (points, g)
      else collect fuel (note points (draw next length g)) (next g).2

/-- From every state on, every residue appears. -/
def Fair : Prop :=
  ∀ g, ∀ r < length, ∃ k, (next ((fun g => (next g).2)^[k] g)).1 % length = r

/-- Distinct numbers from 1 to `length`, in increasing order. -/
structure Distinct (points : List Nat) : Prop where
  sorted : points.Pairwise (· < ·)
  range : ∀ p ∈ points, 1 ≤ p ∧ p ≤ length

variable {next length count} {points points' : List Nat} {g g' : G} {fuel : Nat}

theorem draw_range (hpos : 0 < length) :
    1 ≤ draw next length g ∧ draw next length g ≤ length := by
  have hlt := Nat.mod_lt (next g).1 hpos
  rw [draw, Nat.add_comm]
  exact ⟨Nat.le_add_left 1 _, hlt⟩

theorem Distinct.nil : Distinct length [] := ⟨List.Pairwise.nil, fun _ hp => by cases hp⟩

theorem Distinct.nodup (h : Distinct length points) : points.Nodup :=
  h.sorted.imp Nat.ne_of_lt

theorem Distinct.insert {point : Nat} (h : Distinct length points) (hnew : point ∉ points)
    (hrange : 1 ≤ point ∧ point ≤ length) :
    Distinct length (points.orderedInsert (· ≤ ·) point) where
  sorted := by
    have hle := (h.sorted.imp Nat.le_of_lt).orderedInsert point
    have hnodup : (points.orderedInsert (· ≤ ·) point).Nodup :=
      (List.perm_orderedInsert (· ≤ ·) point points).nodup_iff.mpr
        (List.nodup_cons.mpr ⟨hnew, h.nodup⟩)
    exact (hle.and hnodup).imp fun hboth => Nat.lt_of_le_of_ne hboth.1 hboth.2
  range p hp := by
    rcases (List.mem_orderedInsert (· ≤ ·)).mp hp with rfl | hold
    · exact hrange
    · exact h.range p hold

theorem note_of_mem {point : Nat} (h : point ∈ points) : note points point = points :=
  if_pos (List.elem_eq_true_of_mem h)

theorem note_of_not_mem {point : Nat} (h : point ∉ points) :
    note points point = points.orderedInsert (· ≤ ·) point :=
  if_neg fun helem => h (List.mem_of_elem_eq_true helem)

theorem Distinct.note {point : Nat} (h : Distinct length points)
    (hrange : 1 ≤ point ∧ point ≤ length) : Distinct length (note points point) := by
  by_cases hmem : point ∈ points
  · rwa [note_of_mem hmem]
  · rw [note_of_not_mem hmem]
    exact h.insert hmem hrange

/-- There are only so many of them. -/
theorem Distinct.length_le (h : Distinct length points) : points.length ≤ length := by
  have hsub : points ⊆ List.range' 1 length := by
    intro p hp
    obtain ⟨hone, hle⟩ := h.range p hp
    exact List.mem_range'_1.mpr ⟨hone, by omega⟩
  simpa using (List.subperm_of_subset h.nodup hsub).length_le

theorem exists_missing (hlt : points.length < length) : ∃ r < length, 1 + r ∉ points := by
  by_contra hall
  have hsub : List.range' 1 length ⊆ points := by
    intro p hp
    obtain ⟨hone, hle⟩ := List.mem_range'_1.mp hp
    by_contra hmissing
    exact hall ⟨p - 1, by omega, by rwa [Nat.add_sub_cancel' hone]⟩
  have hle := (List.subperm_of_subset List.nodup_range' hsub).length_le
  rw [List.length_range'] at hle
  exact absurd hlt (Nat.not_lt.mpr hle)

/-- What the loop yields. -/
theorem collect_spec (hpos : 0 < length) (hpoints : Distinct length points)
    (hle : points.length ≤ count)
    (h : collect next length count fuel points g = some (points', g')) :
    Distinct length points' ∧ points'.length = count := by
  induction fuel generalizing points g with
  | zero =>
      rw [collect] at h
      split at h
      · rename_i hge
        cases h
        exact ⟨hpoints, Nat.le_antisymm hle hge⟩
      · cases h
  | succ fuel ih =>
      rw [collect] at h
      split at h
      · rename_i hge
        cases h
        exact ⟨hpoints, Nat.le_antisymm hle hge⟩
      · rename_i hmore
        refine ih (hpoints.note (draw_range hpos)) ?_ h
        by_cases hmem : draw next length g ∈ points
        · rwa [note_of_mem hmem]
        · rw [note_of_not_mem hmem, List.orderedInsert_length]
          exact Nat.lt_of_not_le hmore

/-- The loop goes on until it draws a number that is new. -/
theorem collect_new {k : Nat} (hlt : points.length < count)
    (hnew : draw next length ((fun g => (next g).2)^[k] g) ∉ points) :
    ∃ steps g' point, point ∉ points ∧ (∃ g, point = draw next length g) ∧
      ∀ fuel, collect next length count (fuel + steps) points g =
        collect next length count fuel (points.orderedInsert (· ≤ ·) point) g' := by
  induction k generalizing g with
  | zero =>
      have hnow : draw next length g ∉ points := hnew
      refine ⟨1, (next g).2, draw next length g, hnow, ⟨g, rfl⟩, fun fuel => ?_⟩
      rw [collect, if_neg (Nat.not_le.mpr hlt), note_of_not_mem hnow]
  | succ k ih =>
      by_cases hmem : draw next length g ∈ points
      · obtain ⟨steps, g', point, hpoint, hdraw, hrest⟩ := ih hnew
        refine ⟨steps + 1, g', point, hpoint, hdraw, fun fuel => ?_⟩
        rw [← Nat.add_assoc, collect, if_neg (Nat.not_le.mpr hlt), note_of_mem hmem]
        exact hrest fuel
      · refine ⟨1, (next g).2, draw next length g, hmem, ⟨g, rfl⟩, fun fuel => ?_⟩
        rw [collect, if_neg (Nat.not_le.mpr hlt), note_of_not_mem hmem]

/-- A fair generator gets out of the loop if there are enough numbers. -/
theorem collect_terminates (hfair : Fair next length) (hcount : count ≤ length)
    (hpoints : Distinct length points) (g : G) :
    ∃ fuel, (collect next length count fuel points g).isSome = true := by
  generalize hmissing : count - points.length = missing
  induction missing generalizing points g with
  | zero =>
      refine ⟨0, ?_⟩
      rw [collect, if_pos (Nat.le_of_sub_eq_zero hmissing)]
      rfl
  | succ missing ih =>
      have hlt : points.length < count := Nat.lt_of_sub_eq_succ hmissing
      obtain ⟨r, hr, hnew⟩ := exists_missing (Nat.lt_of_lt_of_le hlt hcount)
      obtain ⟨k, hk⟩ := hfair g r hr
      have hdrawn : draw next length ((fun g => (next g).2)^[k] g) ∉ points := by
        rwa [draw, hk]
      obtain ⟨steps, g', point, hpoint, ⟨_, hdraw⟩, hrest⟩ := collect_new hlt hdrawn
      have hrange := hdraw ▸ draw_range (Nat.lt_of_le_of_lt (Nat.zero_le r) hr)
      obtain ⟨fuel, hfuel⟩ := ih (hpoints.insert hpoint hrange) g' (by
        rw [List.orderedInsert_length]
        omega)
      exact ⟨fuel + steps, by rw [hrest]; exact hfuel⟩

/-- No generator gets out if there are too few. -/
theorem count_le_of_collect (hpos : 0 < length)
    (h : (collect next length count fuel [] g).isSome = true) : count ≤ length := by
  obtain ⟨⟨points', g'⟩, hsome⟩ := Option.isSome_iff_exists.mp h
  obtain ⟨hdistinct, hlength⟩ := collect_spec hpos Distinct.nil (Nat.zero_le _) hsome
  exact hlength ▸ hdistinct.length_le

end Rejection

end TwistSim
