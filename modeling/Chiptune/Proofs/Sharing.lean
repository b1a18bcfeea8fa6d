import Chiptune.Timing
import Mathlib.Algebra.BigOperators.Group.List.Basic
import Mathlib.Algebra.Ring.Int.Defs

/-!
# Sharing a length

The sounds of a tuplet share its length in whole units.  What does not divide evenly is dealt out
to the first ones, so the shares differ by one unit at most and nothing is lost.

`distribute` deals while it walks over the entries, with a rest that goes down.  Here it is brought
into a form in which each share depends only on the number of the sound.

## Main definitions

* `share` — what the sound with a given number gets.
* `spread` — values for the timed entries, by their numbers.

## Main results

* `distribute_eq_spread` — dealing gives each sound its share, in order.
* `mem_distribute` — no share is negative or more than there is.
* `sum_distribute` — the shares add up to what was dealt out.
-/

namespace Chiptune

/-- The units that the sound with number `i` gets of `total` units shared among `count` sounds.
What does not divide evenly goes to the first ones, one unit each. -/
def share (total : Int) (count i : Nat) : Int :=
  total / count + if (i : Int) < total % count then 1 else 0

/-- The values `g i`, `g (i + 1)`, … for the timed entries in order, and nothing for the others. -/
def spread (g : Nat → Int) : Nat → List Bool → List Int
  | _, [] => []
  | i, true :: ts => g i :: spread g (i + 1) ts
  | i, false :: ts => 0 :: spread g i ts

@[simp] theorem length_spread (g : Nat → Int) (i : Nat) (ts : List Bool) :
    (spread g i ts).length = ts.length := by
  induction ts generalizing i with
  | nil => rfl
  | cons t ts ih => cases t <;> simp [spread, ih]

/-- Only the values from the first number on count. -/
theorem spread_congr {g g' : Nat → Int} : ∀ (ts : List Bool) (i : Nat),
    (∀ j, i ≤ j → g j = g' j) → spread g i ts = spread g' i ts := by
  intro ts
  induction ts with
  | nil => intro i _; rfl
  | cons t ts ih =>
    intro i h
    cases t with
    | true => rw [spread, spread, h i (Nat.le_refl i), ih (i + 1) fun j hj => h j (by omega)]
    | false => rw [spread, spread, ih i h]

/-- A value that was spread is nothing, or belongs to one of the timed entries. -/
theorem mem_spread {g : Nat → Int} {n : Int} : ∀ (ts : List Bool) (i : Nat),
    n ∈ spread g i ts → n = 0 ∨ ∃ j, i ≤ j ∧ j < i + ts.count true ∧ n = g j := by
  intro ts
  induction ts with
  | nil => intro i h; simp [spread] at h
  | cons t ts ih =>
    intro i h
    cases t with
    | true =>
      rw [spread, List.mem_cons] at h
      rw [List.count_cons_self]
      rcases h with h | h
      · exact Or.inr ⟨i, Nat.le_refl i, by omega, h⟩
      · rcases ih (i + 1) h with h | ⟨j, hij, hj, h⟩
        · exact Or.inl h
        · exact Or.inr ⟨j, by omega, by omega, h⟩
    | false =>
      rw [spread, List.mem_cons] at h
      rw [List.count_cons_of_ne (by decide)]
      rcases h with h | h
      · exact Or.inl h
      · exact ih i h

/-- Dealing with a rest that goes down gives one more to the entries whose number is below it. -/
theorem deal_eq_spread (base : Int) : ∀ (ts : List Bool) (rest : Int) (i : Nat),
    distribute.deal base rest ts =
      spread (fun j => base + if (j : Int) < rest + i then 1 else 0) i ts := by
  intro ts
  induction ts with
  | nil => intro rest i; rfl
  | cons t ts ih =>
    intro rest i
    cases t with
    | false => rw [distribute.deal, spread, ih rest i]
    | true =>
      rw [distribute.deal, spread]
      split
      · next hrest =>
        rw [if_pos (by omega), ih (rest - 1) (i + 1)]
        congr 2
        funext j
        rw [show rest - 1 + ((i + 1 : Nat) : Int) = rest + i by omega]
      · -- once the rest is used up nobody gets more
        next hrest =>
        rw [if_neg (by omega), ih rest (i + 1), Int.add_zero]
        congr 1
        refine spread_congr ts (i + 1) fun j hj => ?_
        rw [if_neg (by omega), if_neg (by omega)]

/-- **Each sound gets its share**, in order, and the other entries get nothing. -/
theorem distribute_eq_spread {total : Int} (h0 : 0 ≤ total) (timed : List Bool) :
    distribute total timed = spread (share total (timed.count true)) 0 timed := by
  have hdiv : total.tdiv (timed.count true) = total / (timed.count true) :=
    Int.tdiv_eq_ediv_of_nonneg h0
  have hmod : total - total / (timed.count true) * (timed.count true) =
      total % (timed.count true) := by
    have := Int.mul_ediv_add_emod total (timed.count true)
    rw [Int.mul_comm] at this
    omega
  rw [distribute, hdiv, hmod, deal_eq_spread]
  refine spread_congr timed 0 fun j _ => ?_
  rw [share]
  simp

@[simp] theorem length_distribute {total : Int} (h0 : 0 ≤ total) (timed : List Bool) :
    (distribute total timed).length = timed.length := by
  rw [distribute_eq_spread h0, length_spread]

/-- A share is not negative and not more than there is. -/
theorem share_bounds {total : Int} (h0 : 0 ≤ total) {count i : Nat} (hi : i < count) :
    0 ≤ share total count i ∧ share total count i ≤ total := by
  have hcount : (1 : Int) ≤ count := by omega
  have hquot : 0 ≤ total / count := Int.ediv_nonneg h0 (by omega)
  have hle : total / count ≤ count * (total / count) := by
    have := Int.mul_le_mul_of_nonneg_right hcount hquot
    omega
  have hsplit := Int.mul_ediv_add_emod total count
  have hrem := Int.emod_nonneg total (show (count : Int) ≠ 0 by omega)
  unfold share
  split <;> omega

/-- **No share is negative or more than there is.** -/
theorem mem_distribute {total n : Int} (h0 : 0 ≤ total) {timed : List Bool}
    (hn : n ∈ distribute total timed) : 0 ≤ n ∧ n ≤ total := by
  rw [distribute_eq_spread h0] at hn
  rcases mem_spread timed 0 hn with rfl | ⟨j, -, hj, rfl⟩
  · exact ⟨Int.le_refl 0, h0⟩
  · exact share_bounds h0 (by omega)

/-- What is dealt out, with a rest that there are enough entries for. -/
theorem sum_deal (base : Int) : ∀ (ts : List Bool) (rest : Int), 0 ≤ rest →
    rest ≤ ts.count true → (distribute.deal base rest ts).sum = base * ts.count true + rest := by
  intro ts
  induction ts with
  | nil => intro rest h0 hle; simp [distribute.deal] at hle ⊢; omega
  | cons t ts ih =>
    intro rest h0 hle
    cases t with
    | false =>
      rw [List.count_cons_of_ne (by decide)] at hle ⊢
      rw [distribute.deal, List.sum_cons, ih rest h0 hle]
      omega
    | true =>
      rw [List.count_cons_self] at hle ⊢
      rw [distribute.deal]
      split
      · rw [List.sum_cons, ih (rest - 1) (by omega) (by omega)]
        grind
      · -- the rest is used up
        rw [List.sum_cons, ih rest h0 (by omega)]
        grind

/-- **The shares add up to what was dealt out.** -/
theorem sum_distribute {total : Int} (h0 : 0 ≤ total) {timed : List Bool} (ht : true ∈ timed) :
    (distribute total timed).sum = total := by
  -- the rest is a remainder, so there are enough entries to take one unit of it each
  have hcount : 0 < timed.count true := List.count_pos_iff.mpr ht
  have hdiv : total.tdiv (timed.count true) = total / (timed.count true) :=
    Int.tdiv_eq_ediv_of_nonneg h0
  have hsplit := Int.mul_ediv_add_emod total (timed.count true)
  have hnonneg := Int.emod_nonneg total (show (timed.count true : Int) ≠ 0 by omega)
  have hlt := Int.emod_lt_of_pos total (show 0 < (timed.count true : Int) by omega)
  rw [Int.mul_comm] at hsplit
  rw [distribute, hdiv, sum_deal _ _ _ (by omega) (by omega)]
  omega

end Chiptune
