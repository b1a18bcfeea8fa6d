import Chiptune.Proofs.Sharing

/-!
# Dealing in rounds

By hand a tuplet's length is dealt out in rounds.  At first every sound gets the same.  What is left
then goes out one unit at a time: a round walks over the entries, gives one unit to each sound and
stops as soon as nothing is left, and there is another round while something is.

`distribute` walks only once.  Here the rounds are shown to come to an end, and to leave every entry
with what `distribute` gives it.  Each share then depends only on how many sounds stand before it.

## Main definitions

* `dealRound` — one round, and what is left after it.
* `DealtOut` — where rounds lead that come to an end.
* `SharedInRounds` — the same for all, and then the rounds.

## Main results

* `sharedInRounds_iff` — the rounds come to an end, at the values of `distribute`.
* `getElem?_distribute` — the value of each entry.
* `distribute_exact` — which sounds get more, and that nothing is lost.
-/

namespace Chiptune

/-! ### Rounds -/

/-- A round over the entries and the values that they have so far.  Each timed entry gets one unit,
and the round is over when nothing is left.  The second result is what is left after it. -/
def dealRound : Int → List Bool → List Int → List Int × Int
  | rest, t :: ts, v :: vs =>
    if rest = 0 then (v :: vs, rest)
    else if t then
      ((v + 1) :: (dealRound (rest - 1) ts vs).1, (dealRound (rest - 1) ts vs).2)
    else (v :: (dealRound rest ts vs).1, (dealRound rest ts vs).2)
  | rest, _, vs => (vs, rest)

/-- Rounds that begin with the values `vs` and `rest` units come to an end, with the values `ws`. -/
inductive DealtOut (timed : List Bool) : Int → List Int → List Int → Prop where
  /-- Nothing is left. -/
  | stop {rest : Int} {vs : List Int} (h : rest ≤ 0) : DealtOut timed rest vs vs
  /-- Something is left, and there is a round. -/
  | round {rest rest' : Int} {vs vs' ws : List Int} (h : 0 < rest)
      (hround : dealRound rest timed vs = (vs', rest')) (hmore : DealtOut timed rest' vs' ws) :
      DealtOut timed rest vs ws

/-- What every timed entry has before the rounds. -/
def equalShares (base : Int) (timed : List Bool) : List Int :=
  timed.map fun t => if t then base else 0

@[simp] theorem equalShares_cons (base : Int) (t : Bool) (ts : List Bool) :
    equalShares base (t :: ts) = (if t then base else 0) :: equalShares base ts := rfl

/-- Sharing `total` units in rounds leads to the values `vs`.  Without a timed entry there is nobody
to deal to. -/
def SharedInRounds (total : Int) (timed : List Bool) (vs : List Int) : Prop :=
  if timed.count true = 0 then vs = List.replicate timed.length 0
  else
    let base := total.tdiv (timed.count true)
    DealtOut timed (total - base * timed.count true) (equalShares base timed) vs

/-- With nothing to deal, everybody keeps the same. -/
theorem deal_of_nonpos (base : Int) {rest : Int} (h : rest ≤ 0) (ts : List Bool) :
    distribute.deal base rest ts = equalShares base ts := by
  induction ts with
  | nil => rfl
  | cons t ts ih =>
    cases t with
    | false => simp [distribute.deal, ih]
    | true => simp [distribute.deal, Int.not_lt_of_ge h, ih]

/-- **One round is enough** for a rest that there are enough timed entries for. -/
theorem dealRound_equalShares (base : Int) : ∀ (ts : List Bool) (rest : Int), 0 ≤ rest →
    rest ≤ ts.count true →
    dealRound rest ts (equalShares base ts) = (distribute.deal base rest ts, 0) := by
  intro ts
  induction ts with
  | nil =>
    intro rest h0 hle
    obtain rfl : rest = 0 := by simp at hle; omega
    rfl
  | cons t ts ih =>
    intro rest h0 hle
    by_cases hrest : rest = 0
    · -- the round is over here, and those who come later get no more
      subst hrest
      rw [deal_of_nonpos base h0]
      rfl
    · cases t with
      | false =>
        rw [List.count_cons_of_ne (by decide)] at hle
        simp [dealRound, distribute.deal, hrest, ih rest h0 hle]
      | true =>
        rw [List.count_cons_self] at hle
        have hround := ih (rest - 1) (by omega) (by omega)
        have hpos : 0 < rest := by omega
        simp [dealRound, distribute.deal, hrest, hpos, hround]

/-- Where rounds lead, if there are enough timed entries for one of them. -/
theorem dealtOut_equalShares_iff {base rest : Int} {timed : List Bool} {ws : List Int}
    (hle : rest ≤ timed.count true) :
    DealtOut timed rest (equalShares base timed) ws ↔ ws = distribute.deal base rest timed := by
  by_cases hrest : rest ≤ 0
  · rw [deal_of_nonpos base hrest]
    constructor
    · rintro (_ | ⟨h, _, _⟩)
      · rfl
      · omega
    · rintro rfl
      exact .stop hrest
  · have hround := dealRound_equalShares base timed rest (by omega) hle
    constructor
    · rintro (h | ⟨_, heq, hmore⟩)
      · omega
      · -- the rest after the round is nothing, so there is no second one
        rw [hround] at heq
        cases heq
        rcases hmore with _ | ⟨h, _, _⟩
        · rfl
        · omega
    · rintro rfl
      exact .round (by omega) hround (.stop (Int.le_refl 0))

/-- Without a timed entry nobody gets anything. -/
theorem deal_of_untimed (base rest : Int) {ts : List Bool} (h : ts.count true = 0) :
    distribute.deal base rest ts = List.replicate ts.length 0 := by
  induction ts with
  | nil => rfl
  | cons t ts ih =>
    cases t with
    | false =>
      rw [List.count_cons_of_ne (by decide)] at h
      rw [distribute.deal, ih h]
      rfl
    | true => simp at h

/-- **The rounds come to an end**, and leave every entry with what `distribute` gives it. -/
theorem sharedInRounds_iff {total : Int} {timed : List Bool} {vs : List Int} :
    SharedInRounds total timed vs ↔ vs = distribute total timed := by
  unfold SharedInRounds
  split
  · next hcount => rw [distribute, deal_of_untimed _ _ hcount]
  · next hcount =>
    -- the rest is a remainder, so it is smaller than the number of timed entries
    have hmod := Int.tdiv_mul_self total (timed.count true)
    have hlt := Int.tmod_lt_of_pos total (show 0 < (timed.count true : Int) by omega)
    exact dealtOut_equalShares_iff (by omega)

/-! ### Shares by position -/

theorem getElem?_spread (g : Nat → Int) : ∀ (ts : List Bool) (i n : Nat),
    (spread g i ts)[n]? =
      ts[n]?.map fun t => if t then g (i + (ts.take n).count true) else 0 := by
  intro ts
  induction ts with
  | nil => intro i n; simp [spread]
  | cons t ts ih =>
    intro i n
    cases n with
    | zero => cases t <;> simp [spread]
    | succ n =>
      cases t with
      | false => simp [spread, ih]
      | true =>
        have hnumber : i + 1 + (ts.take n).count true = i + ((ts.take n).count true + 1) := by omega
        simp [spread, ih, hnumber]

/-- **The value of each entry**: a sound gets the share with its number, which is the number of
sounds before it. -/
theorem getElem?_distribute {total : Int} (h0 : 0 ≤ total) (timed : List Bool) (i : Nat) :
    (distribute total timed)[i]? = timed[i]?.map fun t =>
      if t then share total (timed.count true) ((timed.take i).count true) else 0 := by
  rw [distribute_eq_spread h0, getElem?_spread]
  simp

/-- A sound does not get less than a later one, and at most one unit more. -/
theorem share_anti (total : Int) (count : Nat) {i j : Nat} (h : i ≤ j) :
    share total count j ≤ share total count i ∧ share total count i ≤ share total count j + 1 := by
  unfold share
  split <;> split <;> omega

/-- **A tuplet's length is shared exactly.**  Dealing it out in rounds comes to an end, at the
values of `distribute`, one for each entry.  Untimed entries get nothing.  Of the sounds, the first
ones get one unit more than the others, as many as the remainder says.  So the shares add up to the
length, a later one is never larger and at most one unit smaller, and none is more than the
whole. -/
theorem distribute_exact {total : Int} (h0 : 0 ≤ total) (timed : List Bool) :
    (∀ ws, SharedInRounds total timed ws ↔ ws = distribute total timed) ∧
    let k := timed.count true
    let vs := distribute total timed
    vs.length = timed.length ∧
    (∀ i : Nat, timed[i]? = some false → vs[i]? = some 0) ∧
    (∀ i : Nat, timed[i]? = some true →
      vs[i]? = some (if (timed.take i).count true < total % k then total / k + 1 else total / k)) ∧
    (1 ≤ k → vs.sum = total) ∧
    (∀ (i j : Nat) (v w : Int), i ≤ j → timed[i]? = some true → timed[j]? = some true →
      vs[i]? = some v → vs[j]? = some w → w ≤ v ∧ v ≤ w + 1) ∧
    (∀ v ∈ vs, 0 ≤ v ∧ v ≤ total) ∧
    (k = 0 → vs = List.replicate timed.length 0) := by
  refine ⟨fun ws => sharedInRounds_iff, ?_⟩
  intro k vs
  have hvalue : ∀ i : Nat, timed[i]? = some true →
      vs[i]? = some (share total k ((timed.take i).count true)) := by
    intro i hi
    rw [getElem?_distribute h0, hi]
    rfl
  refine ⟨length_distribute h0 timed, ?_, ?_, ?_, ?_, ?_, ?_⟩
  · intro i hi
    rw [getElem?_distribute h0, hi]
    rfl
  · intro i hi
    rw [hvalue i hi, share]
    split <;> simp
  · intro hk
    exact sum_distribute h0 (List.count_pos_iff.mp hk)
  · intro i j v w hij hi hj hv hw
    rw [hvalue i hi, Option.some.injEq] at hv
    rw [hvalue j hj, Option.some.injEq] at hw
    subst hv
    subst hw
    exact share_anti total k ((List.take_sublist_take_left hij).count_le true)
  · exact fun v hv => mem_distribute h0 hv
  · exact deal_of_untimed _ _

/-- Four sounds between two marks share eleven units: the first three get one more. -/
theorem distribute_exact_marks :
    let timed := [true, false, true, true, false, true]
    (0 : Int) ≤ 11 ∧ distribute 11 timed = [3, 0, 3, 3, 0, 2] ∧
      SharedInRounds 11 timed [3, 0, 3, 3, 0, 2] ∧
      (distribute 11 timed)[3]? = some (11 / 4 + 1) ∧ (distribute 11 timed)[5]? = some (11 / 4) ∧
      (distribute 11 timed).sum = 11 := by
  intro timed
  obtain ⟨hrounds, -, -, hvalue, hsum, -⟩ := distribute_exact (by decide : (0 : Int) ≤ 11) timed
  refine ⟨by decide, by decide, (hrounds _).mpr (by decide), ?_, ?_, hsum (by decide)⟩
  · rw [hvalue 3 rfl]
    decide
  · rw [hvalue 5 rfl]
    decide

end Chiptune
