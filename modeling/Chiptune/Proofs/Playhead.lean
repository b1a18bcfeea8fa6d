import Chiptune.Macro.Param

/-!
# Reading a sequence of parameters

A playhead reads the main part of a sequence once, and then its loop part again and again; without a
loop part it stays at the last parameter.  Moving on by one is a matter of cases.  Here the place
after any number of reads is given at once, and with it the parameter that is read there.

## Main definitions

* `ParamSeq.nth?`, `ParamSeq.value` — the parameter after some others, and its number.
* `Playhead.nth` — the place after some reads.

## Main results

* `Playhead.start_eq_nth`, `Playhead.advance_nth`, `Playhead.peek?_nth` — a playhead is at the place
  after so many reads, and finds the parameter there.
* `ParamSeq.exists_nth?` — a sequence with parameters is never at an end.
-/

namespace Chiptune

namespace ParamSeq

/-- The parameter after `n` others: of the main part, then of the loop part again and again.
Without a loop part the last one is held. -/
def nth? (s : ParamSeq) (n : Nat) : Option Param :=
  if n < s.main.length then s.main[n]?
  else if s.loop = [] then s.main.getLast?
  else s.loop[(n - s.main.length) % s.loop.length]?

/-- The number after `n` others. -/
def value (s : ParamSeq) (n : Nat) : Int := ((s.nth? n).bind Param.toInt?).getD 0

/-- **A sequence with parameters is never at an end.** -/
theorem exists_nth? {s : ParamSeq} (h : s.isEmpty = false) (n : Nat) :
    ∃ p ∈ s.toList, s.nth? n = some p := by
  unfold nth?
  by_cases hmain : n < s.main.length
  · rw [if_pos hmain, List.getElem?_eq_getElem hmain]
    exact ⟨_, List.mem_append_left _ (List.getElem_mem hmain), rfl⟩
  · rw [if_neg hmain]
    by_cases hloop : s.loop = []
    · have hne : s.main ≠ [] := by
        intro hempty
        simp [isEmpty, hempty, hloop] at h
      rw [if_pos hloop, List.getLast?_eq_some_getLast hne]
      exact ⟨_, List.mem_append_left _ (List.getLast_mem hne), rfl⟩
    · have hlt : (n - s.main.length) % s.loop.length < s.loop.length :=
        Nat.mod_lt _ (List.length_pos_iff.mpr hloop)
      rw [if_neg hloop, List.getElem?_eq_getElem hlt]
      exact ⟨_, List.mem_append_right _ (List.getElem_mem hlt), rfl⟩

end ParamSeq

namespace Playhead

/-- The place after `n` reads. -/
def nth (s : ParamSeq) (n : Nat) : Playhead :=
  if n < s.main.length then ⟨s, false, n⟩
  else if s.loop = [] then ⟨s, false, s.main.length - 1⟩
  else ⟨s, true, (n - s.main.length) % s.loop.length⟩

theorem seq_nth (s : ParamSeq) (n : Nat) : (nth s n).seq = s := by
  unfold nth
  split
  · rfl
  · split <;> rfl

theorem start_eq_nth (s : ParamSeq) : start s = nth s 0 := by
  unfold start nth
  cases hmain : s.main with
  | cons p ps => simp
  | nil =>
    by_cases hloop : s.loop = []
    · simp [hloop]
    · simp [hloop]

theorem rewind_nth (s : ParamSeq) (n : Nat) : (nth s n).rewind = nth s 0 := by
  rw [rewind, seq_nth, start_eq_nth]

/-- **Moving on leads to the place after one more read.** -/
theorem advance_nth (s : ParamSeq) (n : Nat) : (nth s n).advance = nth s (n + 1) := by
  unfold nth
  by_cases hmain : n < s.main.length
  · rw [if_pos hmain]
    by_cases hnext : n + 1 < s.main.length
    · simp [advance, hnext]
    · by_cases hloop : s.loop = []
      · have hlast : s.main.length - 1 = n := by omega
        simp [advance, hnext, hloop, hlast]
      · have hfirst : n + 1 - s.main.length = 0 := by omega
        simp [advance, hnext, hloop, hfirst]
  · have hnext : ¬ n + 1 < s.main.length := by omega
    rw [if_neg hmain, if_neg hnext]
    by_cases hloop : s.loop = []
    · have hstay : ¬ s.main.length - 1 + 1 < s.main.length := by omega
      simp [advance, hloop, hstay]
    · have hstep : n + 1 - s.main.length = n - s.main.length + 1 := by omega
      simp [advance, hloop, hstep]

theorem peek?_nth (s : ParamSeq) (n : Nat) : (nth s n).peek? = s.nth? n := by
  unfold nth ParamSeq.nth?
  by_cases hmain : n < s.main.length
  · simp [peek?, hmain]
  · by_cases hloop : s.loop = []
    · simp [peek?, hmain, hloop, List.getLast?_eq_getElem?]
    · simp [peek?, hmain, hloop]

end Playhead

end Chiptune
