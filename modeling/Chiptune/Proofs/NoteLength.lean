import Chiptune.Warning
import Chiptune.Timing
import Mathlib.Algebra.BigOperators.Group.List.Basic
import Mathlib.Algebra.Ring.Int.Defs

/-!
# The parts of a note's length

A length is split into a part that sounds and a silent part.  Neither is negative, and the first is
never longer than the longest delay.  Together they are the length that was asked for, unless the
part that sounds had to be cut down; then a warning tells how much is missing.

The silent part is rounded down, so a cutoff below nothing does no harm to a note of few units.
Only where a part would be negative after rounding is there no split.

## Main definitions

* `NoteLength.warnings` — what is reported about a length.
* `Warning.loss` — the units that a channel loses by what a warning reports.
* `Cutoff.Overruns`, `Cutoff.Admissible` — cutoffs that do not suit a note, and those that suit all.

## Main results

* `splitNote_parts` — the bounds of the parts, and what they add up to.
* `Cutoff.units_negative_iff` — when a part would be negative.
* `splitNote_eq`, `splitNote_exact` — when a note is split, and its parts in closed form.
-/

namespace Chiptune

/-- What is reported about the length of a note on a channel. -/
def NoteLength.warnings (name : String) (length : NoteLength) : List Warning :=
  match length.remark with
  | none => []
  | some .tooShort => [.noteTooShort name length.active length.scale]
  | some (.clamped requested) => [.noteTooLong name requested (maxLength length.scale)]

/-- The units that the channel `name` loses by what a warning reports. -/
def Warning.loss (name : String) : Warning → Int
  | noteTooLong channel units longest => if channel = name then units - longest else 0
  | _ => 0

/-- The units that the channel `name` loses by what some warnings report. -/
def Warning.losses (name : String) (ws : List Warning) : Int := (ws.map (loss name)).sum

@[simp] theorem Warning.losses_nil (name : String) : Warning.losses name [] = 0 := rfl

/-- A tick takes no negative time. -/
theorem unitsPerTick?_nonneg {tempo : Nat} {clock : FrameClock} {perTick : Int}
    (h : unitsPerTick? tempo clock = some perTick) : 0 ≤ perTick := by
  unfold unitsPerTick? at h
  split at h
  · cases h
  · have hscale := clock.scale_pos
    cases h
    refine Int.ediv_nonneg (Int.mul_nonneg (by omega) (by omega)) (by omega)

/-- **The parts of a length.**  They are not negative, the first is not longer than the longest
delay, and what is missing of the length that was asked for is reported. -/
theorem splitNote_parts {ticks tempo : Nat} {clock : FrameClock} {cutoff : Cutoff}
    {length : NoteLength} (h : splitNote ticks tempo clock cutoff = .ok length) (name : String) :
    ∃ perTick, unitsPerTick? tempo clock = some perTick ∧
      0 ≤ length.active ∧ length.active ≤ maxLength clock.scale ∧ 0 ≤ length.cutoff ∧
      length.active + length.cutoff =
        perTick * ticks - Warning.losses name (length.warnings name) := by
  unfold splitNote at h
  split at h
  · cases h
  · next perTick hper =>
    have hmax := maxLength_pos clock.scale_pos
    refine ⟨perTick, hper, ?_⟩
    extract_lets total cut active longest at h
    split at h
    · cases h
    · split at h
      · -- the part that sounds is cut down, and the warning says by how much
        cases h
        simp only [NoteLength.warnings, Warning.losses, Warning.loss, List.map_cons, List.map_nil,
          List.sum_cons, List.sum_nil, if_true]
        omega
      · cases h
        -- a note may be reported as too short, but nothing of it is lost
        have hloss : Warning.losses name (NoteLength.warnings name ⟨active, cut, total,
            clock.scale, if active < clock.scale then some .tooShort else none⟩) = 0 := by
          unfold NoteLength.warnings
          split <;> simp_all [Warning.losses, Warning.loss]
        rw [hloss]
        simp only
        omega

/-! ### The split in closed form -/

/-- The cutoff leaves less than nothing of a note of `total` units: it has a negative number of
frames, or more than all eighths, or so few of them that the silent part outgrows the note. -/
def Cutoff.Overruns (c : Cutoff) (total : Int) : Prop :=
  match c.measure with
  | .frames => c.value < 0
  | .eighths => (8 < c.value ∧ 0 < total) ∨ (c.value < 0 ∧ 8 ≤ total * -c.value)

/-- A cutoff that suits all notes. -/
def Cutoff.Admissible (c : Cutoff) : Prop :=
  match c.measure with
  | .frames => 0 ≤ c.value
  | .eighths => 0 ≤ c.value ∧ c.value ≤ 8

namespace Cutoff

variable {c : Cutoff} {total total' scale : Int}

theorem mul_eighths (total v : Int) : total * (8 - v) = 8 * total - total * v := by
  rw [Int.mul_sub]
  omega

/-- A part of a note is negative exactly if the cutoff overruns it. -/
theorem units_negative_iff (htotal : 0 ≤ total) (hscale : 0 < scale) :
    (total - c.units total scale < 0 ∨ c.units total scale < 0) ↔ c.Overruns total := by
  obtain ⟨measure, leading, v⟩ := c
  cases measure with
  | frames =>
    simp only [units, Overruns]
    rcases Int.lt_or_le v 0 with hv | hv
    · have : v * scale < 0 := Int.mul_neg_of_neg_of_pos hv hscale
      omega
    · have : 0 ≤ v * scale := Int.mul_nonneg hv (Int.le_of_lt hscale)
      omega
  | eighths =>
    simp only [units, Overruns]
    -- everything is linear in the length and its product with the value, but for their signs
    have hneg : total * -v = -(total * v) := Int.mul_neg ..
    rw [mul_eighths, hneg]
    rcases Int.lt_or_le v 0 with hv | hv
    · have : total * v ≤ 0 := Int.mul_nonpos_of_nonneg_of_nonpos htotal (Int.le_of_lt hv)
      omega
    · have : 0 ≤ total * v := Int.mul_nonneg htotal hv
      rcases Int.lt_or_le 8 v with hv' | hv'
      · have hmore : total * 9 ≤ total * v := Int.mul_le_mul_of_nonneg_left hv' htotal
        rcases Int.lt_or_eq_of_le htotal with hpos | hzero
        · omega
        · subst hzero
          omega
      · have hless : total * v ≤ total * 8 := Int.mul_le_mul_of_nonneg_left hv' htotal
        omega

theorem overruns_iff : c.Overruns total ↔
    (c.measure = .frames ∧ c.value < 0) ∨
      (c.measure = .eighths ∧
        ((8 < c.value ∧ 0 < total) ∨ (c.value < 0 ∧ 8 ≤ total * -c.value))) := by
  unfold Overruns
  cases c.measure <;> simp

/-- An admissible cutoff overruns no note. -/
theorem Admissible.not_overruns (h : c.Admissible) (total : Int) : ¬ c.Overruns total := by
  obtain ⟨measure, leading, v⟩ := c
  cases measure <;> simp only [Admissible, Overruns] at h ⊢ <;> omega

/-- Of a longer note, both parts are at least as long. -/
theorem Admissible.units_mono (h : c.Admissible) (scale : Int) (hle : total ≤ total') :
    c.units total scale ≤ c.units total' scale ∧
      total - c.units total scale ≤ total' - c.units total' scale := by
  obtain ⟨measure, leading, v⟩ := c
  cases measure with
  | frames =>
    simp only [units]
    omega
  | eighths =>
    obtain ⟨hlow, hhigh⟩ : 0 ≤ v ∧ v ≤ 8 := h
    have hsounding : total * v ≤ total' * v := Int.mul_le_mul_of_nonneg_right hle hlow
    have hsilent : total * (8 - v) ≤ total' * (8 - v) :=
      Int.mul_le_mul_of_nonneg_right hle (by omega)
    simp only [units]
    rw [mul_eighths, mul_eighths] at hsilent ⊢
    omega

end Cutoff

/-- The length of a tick, if time passes. -/
theorem unitsPerTick?_eq {tempo : Nat} (h : 1 ≤ tempo) (clock : FrameClock) :
    unitsPerTick? tempo clock = some (clock.refreshHz * 60 * clock.scale / (8 * tempo)) := by
  rw [unitsPerTick?, if_neg (by omega), Int.mul_comm (tempo : Int)]

/-- The remark about a length of which `sounding` units would sound. -/
def LengthRemark.about (sounding scale : Int) : Option LengthRemark :=
  if maxLength scale < sounding then some (.clamped sounding)
  else if sounding < scale then some .tooShort else none

namespace LengthRemark

variable {sounding scale : Int}

theorem about_eq_clamped_iff {requested : Int} :
    about sounding scale = some (.clamped requested) ↔
      requested = sounding ∧ maxLength scale < sounding := by
  unfold about
  split
  · next h => simp [h, eq_comm]
  · next h => split <;> simp [h]

theorem about_eq_tooShort_iff (h : 0 < scale) :
    about sounding scale = some .tooShort ↔ sounding < scale := by
  unfold about
  split
  · next hlong =>
    have hnot : ¬ sounding < scale := by
      unfold maxLength at hlong
      omega
    simp [hnot]
  · split
    · next hshort => simp [hshort]
    · next hshort => simp [hshort]

end LengthRemark

/-- **The split in closed form**: a note is split unless the cutoff overruns it. -/
theorem splitNote_eq {tempo : Nat} (htempo : 1 ≤ tempo) (ticks : Nat) (clock : FrameClock)
    (cutoff : Cutoff) {total cut : Int}
    (htotal : total = clock.refreshHz * 60 * clock.scale / (8 * tempo) * ticks)
    (hcut : cut = cutoff.units total clock.scale) :
    (cutoff.Overruns total →
      splitNote ticks tempo clock cutoff = .error (.negative (total - cut) cut)) ∧
    (¬ cutoff.Overruns total → 0 ≤ cut ∧ cut ≤ total ∧
      splitNote ticks tempo clock cutoff =
        .ok ⟨min (total - cut) (maxLength clock.scale), cut, total, clock.scale,
          LengthRemark.about (total - cut) clock.scale⟩) := by
  have hper := unitsPerTick?_eq htempo clock
  have hnonneg : 0 ≤ total := by
    rw [htotal]
    exact Int.mul_nonneg (unitsPerTick?_nonneg hper) (by omega)
  have hnegative := Cutoff.units_negative_iff (c := cutoff) hnonneg clock.scale_pos
  simp only [splitNote, hper, ← htotal, ← hcut] at hnegative ⊢
  rw [← hnegative]
  constructor
  · intro h
    rw [if_pos h]
  · intro h
    refine ⟨by omega, by omega, ?_⟩
    rw [if_neg h, LengthRemark.about]
    split
    · rw [Int.min_eq_right (by omega)]
    · rw [Int.min_eq_left (by omega)]

/-- **The split of a note is exact.**  It fails exactly if the cutoff is a negative number of
frames, or one of eighths that makes a part negative after rounding.  Otherwise the silent part is
what the cutoff asks for, and lies within the note; the sounding part is the rest, up to the longest
delay.  A part that is cut down is reported, and so is one that is shorter than a frame; unless
something is cut down, the two parts make up the note.  With a cutoff that suits all notes, a longer
note has longer parts. -/
theorem splitNote_exact {tempo : Nat} (htempo : 1 ≤ tempo) (clock : FrameClock) (cutoff : Cutoff) :
    clock.scale = (if clock.fractional then 256 else 1) ∧
    (∀ ticks : Nat,
      let total : Int := clock.refreshHz * 60 * clock.scale / (8 * tempo) * ticks
      let v := cutoff.value
      ((∃ active cut, splitNote ticks tempo clock cutoff = .error (.negative active cut)) ↔
        (cutoff.measure = .frames ∧ v < 0) ∨
          (cutoff.measure = .eighths ∧ ((8 < v ∧ 0 < total) ∨ (v < 0 ∧ 8 ≤ total * -v)))) ∧
      (¬ (∃ active cut, splitNote ticks tempo clock cutoff = .error (.negative active cut)) →
        ∃ length, splitNote ticks tempo clock cutoff = .ok length ∧
          length.total = total ∧ length.scale = clock.scale ∧
          0 ≤ length.cutoff ∧ length.cutoff ≤ total ∧
          (cutoff.measure = .frames → length.cutoff = min (v * clock.scale) total) ∧
          (cutoff.measure = .eighths → length.cutoff = total * (8 - v) / 8) ∧
          length.active = min (total - length.cutoff) (maxLength clock.scale) ∧
          (∀ requested, length.remark = some (.clamped requested) ↔
            requested = total - length.cutoff ∧ maxLength clock.scale < total - length.cutoff) ∧
          (length.remark = some .tooShort ↔ total - length.cutoff < clock.scale) ∧
          (length.active + length.cutoff = total ↔
            ∀ requested, length.remark ≠ some (.clamped requested)))) ∧
    (cutoff.Admissible → ∀ ticks ticks' : Nat, ticks ≤ ticks' →
      ∃ length length', splitNote ticks tempo clock cutoff = .ok length ∧
        splitNote ticks' tempo clock cutoff = .ok length' ∧ length.active ≤ length'.active ∧
        length.cutoff ≤ length'.cutoff ∧ length.total ≤ length'.total) := by
  refine ⟨rfl, fun ticks => ?_, fun hadmissible ticks ticks' hticks => ?_⟩
  · intro total v
    obtain ⟨hfails, hsplits⟩ :=
      splitNote_eq htempo ticks clock cutoff (show total = _ from rfl) rfl
    have hiff : (∃ active cut, splitNote ticks tempo clock cutoff = .error (.negative active cut)) ↔
        cutoff.Overruns total := by
      refine ⟨?_, fun h => ⟨_, _, hfails h⟩⟩
      rintro ⟨active, cut, herror⟩
      by_contra h
      rw [(hsplits h).2.2] at herror
      cases herror
    refine ⟨hiff.trans Cutoff.overruns_iff, fun hsuccess => ?_⟩
    obtain ⟨hnonneg, hle, hsplit⟩ := hsplits (mt hiff.mpr hsuccess)
    refine ⟨_, hsplit, rfl, rfl, hnonneg, hle, ?_, ?_, rfl, ?_, ?_, ?_⟩
    · intro hmeasure
      simp only [Cutoff.units, hmeasure]
      rfl
    · intro hmeasure
      simp only [Cutoff.units, hmeasure]
      rfl
    · exact fun requested => LengthRemark.about_eq_clamped_iff
    · exact LengthRemark.about_eq_tooShort_iff clock.scale_pos
    · -- something is missing exactly if the sounding part was too long
      simp only [ne_eq, LengthRemark.about_eq_clamped_iff]
      constructor
      · rintro hsum requested ⟨-, hlong⟩
        omega
      · intro hkept
        have hshort : ¬ maxLength clock.scale < total - cutoff.units total clock.scale :=
          fun hlong => hkept _ ⟨rfl, hlong⟩
        omega
  · obtain ⟨-, hsplits⟩ := splitNote_eq htempo ticks clock cutoff rfl rfl
    obtain ⟨-, hsplits'⟩ := splitNote_eq htempo ticks' clock cutoff rfl rfl
    obtain ⟨-, -, hsplit⟩ := hsplits (hadmissible.not_overruns _)
    obtain ⟨-, -, hsplit'⟩ := hsplits' (hadmissible.not_overruns _)
    have hper := unitsPerTick?_nonneg (unitsPerTick?_eq htempo clock)
    have htotals := Int.mul_le_mul_of_nonneg_left (Int.ofNat_le.mpr hticks) hper
    obtain ⟨hsilent, hsounding⟩ := hadmissible.units_mono clock.scale htotals
    refine ⟨_, _, hsplit, hsplit', ?_, hsilent, htotals⟩
    exact Int.le_min.mpr ⟨Int.le_trans (Int.min_le_left ..) hsounding, Int.min_le_right ..⟩

/-- Seven units survive a cutoff below nothing by rounding, eight do not; and a note that is cut
down beside a longer one. -/
theorem splitNote_exact_rounding :
    let clock : FrameClock := ⟨60, false⟩
    let below : Cutoff := ⟨.eighths, true, -1⟩
    let tail : Cutoff := ⟨.frames, false, 2⟩
    (∃ active cut, splitNote 8 450 clock below = .error (.negative active cut)) ∧
      splitNote 7 450 clock below = .ok ⟨0, 7, 7, 1, some .tooShort⟩ ∧
      splitNote 5000 60 clock tail = .ok ⟨0x3FFF, 2, 35000, 1, some (.clamped 34998)⟩ ∧
      ∃ length length', splitNote 2000 60 clock tail = .ok length ∧
        splitNote 5000 60 clock tail = .ok length' ∧ length.active ≤ length'.active ∧
        length.cutoff ≤ length'.cutoff ∧ length.total ≤ length'.total := by
  intro clock below tail
  obtain ⟨-, hbelow, -⟩ := splitNote_exact (by decide : 1 ≤ 450) clock below
  obtain ⟨-, -, htail⟩ := splitNote_exact (by decide : 1 ≤ 60) clock tail
  have hnegative : (-1 : Int) < 0 ∧ 8 ≤ (60 * 60 * 1 / (8 * 450) * 8 : Int) * -(-1) := by decide
  refine ⟨(hbelow 8).1.mpr (.inr ⟨rfl, .inr hnegative⟩), by decide, by decide, ?_⟩
  exact htail (by decide : (0 : Int) ≤ 2) 2000 5000 (by decide)

end Chiptune
