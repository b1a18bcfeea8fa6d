import Chiptune.Proofs.Frames
import Mathlib.Data.List.Perm.Basic

/-!
# Macros side by side

Every macro of a channel drives values of its own, and the channel has one flag for all of them: it
says that some value was changed.  So what a macro does depends only on the values that it drives,
and a step of all macros comes to the same as if each had stepped alone: each value is what its own
macro makes of it, and the flag is up if one of them would put it up.

## Main definitions

* `Drive.values` — the values that a macro drives.
* `PlayState.fixed` — the part of a state that no macro touches.
* `LiveMacro.Apart` — two macros drive different values.
* `LiveMacro.alters` — whether a step of a macro puts the flag up.

## Main results

* `PlayState.eq_of_values` — a state is made of its fixed part, the values and the flag.
* `LiveMacro.values_workAll_of_mem`, `LiveMacro.valueChanged_workAll` — what macros do together is
  what each of them does alone.
* `LiveMacro.workAll_perm` — the order of the macros does not matter.
-/

namespace Chiptune

/-! ### What is driven -/

namespace Drive

/-- The values that a macro drives. -/
def values : Drive → PlayState → List Int
  | arpeggio _, s => [s.noteOffset]
  | vibrato, s => [s.vibratoOffset]
  | freqSlide, s => [s.freqOffset]
  | volumeSlide, s => s.operatorVolume.toList
  | volume, s => [s.volume]
  | duty, s => [s.duty]

/-- The same drive for both kinds of arpeggio. -/
def kind : Drive → Drive
  | arpeggio _ => arpeggio false
  | d => d

theorem sameValue_iff {d e : Drive} : d.sameValue e = true ↔ d.kind = e.kind := by
  cases d <;> cases e <;> simp [sameValue, kind]

theorem sameValue_comm (d e : Drive) : d.sameValue e = e.sameValue d := by
  rw [Bool.eq_iff_iff, sameValue_iff, sameValue_iff]
  exact eq_comm

theorem sameValue_right {d e : Drive} (h : d.sameValue e = true) (x : Drive) :
    x.sameValue d = x.sameValue e := by
  rw [Bool.eq_iff_iff, sameValue_iff, sameValue_iff, sameValue_iff.mp h]

theorem values_kind (d : Drive) : d.kind.values = d.values := by
  cases d <;> rfl

theorem values_of_sameValue {d e : Drive} (h : d.sameValue e = true) : d.values = e.values := by
  rw [← values_kind d, sameValue_iff.mp h, values_kind]

end Drive

namespace PlayState

/-- The part of a state that no macro touches. -/
def fixed (s : PlayState) : Int × Int × Option Nat × Bool :=
  (s.note, s.octave, s.selectedOperator, s.noteOn)

theorem parts_of_fixed {s s' : PlayState} (h : s.fixed = s'.fixed) :
    s.note = s'.note ∧ s.octave = s'.octave ∧ s.selectedOperator = s'.selectedOperator ∧
      s.noteOn = s'.noteOn := by
  simpa [fixed] using h

/-- **A state is made of its fixed part, the values and the flag.** -/
theorem eq_of_values {s s' : PlayState} (hfixed : s.fixed = s'.fixed)
    (hvalues : ∀ d : Drive, d.values s = d.values s')
    (hchanged : s.valueChanged = s'.valueChanged) :
    s = s' := by
  have harpeggio : s.noteOffset = s'.noteOffset := List.singleton_inj.mp (hvalues (.arpeggio false))
  have hvibrato : s.vibratoOffset = s'.vibratoOffset := List.singleton_inj.mp (hvalues .vibrato)
  have hslide : s.freqOffset = s'.freqOffset := List.singleton_inj.mp (hvalues .freqSlide)
  have hvolumes : s.operatorVolume = s'.operatorVolume :=
    Vector.toList_inj.mp (hvalues .volumeSlide)
  have hvolume : s.volume = s'.volume := List.singleton_inj.mp (hvalues .volume)
  have hduty : s.duty = s'.duty := List.singleton_inj.mp (hvalues .duty)
  clear hvalues
  cases s
  cases s'
  simp_all [fixed]

@[simp] theorem fixed_markIf (s : PlayState) (changed : Bool) :
    (s.markIf changed).fixed = s.fixed := by
  unfold markIf markChanged
  split
  · split <;> rfl
  · rfl

@[simp] theorem values_markIf (d : Drive) (s : PlayState) (changed : Bool) :
    d.values (s.markIf changed) = d.values s := by
  unfold markIf markChanged
  split
  · split <;> cases d <;> rfl
  · rfl

theorem valueChanged_markIf (s : PlayState) (changed : Bool) :
    (s.markIf changed).valueChanged = (s.valueChanged || (!s.noteOn && changed)) := by
  unfold markIf markChanged
  cases changed <;> cases s.noteOn <;> simp

end PlayState

namespace LiveMacro

open Drive PlayState

/-! ### One macro -/

/-- What a number does to the values of its macro. -/
def put (d : Drive) (anew : Bool) (value : Int) (s : PlayState) : PlayState :=
  match d with
  | .arpeggio cumulative =>
    { s with noteOffset := if cumulative && !anew then s.noteOffset + value else value }
  | .freqSlide => { s with freqOffset := if anew then value else s.freqOffset + value }
  | .vibrato => { s with vibratoOffset := value }
  | .volumeSlide => setOperators s value
  | .volume => { s with volume := value }
  | .duty => { s with duty := value }

/-- **What a number does**: it changes the values of its macro, and puts the flag up if they are
others than before.  A volume slide puts it up in any case. -/
theorem act_eq (d : Drive) (anew : Bool) (value : Int) (s : PlayState) :
    act d anew value s = (put d anew value s).markIf
      (d == .volumeSlide || d.values (put d anew value s) != d.values s) := by
  have hsingle : ∀ x y : Int, ([x] != [y]) = (x != y) := fun x y => by simp [bne]
  cases d with
  | volumeSlide => rfl
  | _ =>
    simp only [put, values, hsingle]
    rfl

theorem setOperators_eq (s : PlayState) (value : Int) :
    setOperators s value =
      { s with operatorVolume := (setOperators s value).operatorVolume } := by
  unfold setOperators
  split
  · split <;> rfl
  · rfl

theorem fixed_put (d : Drive) (anew : Bool) (value : Int) (s : PlayState) :
    (put d anew value s).fixed = s.fixed := by
  cases d with
  | volumeSlide =>
    rw [put, setOperators_eq]
    rfl
  | _ => rfl

theorem valueChanged_put (d : Drive) (anew : Bool) (value : Int) (s : PlayState) :
    (put d anew value s).valueChanged = s.valueChanged := by
  cases d with
  | volumeSlide => rw [put, setOperators_eq]
  | _ => rfl

/-- A number leaves the values alone that its macro does not drive. -/
theorem values_put_other {d e : Drive} (h : e.sameValue d = false) (anew : Bool) (value : Int)
    (s : PlayState) : e.values (put d anew value s) = e.values s := by
  cases d with
  | volumeSlide =>
    rw [put, setOperators_eq]
    cases e <;> first | rfl | cases h
  | _ => cases e <;> first | rfl | cases h

/-- What a number does to the values of its macro depends on these values and the fixed part. -/
theorem values_put_congr {d : Drive} {s s' : PlayState} (hfixed : s.fixed = s'.fixed)
    (hvalues : d.values s = d.values s') (anew : Bool) (value : Int) :
    d.values (put d anew value s) = d.values (put d anew value s') := by
  obtain ⟨-, -, hoperator, -⟩ := parts_of_fixed hfixed
  cases d with
  | volumeSlide =>
    have hvolumes : s.operatorVolume = s'.operatorVolume := Vector.toList_inj.mp hvalues
    simp only [put, setOperators, hoperator]
    split
    · split <;> simp [values, hvolumes]
    · rfl
  | _ =>
    simp only [values, List.cons.injEq, and_true] at hvalues
    simp only [put, values, hvalues]

theorem fixed_act (d : Drive) (anew : Bool) (value : Int) (s : PlayState) :
    (act d anew value s).fixed = s.fixed := by
  rw [act_eq, fixed_markIf, fixed_put]

theorem values_act (d e : Drive) (anew : Bool) (value : Int) (s : PlayState) :
    e.values (act d anew value s) = e.values (put d anew value s) := by
  rw [act_eq, values_markIf]

theorem valueChanged_act (d : Drive) (anew : Bool) (value : Int) (s : PlayState) :
    (act d anew value s).valueChanged = (s.valueChanged ||
      (!s.noteOn && (d == .volumeSlide || d.values (act d anew value s) != d.values s))) := by
  obtain ⟨-, -, -, hnote⟩ := parts_of_fixed (fixed_put d anew value s)
  rw [values_act, act_eq, valueChanged_markIf, valueChanged_put, hnote]

theorem fixed_work (m : LiveMacro) (trigger : Pace) (s : PlayState) :
    (m.work trigger s).fixed = s.fixed := by
  unfold work
  cases m.reads? trigger with
  | none => rfl
  | some x => exact fixed_act _ _ _ _

theorem values_work_other {m : LiveMacro} {d : Drive} (h : d.sameValue m.drive = false)
    (trigger : Pace) (s : PlayState) : d.values (m.work trigger s) = d.values s := by
  unfold work
  cases m.reads? trigger with
  | none => rfl
  | some x => exact (values_act _ _ _ _ _).trans (values_put_other h _ _ _)

theorem values_work_congr (m : LiveMacro) (trigger : Pace) {s s' : PlayState}
    (hfixed : s.fixed = s'.fixed) (hvalues : m.drive.values s = m.drive.values s') :
    m.drive.values (m.work trigger s) = m.drive.values (m.work trigger s') := by
  unfold work
  cases m.reads? trigger with
  | none => exact hvalues
  | some x =>
    rw [Option.elim_some, Option.elim_some, values_act, values_act]
    exact values_put_congr hfixed hvalues _ _

/-- Whether a step of a macro puts the flag up, if a note does not begin.  A volume slide does so
with every number that it reads, the others only if they change their value. -/
def alters (m : LiveMacro) (trigger : Pace) (s : PlayState) : Bool :=
  (m.drive == .volumeSlide && (m.reads? trigger).isSome) ||
    m.drive.values (m.work trigger s) != m.drive.values s

theorem valueChanged_work (m : LiveMacro) (trigger : Pace) (s : PlayState) :
    (m.work trigger s).valueChanged = (s.valueChanged || (!s.noteOn && m.alters trigger s)) := by
  unfold alters work
  cases m.reads? trigger with
  | none => simp
  | some x => simpa using valueChanged_act m.drive x.1 x.2 s

/-! ### All macros -/

/-- Two macros drive different values. -/
def Apart (m m' : LiveMacro) : Prop := m.drive.sameValue m'.drive = false

instance : DecidableRel Apart := fun _ _ => inferInstanceAs (Decidable (_ = _))

theorem Apart.symm {m m' : LiveMacro} (h : m.Apart m') : m'.Apart m :=
  (sameValue_comm _ _).trans h

theorem alters_work_of_apart {m m' : LiveMacro} (h : m.Apart m') (trigger : Pace) (s : PlayState) :
    m.alters trigger (m'.work trigger s) = m.alters trigger s := by
  have hvalues : m.drive.values (m'.work trigger s) = m.drive.values s := values_work_other h _ _
  unfold alters
  rw [m.values_work_congr trigger (m'.fixed_work trigger s) hvalues, hvalues]

/-- What some macros do one after the other. -/
def workAll (trigger : Pace) (ms : List LiveMacro) (s : PlayState) : PlayState :=
  ms.foldl (fun s m => m.work trigger s) s

variable {trigger : Pace} {ms ms' : List LiveMacro} {m : LiveMacro} {s : PlayState}

theorem workAll_cons (trigger : Pace) (m : LiveMacro) (ms : List LiveMacro) (s : PlayState) :
    workAll trigger (m :: ms) s = workAll trigger ms (m.work trigger s) := rfl

theorem fixed_workAll (trigger : Pace) (ms : List LiveMacro) (s : PlayState) :
    (workAll trigger ms s).fixed = s.fixed := by
  induction ms generalizing s with
  | nil => rfl
  | cons m ms ih => rw [workAll_cons, ih, fixed_work]

theorem values_workAll_other {d : Drive} (h : ∀ m ∈ ms, d.sameValue m.drive = false) :
    d.values (workAll trigger ms s) = d.values s := by
  induction ms generalizing s with
  | nil => rfl
  | cons m ms ih =>
    obtain ⟨hm, hms⟩ := List.forall_mem_cons.mp h
    rw [workAll_cons, ih hms, values_work_other hm]

/-- **Each value is what its own macro makes of it.** -/
theorem values_workAll_of_mem (hms : ms.Pairwise Apart) (hm : m ∈ ms) :
    m.drive.values (workAll trigger ms s) = m.drive.values (m.work trigger s) := by
  induction ms generalizing s with
  | nil => cases hm
  | cons m₀ ms ih =>
    obtain ⟨hapart, hms⟩ := List.pairwise_cons.mp hms
    rw [workAll_cons]
    rcases List.mem_cons.mp hm with rfl | hm
    · -- the macros after it leave its values alone
      exact values_workAll_other hapart
    · -- the macro before it has left its values alone
      rw [ih hms hm]
      exact m.values_work_congr trigger (m₀.fixed_work trigger s)
        (values_work_other (hapart m hm).symm trigger s)

/-- **The flag is up if one of the macros puts it up.** -/
theorem valueChanged_workAll (hms : ms.Pairwise Apart) (trigger : Pace) (s : PlayState) :
    (workAll trigger ms s).valueChanged =
      (s.valueChanged || (!s.noteOn && ms.any (·.alters trigger s))) := by
  induction ms generalizing s with
  | nil => simp [workAll]
  | cons m ms ih =>
    obtain ⟨hapart, hms⟩ := List.pairwise_cons.mp hms
    obtain ⟨-, -, -, hnote⟩ := parts_of_fixed (m.fixed_work trigger s)
    have hany : ms.any (·.alters trigger (m.work trigger s)) = ms.any (·.alters trigger s) := by
      rw [Bool.eq_iff_iff, List.any_eq_true, List.any_eq_true]
      refine exists_congr fun m' => and_congr_right fun hm' => ?_
      rw [alters_work_of_apart (hapart m' hm').symm]
    rw [workAll_cons, ih hms, valueChanged_work, hnote, hany, List.any_cons, Bool.or_assoc,
      Bool.and_or_distrib_left]

/-- **The order of the macros does not matter.** -/
theorem workAll_perm (hperm : ms.Perm ms') (hms : ms.Pairwise Apart) (trigger : Pace)
    (s : PlayState) : workAll trigger ms s = workAll trigger ms' s := by
  have hms' : ms'.Pairwise Apart := hperm.pairwise hms Apart.symm
  refine eq_of_values ?_ (fun d => ?_) ?_
  · rw [fixed_workAll, fixed_workAll]
  · by_cases hd : ∃ m ∈ ms, d.sameValue m.drive = true
    · obtain ⟨m, hm, hd⟩ := hd
      rw [values_of_sameValue hd, values_workAll_of_mem hms hm,
        values_workAll_of_mem hms' (hperm.mem_iff.mp hm)]
    · have hother : ∀ m ∈ ms, d.sameValue m.drive = false := fun m hm =>
        Bool.eq_false_iff.mpr fun h => hd ⟨m, hm, h⟩
      rw [values_workAll_other hother,
        values_workAll_other fun m hm => hother m (hperm.mem_iff.mpr hm)]
  · rw [valueChanged_workAll hms, valueChanged_workAll hms', hperm.any_eq]

end LiveMacro

/-! ### The macros of a channel -/

namespace PlayChannel

open Drive

/-- The macros that are left for a value. -/
theorem filter_detach (c : PlayChannel) (d e : Drive) :
    (c.detach d).macros.filter (·.drive.sameValue e) =
      if d.sameValue e then [] else c.macros.filter (·.drive.sameValue e) := by
  rw [detach, List.filter_filter]
  cases hde : d.sameValue e with
  | true =>
    refine List.filter_eq_nil_iff.mpr fun m _ => ?_
    rw [sameValue_right hde]
    simp
  | false =>
    refine List.filter_congr fun m _ => ?_
    cases hme : m.drive.sameValue e with
    | false => rfl
    | true => rw [sameValue_comm, sameValue_right hme, hde]; rfl

/-- A macro takes the place of the one that drove its value, and displaces no other. -/
theorem filter_attach (c : PlayChannel) (m : LiveMacro) (e : Drive) :
    (c.attach m).macros.filter (·.drive.sameValue e) =
      if m.drive.sameValue e then [m] else c.macros.filter (·.drive.sameValue e) := by
  show ((c.detach m.drive).macros ++ [m]).filter _ = _
  rw [List.filter_append, filter_detach, List.filter_singleton]
  cases m.drive.sameValue e <;> simp

end PlayChannel

end Chiptune
