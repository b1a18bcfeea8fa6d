import Chiptune.Proofs.Wiring

/-!
# When a channel has to be retriggered

Two flags tell the driver what to write to the chip: a note begins, or only some value has changed.
The macros of a channel share the second one.  It is exact: no change is missed, since every macro
that changes its value puts the flag up, and a change is not reported that is none in the end, since
no two macros drive one value and could undo each other's work.  Only a volume slide puts the flag
up with every number that it reads.

## Main results

* `LiveMacro.any_alters_iff` — some macro puts the flag up exactly if a value changes or a volume
  slide reads a number.
* `retrigger_exact` — the flags after a note and after a frame.
-/

namespace Chiptune

/-- The values that change, except those of the operators. -/
theorem Drive.exists_values_ne_iff {s s' : PlayState} :
    (∃ d : Drive, d ≠ .volumeSlide ∧ d.values s' ≠ d.values s) ↔
      s'.noteOffset ≠ s.noteOffset ∨ s'.freqOffset ≠ s.freqOffset ∨
        s'.vibratoOffset ≠ s.vibratoOffset ∨ s'.volume ≠ s.volume ∨ s'.duty ≠ s.duty := by
  constructor
  · rintro ⟨d, hd, hne⟩
    cases d with
    | volumeSlide => exact absurd rfl hd
    | _ => simp_all [values]
  · rintro (h | h | h | h | h)
    · exact ⟨.arpeggio false, by simp [values, h]⟩
    · exact ⟨.freqSlide, by simp [values, h]⟩
    · exact ⟨.vibrato, by simp [values, h]⟩
    · exact ⟨.volume, by simp [values, h]⟩
    · exact ⟨.duty, by simp [values, h]⟩

namespace LiveMacro

variable {trigger : Pace} {ms : List LiveMacro} {m : LiveMacro} {s : PlayState}

/-- With a frame, macros read that are at work and step with frames. -/
theorem isSome_reads?_frame_iff : (m.reads? .frame).isSome = true ↔
    m.enabled = true ∧ m.pace = .frame ∧ ∃ n, m.head.peek? = some (.int n) := by
  unfold reads?
  cases m.enabled with
  | false => simp
  | true =>
    cases m.pace with
    | note => simp
    | frame =>
      cases m.head.peek? with
      | none => simp
      | some param => cases param <;> simp [Param.toInt?]

theorem alters_iff : m.alters trigger s = true ↔
    (m.drive = .volumeSlide ∧ (m.reads? trigger).isSome = true) ∨
      m.drive.values (m.work trigger s) ≠ m.drive.values s := by
  simp [alters]

/-- A macro that changes something has read a number. -/
theorem isSome_reads?_of_work (h : m.drive.values (m.work trigger s) ≠ m.drive.values s) :
    (m.reads? trigger).isSome = true := by
  cases hreads : m.reads? trigger with
  | none =>
    rw [work, hreads] at h
    exact absurd rfl h
  | some x => rfl

/-- **Some macro puts the flag up** exactly if a value changes in the end or a volume slide reads a
number. -/
theorem any_alters_iff (hms : ms.Pairwise Apart) :
    ms.any (·.alters trigger s) = true ↔
      (∃ d : Drive, d ≠ .volumeSlide ∧ d.values (workAll trigger ms s) ≠ d.values s) ∨
        ∃ m ∈ ms, m.drive = .volumeSlide ∧ (m.reads? trigger).isSome = true := by
  rw [List.any_eq_true]
  constructor
  · rintro ⟨m, hm, halters⟩
    rcases alters_iff.mp halters with hslide | hne
    · exact .inr ⟨m, hm, hslide⟩
    · by_cases hdrive : m.drive = .volumeSlide
      · exact .inr ⟨m, hm, hdrive, isSome_reads?_of_work hne⟩
      · exact .inl ⟨m.drive, hdrive, by rwa [values_workAll_of_mem hms hm]⟩
  · rintro (⟨d, -, hne⟩ | ⟨m, hm, hslide⟩)
    · -- a value that changes is driven by one of the macros, and only by this one
      by_cases hd : ∃ m ∈ ms, d.sameValue m.drive = true
      · obtain ⟨m, hm, hd⟩ := hd
        rw [Drive.values_of_sameValue hd, values_workAll_of_mem hms hm] at hne
        exact ⟨m, hm, alters_iff.mpr (.inr hne)⟩
      · refine absurd (values_workAll_other fun m hm => ?_) hne
        exact Bool.eq_false_iff.mpr fun h => hd ⟨m, hm, h⟩
    · exact ⟨m, hm, alters_iff.mpr (.inl hslide)⟩

end LiveMacro

/-- **The flags are exact.**  After a note has begun, the flag for notes is up and the one for
values down.  After a frame the flag for notes is down, and the one for values is up exactly if a
value is another one than before, or a volume slide has read a number.  No macro touches the note,
its octave and the selected operator. -/
theorem retrigger_exact (history : List Call) :
    let c := PlayChannel.initial.after history
    (∀ note octave : Int,
      let s := (c.startNote note octave).state
      s.noteOn = true ∧ s.valueChanged = false ∧ s.note = note ∧ s.octave = octave ∧
        s.selectedOperator = c.state.selectedOperator) ∧
      (let s := c.updateFrame.state
      s.noteOn = false ∧
        (s.valueChanged = true ↔
          (s.noteOffset ≠ c.state.noteOffset ∨ s.freqOffset ≠ c.state.freqOffset ∨
            s.vibratoOffset ≠ c.state.vibratoOffset ∨ s.volume ≠ c.state.volume ∨
            s.duty ≠ c.state.duty) ∨
          ∃ m ∈ c.macros, m.drive = .volumeSlide ∧ m.enabled = true ∧ m.pace = .frame ∧
            ∃ n, m.head.peek? = some (.int n)) ∧
        s.note = c.state.note ∧ s.octave = c.state.octave ∧
        s.selectedOperator = c.state.selectedOperator) ∧
      ∀ (m : LiveMacro) (trigger : Pace) (s : PlayState),
        (m.step trigger s).2.note = s.note ∧ (m.step trigger s).2.octave = s.octave ∧
          (m.step trigger s).2.selectedOperator = s.selectedOperator := by
  intro c
  have hc : c.macros.Pairwise LiveMacro.Apart := PlayChannel.separate_after history
  refine ⟨fun note octave => ?_, ?_, fun m trigger s => ?_⟩
  · intro s
    let begun : PlayState :=
      { c.state with note := note, octave := octave, noteOn := true, valueChanged := false }
    have hs : s = LiveMacro.workAll .note c.macros begun := by
      simp only [s, PlayChannel.startNote, PlayChannel.stepAll_eq]
      rfl
    have hfixed : s.fixed = begun.fixed := by rw [hs, LiveMacro.fixed_workAll]
    obtain ⟨hnote, hoctave, hoperator, hon⟩ := PlayState.parts_of_fixed hfixed
    refine ⟨hon, ?_, hnote, hoctave, hoperator⟩
    rw [hs, LiveMacro.valueChanged_workAll hc]
    rfl
  · intro s
    let lowered : PlayState := { c.state with noteOn := false, valueChanged := false }
    have hs : s = LiveMacro.workAll .frame c.macros lowered := by
      simp only [s, PlayChannel.updateFrame, PlayChannel.stepAll_eq]
      rfl
    have hfixed : s.fixed = lowered.fixed := by rw [hs, LiveMacro.fixed_workAll]
    obtain ⟨hnote, hoctave, hoperator, hon⟩ := PlayState.parts_of_fixed hfixed
    refine ⟨hon, ?_, hnote, hoctave, hoperator⟩
    have hflag : s.valueChanged = c.macros.any (·.alters .frame lowered) := by
      rw [hs, LiveMacro.valueChanged_workAll hc]
      rfl
    -- the values before the frame are those with the flags down
    rw [hflag, LiveMacro.any_alters_iff hc, ← hs, Drive.exists_values_ne_iff]
    simp only [LiveMacro.isSome_reads?_frame_iff]
    rfl
  · rw [LiveMacro.step_eq]
    obtain ⟨hnote, hoctave, hoperator, -⟩ := PlayState.parts_of_fixed (m.fixed_work trigger s)
    exact ⟨hnote, hoctave, hoperator⟩

end Chiptune
