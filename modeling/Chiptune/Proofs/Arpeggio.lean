import Chiptune.Proofs.Drives
import Chiptune.Proofs.Playhead

/-!
# What an arpeggio plays

An arpeggio adds semitones to the notes of a channel.  It takes them from its parameters: the main
part once, and then the loop part again and again.  If it steps with frames, it starts anew with
each note; if it steps with notes, it goes on from note to note, and the semitones stay the same for
all frames of a note.  A cumulative arpeggio adds its numbers up.

Other macros may be at work on the channel, and other commands may come between the notes.  None of
them touches the semitones, so only the notes count.  What carries the proof is the place of the
arpeggio before each note (`Arpeggio.Waits`) and in each frame of a note (`Arpeggio.Sounds`).

## Main definitions

* `Arpeggio`, `Arpeggio.offset` — an arpeggio, and the semitones that it adds in a frame of a note.
* `Arpeggio.trace` — the semitones that sound in the frames of a note.
* `Arpeggio.Waits`, `Arpeggio.Sounds` — where an arpeggio is between notes, and during a note.

## Main results

* `PlayChannel.stepAll_only` — the semitones are the work of the arpeggio alone.
* `Arpeggio.Waits.startNote`, `Arpeggio.Sounds.updateFrame` — a note begins, and goes on.
* `Arpeggio.Waits.playNote`, `Arpeggio.Waits.performAll` — what a note plays, and some commands.
* `play_arpeggio` — an arpeggio follows its parameters.
-/

namespace Chiptune

/-! ### Who moves the pitch -/

namespace PlayState

/-- The note, its octave and the semitones on top of it. -/
def pitch (s : PlayState) : Int × Int × Int := (s.note, s.octave, s.noteOffset)

@[simp] theorem pitch_markIf (s : PlayState) (changed : Bool) :
    (s.markIf changed).pitch = s.pitch := by
  unfold markIf markChanged
  split
  · split <;> rfl
  · rfl

/-- The pitch is in the fixed part of a state and in the value that arpeggios drive. -/
theorem pitch_eq_of_values {s s' : PlayState} (hfixed : s.fixed = s'.fixed)
    (hvalues : (Drive.arpeggio false).values s = (Drive.arpeggio false).values s') :
    s.pitch = s'.pitch := by
  obtain ⟨hnote, hoctave, -⟩ := parts_of_fixed hfixed
  have hoffset : s.noteOffset = s'.noteOffset := List.singleton_inj.mp hvalues
  rw [pitch, hnote, hoctave, hoffset, pitch]

end PlayState

namespace LiveMacro

/-- Whether a macro drives the semitones on top of the note. -/
def bends (m : LiveMacro) : Bool := m.drive.sameValue (.arpeggio false)

theorem exists_of_bends {m : LiveMacro} (h : m.bends = true) :
    ∃ cumulative, m.drive = .arpeggio cumulative := by
  unfold bends at h
  cases hd : m.drive with
  | arpeggio cumulative => exact ⟨cumulative, rfl⟩
  | _ => rw [hd] at h; cases h

@[simp] theorem bends_turn (m : LiveMacro) (trigger : Pace) : (m.turn trigger).bends = m.bends := by
  rw [bends, drive_turn, bends]

theorem pitch_act_arpeggio (cumulative anew : Bool) (value : Int) (s : PlayState) :
    (act (.arpeggio cumulative) anew value s).pitch =
      (s.note, s.octave, if cumulative && !anew then s.noteOffset + value else value) := by
  rw [act, PlayState.pitch_markIf]
  rfl

/-- A macro that does not bend leaves the pitch alone. -/
theorem pitch_work {m : LiveMacro} (h : m.bends = false) (trigger : Pace) (s : PlayState) :
    (m.work trigger s).pitch = s.pitch := by
  have hother : (Drive.arpeggio false).sameValue m.drive = false :=
    (Drive.sameValue_comm _ _).trans h
  exact PlayState.pitch_eq_of_values (m.fixed_work trigger s) (values_work_other hother trigger s)

/-- The pitch after a step depends on the pitch before it, and on nothing else. -/
theorem pitch_work_congr (m : LiveMacro) (trigger : Pace) {s s' : PlayState}
    (h : s.pitch = s'.pitch) : (m.work trigger s).pitch = (m.work trigger s').pitch := by
  by_cases hm : m.bends = true
  · obtain ⟨cumulative, hd⟩ := exists_of_bends hm
    obtain ⟨hnote, hoctave, hoffset⟩ : s.note = s'.note ∧ s.octave = s'.octave ∧
        s.noteOffset = s'.noteOffset := by simpa [PlayState.pitch] using h
    unfold work
    cases m.reads? trigger with
    | none => exact h
    | some x =>
      rw [hd, Option.elim_some, Option.elim_some, pitch_act_arpeggio, pitch_act_arpeggio, hnote,
        hoctave, hoffset]
  · have hm : m.bends = false := Bool.eq_false_iff.mpr hm
    rw [pitch_work hm, pitch_work hm, h]

end LiveMacro

namespace PlayChannel

/-- Of all macros only those that bend move the pitch. -/
theorem pitch_foldl_work (trigger : Pace) : ∀ (ms : List LiveMacro) {s s' : PlayState},
    s.pitch = s'.pitch →
      (ms.foldl (fun s m => m.work trigger s) s).pitch =
        ((ms.filter (·.bends)).foldl (fun s m => m.work trigger s) s').pitch := by
  intro ms
  induction ms with
  | nil => exact fun h => h
  | cons m ms ih =>
    intro s s' h
    by_cases hm : m.bends = true
    · rw [List.filter_cons_of_pos hm, List.foldl_cons, List.foldl_cons]
      exact ih (m.pitch_work_congr trigger h)
    · rw [List.filter_cons_of_neg hm, List.foldl_cons]
      refine ih (Eq.trans ?_ h)
      exact LiveMacro.pitch_work (Bool.eq_false_iff.mpr hm) trigger s

/-- A step of all macros, seen by those that bend. -/
theorem stepAll_bends (c : PlayChannel) (trigger : Pace) :
    (c.stepAll trigger).macros.filter (·.bends) =
        (c.macros.filter (·.bends)).map (·.turn trigger) ∧
      (c.stepAll trigger).state.pitch =
        ((c.macros.filter (·.bends)).foldl (fun s m => m.work trigger s) c.state).pitch := by
  rw [stepAll_eq]
  constructor
  · rw [List.filter_map]
    simp only [Function.comp_def, LiveMacro.bends_turn]
  · exact pitch_foldl_work trigger c.macros rfl

/-- **The pitch is the work of the one macro that bends.** -/
theorem stepAll_only {c : PlayChannel} {m : LiveMacro} (h : c.macros.filter (·.bends) = [m])
    (trigger : Pace) :
    (c.stepAll trigger).macros.filter (·.bends) = [m.turn trigger] ∧
      (c.stepAll trigger).state.pitch = (m.work trigger c.state).pitch := by
  have hstep := c.stepAll_bends trigger
  rwa [h] at hstep

theorem filter_bends_detach (c : PlayChannel) {d : Drive}
    (hd : d.sameValue (.arpeggio false) = false) :
    (c.detach d).macros.filter (·.bends) = c.macros.filter (·.bends) := by
  refine (filter_detach c d (.arpeggio false)).trans ?_
  rw [hd]
  rfl

/-- Another macro does not displace the one that bends. -/
theorem filter_bends_attach (c : PlayChannel) {m : LiveMacro} (hm : m.bends = false) :
    (c.attach m).macros.filter (·.bends) = c.macros.filter (·.bends) := by
  refine (filter_attach c m (.arpeggio false)).trans ?_
  rw [show m.drive.sameValue (.arpeggio false) = false from hm]
  rfl

/-- A macro that bends takes the place of the one before it. -/
theorem filter_bends_attach_self (c : PlayChannel) {m : LiveMacro} (hm : m.bends = true) :
    (c.attach m).macros.filter (·.bends) = [m] :=
  (filter_attach c m (.arpeggio false)).trans (if_pos hm)

end PlayChannel

/-! ### Arpeggios -/

/-- An arpeggio that was switched on. -/
structure Arpeggio where
  /-- Its parameters. -/
  seq : ParamSeq
  /-- Whether it adds its numbers up. -/
  cumulative : Bool
  /-- The operand that switched it on. -/
  operand : UInt8
  /-- The semitones on top of the note when it was switched on. -/
  base : Int

namespace Arpeggio

/-- The arpeggio that a macro becomes when it is switched on. -/
def ofMacro (m : Macro) (operand : UInt8) (base : Int) : Arpeggio :=
  ⟨m.seq, Player.isSet m "cumulative", operand, base⟩

/-- Whether it steps with notes: the top bit of its operand says so. -/
def everyNote (a : Arpeggio) : Bool := a.operand &&& 0x80 ≠ 0

/-- The sum of the first numbers of an arpeggio. -/
def sum (a : Arpeggio) (n : Nat) : Int := ((List.range n).map a.seq.value).sum

/-- The semitones on top of the note in frame `j` of its note `i`, both counted from 0. -/
def offset (a : Arpeggio) (i j : Nat) : Int :=
  match a.everyNote, a.cumulative with
  | false, false => a.seq.value j
  | false, true => a.sum (j + 1)
  | true, false => a.seq.value i
  | true, true => a.base + a.sum (i + 1)

/-- The semitones that sound in the frames of its note `i`. -/
def trace (a : Arpeggio) (i : Nat) (n : PlayedNote) : List Int :=
  (List.range n.frames.toNat).map fun j => 12 * n.octave.toNat + n.pitch.toNat + a.offset i j

/-- Every parameter is a number of 32 bits, and there is one. -/
structure Sound (a : Arpeggio) : Prop where
  /-- There are parameters. -/
  nonempty : a.seq.isEmpty = false
  /-- They are numbers of 32 bits. -/
  ints : ∀ p ∈ a.seq.toList, ∃ n : Int, p = .int n ∧ -2 ^ 31 ≤ n ∧ n < 2 ^ 31

/-- The macro of an arpeggio after `k` reads. -/
def live (a : Arpeggio) (k : Nat) : LiveMacro :=
  ⟨.arpeggio a.cumulative, a.operand, true, .nth a.seq k⟩

variable {a : Arpeggio}

theorem sum_succ (a : Arpeggio) (n : Nat) : a.sum (n + 1) = a.sum n + a.seq.value n := by
  rw [sum, List.range_succ, List.map_append, List.sum_append]
  simp [sum]

theorem pace_live (a : Arpeggio) (k : Nat) :
    (a.live k).pace = if a.everyNote then .note else .frame := by
  by_cases h : a.operand &&& 0x80 = 0
  · simp [LiveMacro.pace, live, everyNote, h]
  · simp [LiveMacro.pace, live, everyNote, h]

theorem wrap_of_bounds {n : Int} (h : -2 ^ 31 ≤ n) (h' : n < 2 ^ 31) : LiveMacro.wrap n = n := by
  unfold LiveMacro.wrap
  exact Int.bmod_eq_of_le_mul_two (by omega) (by omega)

theorem offset_frame_zero (h : a.everyNote = false) (i : Nat) : a.offset i 0 = a.seq.value 0 := by
  unfold offset
  rw [h]
  cases a.cumulative with
  | false => rfl
  | true => simp [sum]

theorem offset_frame_succ (h : a.everyNote = false) (i j : Nat) :
    a.offset i (j + 1) =
      if a.cumulative then a.offset i j + a.seq.value (j + 1) else a.seq.value (j + 1) := by
  unfold offset
  rw [h]
  cases a.cumulative with
  | false => rfl
  | true => exact a.sum_succ (j + 1)

theorem offset_note (h : a.everyNote = true) (i j : Nat) :
    a.offset i j =
      if a.cumulative then a.base + a.sum i + a.seq.value i else a.seq.value i := by
  unfold offset
  rw [h]
  cases a.cumulative with
  | false => rfl
  | true =>
    show a.base + a.sum (i + 1) = a.base + a.sum i + a.seq.value i
    rw [sum_succ, Int.add_assoc]

/-- The number that is read after `k` others. -/
theorem Sound.reads (h : a.Sound) (k : Nat) (anew : Bool) :
    ((Playhead.nth a.seq k).peek?.bind Param.toInt?).map (fun n => (anew, LiveMacro.wrap n)) =
      some (anew, a.seq.value k) := by
  obtain ⟨p, hp, hnth⟩ := ParamSeq.exists_nth? h.nonempty k
  obtain ⟨n, rfl, hlow, hhigh⟩ := h.ints p hp
  rw [Playhead.peek?_nth, ParamSeq.value, hnth]
  simp [Param.toInt?, wrap_of_bounds hlow hhigh]

theorem turn_live (a : Arpeggio) (k : Nat) (trigger : Pace) :
    (a.live k).turn trigger =
      match trigger, a.everyNote with
      | .frame, false | .note, true => a.live (k + 1)
      | .frame, true => a.live k
      | .note, false => a.live 1 := by
  have henabled : (a.live k).enabled = true := rfl
  simp only [LiveMacro.turn, henabled, pace_live, Bool.not_true, Bool.false_eq_true, if_false]
  cases trigger <;> cases a.everyNote <;>
    simp [live, Playhead.advance_nth, Playhead.rewind_nth]

theorem Sound.reads?_live (h : a.Sound) (k : Nat) (trigger : Pace) :
    (a.live k).reads? trigger =
      match trigger, a.everyNote with
      | .frame, false | .note, true => some (false, a.seq.value k)
      | .frame, true => none
      | .note, false => some (true, a.seq.value 0) := by
  have henabled : (a.live k).enabled = true := rfl
  simp only [LiveMacro.reads?, henabled, pace_live, Bool.not_true, Bool.false_eq_true, if_false]
  cases trigger <;> cases a.everyNote <;> simp [live, Playhead.rewind_nth, h.reads]

/-! ### Notes -/

/-- Where an arpeggio is before its note `i`. -/
structure Waits (a : Arpeggio) (i : Nat) (c : PlayChannel) : Prop where
  /-- It is the one that bends.  If it steps with notes, it has read as often as there were
  notes. -/
  only : ∃ k, c.macros.filter (·.bends) = [a.live k] ∧ (a.everyNote = true → k = i)
  /-- If it adds up over notes, the sum is there. -/
  level : a.everyNote = true → a.cumulative = true → c.state.noteOffset = a.base + a.sum i

/-- Where an arpeggio is in frame `j` of its note `i`. -/
structure Sounds (a : Arpeggio) (i j : Nat) (note octave : Int) (c : PlayChannel) : Prop where
  /-- It is the one that bends, and has read as often as there were steps. -/
  only : c.macros.filter (·.bends) = [a.live (if a.everyNote then i + 1 else j + 1)]
  /-- The semitones on top of the note are its own. -/
  pitch : c.state.pitch = (note, octave, a.offset i j)

variable {i j : Nat} {note octave : Int} {c c' : PlayChannel}

theorem Waits.congr (h : a.Waits i c)
    (honly : c'.macros.filter (·.bends) = c.macros.filter (·.bends))
    (hoffset : c'.state.noteOffset = c.state.noteOffset) : a.Waits i c' := by
  refine ⟨?_, fun hevery hcumulative => hoffset.trans (h.level hevery hcumulative)⟩
  rw [honly]
  exact h.only

/-- **A note begins.** -/
theorem Waits.startNote (hs : a.Sound) (h : a.Waits i c) (note octave : Int) :
    a.Sounds i 0 note octave (c.startNote note octave) := by
  obtain ⟨k, honly, hk⟩ := h.only
  obtain ⟨hmacros, hpitch⟩ := PlayChannel.stepAll_only (c := { c with
    state := { c.state with
      note := note, octave := octave, noteOn := true, valueChanged := false } }) honly .note
  rw [turn_live] at hmacros
  rw [LiveMacro.work, hs.reads?_live] at hpitch
  cases hevery : a.everyNote with
  | false =>
    rw [hevery] at hmacros hpitch
    refine ⟨by rw [hevery]; exact hmacros, hpitch.trans ?_⟩
    show (LiveMacro.act (.arpeggio a.cumulative) _ _ _).pitch = _
    rw [LiveMacro.pitch_act_arpeggio, offset_frame_zero hevery]
    simp
  | true =>
    rw [hevery] at hmacros hpitch
    obtain rfl := hk hevery
    refine ⟨by rw [hevery]; exact hmacros, hpitch.trans ?_⟩
    show (LiveMacro.act (.arpeggio a.cumulative) _ _ _).pitch = _
    rw [LiveMacro.pitch_act_arpeggio, offset_note hevery]
    cases hcumulative : a.cumulative with
    | false => rfl
    | true =>
      show (note, octave, c.state.noteOffset + a.seq.value k) = _
      rw [h.level hevery hcumulative]
      rfl

theorem Sounds.fields (h : a.Sounds i j note octave c) :
    c.state.note = note ∧ c.state.octave = octave ∧ c.state.noteOffset = a.offset i j := by
  simpa [PlayState.pitch] using h.pitch

/-- **A note goes on.** -/
theorem Sounds.updateFrame (hs : a.Sound) (h : a.Sounds i j note octave c) :
    a.Sounds i (j + 1) note octave c.updateFrame := by
  obtain ⟨hmacros, hpitch⟩ := PlayChannel.stepAll_only (c := { c with
    state := { c.state with noteOn := false, valueChanged := false } }) h.only .frame
  rw [turn_live] at hmacros
  rw [LiveMacro.work, hs.reads?_live] at hpitch
  cases hevery : a.everyNote with
  | false =>
    rw [hevery] at hmacros hpitch
    refine ⟨by rw [hevery]; exact hmacros, hpitch.trans ?_⟩
    show (LiveMacro.act (.arpeggio a.cumulative) _ _ _).pitch = _
    rw [LiveMacro.pitch_act_arpeggio, offset_frame_succ hevery, Bool.not_false, Bool.and_true]
    obtain ⟨hnote, hoctave, hoffset⟩ := h.fields
    rw [← hoffset, ← hnote, ← hoctave]
    rfl
  | true =>
    -- it waits for the next note
    rw [hevery] at hmacros hpitch
    refine ⟨by rw [hevery]; exact hmacros, hpitch.trans ?_⟩
    rw [offset_note hevery, ← offset_note hevery i j]
    exact h.pitch

theorem Sounds.iterate (hs : a.Sound) (h : a.Sounds i 0 note octave c) (j : Nat) :
    a.Sounds i j note octave (PlayChannel.updateFrame^[j] c) := by
  induction j with
  | zero => exact h
  | succ j ih =>
    rw [Function.iterate_succ_apply']
    exact ih.updateFrame hs

theorem Sounds.effectiveNote (h : a.Sounds i j note octave c) :
    c.state.effectiveNote = 12 * octave + note + a.offset i j := by
  obtain ⟨hnote, hoctave, hoffset⟩ := h.fields
  rw [PlayState.effectiveNote, hnote, hoctave, hoffset]
  omega

/-- A note ends, in whatever frame. -/
theorem Sounds.waits (h : a.Sounds i j note octave c) : a.Waits (i + 1) c := by
  refine ⟨⟨_, h.only, fun hevery => if_pos hevery⟩, fun hevery hcumulative => ?_⟩
  rw [h.fields.2.2, offset_note hevery, hcumulative, sum_succ, if_pos rfl, Int.add_assoc]

end Arpeggio

/-! ### Commands -/

/-- Whether a command switches an arpeggio on or off, or ends the channel. -/
def Command.endsArpeggio : Command → Bool
  | effectOn effect _ | effectOff effect => effect = .arpeggio
  | jump _ | stop => true
  | _ => false

theorem Command.isTerminator_of_endsArpeggio {c : Command} (h : c.endsArpeggio = false) :
    c.isTerminator = false := by
  cases c with
  | jump | stop => cases h
  | _ => rfl

namespace Player

variable {p : Player} {effect : Effect}

theorem sameValue_driveOf? (he : effect ≠ .arpeggio) {cumulative : Bool} {d : Drive}
    (h : driveOf? effect cumulative = some d) : d.sameValue (.arpeggio false) = false := by
  cases effect <;> first | exact absurd rfl he | (cases h; rfl) | cases h

/-- Switching on another macro leaves the arpeggio alone. -/
theorem enable_bends (he : effect ≠ .arpeggio) (p : Player) (operand : UInt8) (m : Macro) :
    (p.enable effect operand m).channel.macros.filter (·.bends) =
        p.channel.macros.filter (·.bends) ∧
      (p.enable effect operand m).channel.state.noteOffset = p.channel.state.noteOffset := by
  unfold enable
  split
  · refine ⟨?_, rfl⟩
    exact PlayChannel.filter_bends_attach { p.channel with
      state := { p.channel.state with selectedOperator := operatorOf? m } } rfl
  · split
    · next d hd =>
      exact ⟨PlayChannel.filter_bends_attach p.channel (sameValue_driveOf? he hd), rfl⟩
    · exact ⟨rfl, rfl⟩

/-- Switching off another macro leaves the arpeggio alone. -/
theorem disable_bends (he : effect ≠ .arpeggio) (p : Player) :
    (p.disable effect).channel.macros.filter (·.bends) = p.channel.macros.filter (·.bends) ∧
      (p.disable effect).channel.state.noteOffset = p.channel.state.noteOffset := by
  unfold disable
  extract_lets channel
  have hchannel : channel.macros.filter (·.bends) = p.channel.macros.filter (·.bends) ∧
      channel.state.noteOffset = p.channel.state.noteOffset := by
    unfold channel
    split
    · next d hd => exact ⟨PlayChannel.filter_bends_detach p.channel (sameValue_driveOf? he hd), rfl⟩
    · exact ⟨rfl, rfl⟩
  show (if effect = .volume then channel.detach .volumeSlide else channel).macros.filter _ = _ ∧
    (if effect = .volume then channel.detach .volumeSlide else channel).state.noteOffset = _
  split
  · exact ⟨(PlayChannel.filter_bends_detach channel rfl).trans hchannel.1, hchannel.2⟩
  · exact hchannel

/-- A command that plays no note, and is about another effect, leaves the arpeggio alone. -/
theorem perform_bends {bank : MacroBank} {p' : Player} {c : Command} (hc : c.endsArpeggio = false)
    (hnote : c.pitch? = none) (h : p.perform bank c = .ok p') :
    p'.channel.macros.filter (·.bends) = p.channel.macros.filter (·.bends) ∧
      p'.channel.state.noteOffset = p.channel.state.noteOffset := by
  cases c with
  | note | noteShort | noteUp | noteDown => cases hnote
  | effectOn effect operand =>
    simp only [perform] at h
    split at h
    · next m _ =>
      cases h
      exact enable_bends (of_decide_eq_false hc) p operand m
    · cases h
  | effectOff effect =>
    cases h
    exact disable_bends (of_decide_eq_false hc) p
  | rest | wait | restShort | waitShort | octave | volume =>
    cases h
    exact ⟨rfl, rfl⟩
  | jump | stop => cases hc

end Player

namespace Arpeggio

variable {a : Arpeggio} {i : Nat} {bank : MacroBank} {p p' : Player}

/-- **A note is played with the semitones of the arpeggio** in each of its frames. -/
theorem Waits.playNote (hs : a.Sound) (h : a.Waits i p.channel) (pitch : UInt8) :
    ∃ notes, p.Plays a.trace a.Waits i (p.playNote pitch) notes := by
  have hbegun := h.startNote hs pitch.toNat p.octave.toNat
  refine Player.Plays.playNote ?_ fun j => (hbegun.iterate hs j).waits
  rintro n rfl hoctave
  unfold trace
  rw [hoctave]
  exact List.map_congr_left fun j _ => (hbegun.iterate hs j).effectiveNote

/-- **What commands play** while an arpeggio is at work. -/
theorem Waits.performAll (hs : a.Sound) {cs : List Command} (h : a.Waits i p.channel)
    (hcs : ∀ c ∈ cs, c.endsArpeggio = false) (hp : p.performAll bank cs = .ok p') :
    ∃ notes, p.Plays a.trace a.Waits i p' notes := by
  refine Player.Plays.performAll (fun c => Command.isTerminator_of_endsArpeggio)
    (fun h => h.playNote hs) (fun hc hpitch hp h => ?_) h hcs hp
  obtain ⟨honly, hoffset⟩ := Player.perform_bends hc hpitch hp
  exact h.congr honly hoffset

/-- An arpeggio that was just switched on waits for its first note. -/
theorem waits_enable (p : Player) (operand : UInt8) (m : Macro) :
    (ofMacro m operand p.channel.state.noteOffset).Waits 0
      (p.enable .arpeggio operand m).channel := by
  have henable : (p.enable .arpeggio operand m).channel =
      p.channel.attach (.new (.arpeggio (Player.isSet m "cumulative")) operand m.seq) := by
    simp [Player.enable, Player.driveOf?]
  rw [henable]
  refine ⟨⟨0, ?_, fun _ => rfl⟩, fun _ _ => ?_⟩
  · rw [PlayChannel.filter_bends_attach_self _ rfl, LiveMacro.new, Playhead.start_eq_nth]
    rfl
  · show p.channel.state.noteOffset = p.channel.state.noteOffset + 0
    rw [Int.add_zero]

end Arpeggio

/-! ### Streams -/

/-- **An arpeggio follows its parameters.**  A stream is played, and in it an arpeggio is switched
on; its parameters are numbers of 32 bits.  Up to the next command that switches an arpeggio on or
off, or up to the end, the notes of the stream are logged with the semitones of the arpeggio in each
frame, whatever else is between them. -/
theorem play_arpeggio {bank : MacroBank} {scale : Int} {octave operand : UInt8}
    {before body after : List Command} {m : Macro} {log : PlayLog}
    (hplay : play bank scale octave
      (before ++ .effectOn .arpeggio operand :: (body ++ after)) = .ok log)
    (hbefore : ∀ c ∈ before, c.isTerminator = false)
    (hbody : ∀ c ∈ body, c.endsArpeggio = false)
    (hm : (bank.get .arpeggio).get? (operand &&& 0x7F).toNat = some m)
    (hempty : m.seq.isEmpty = false)
    (hints : ∀ p ∈ m.seq.toList, ∃ n : Int, p = .int n ∧ -2 ^ 31 ≤ n ∧ n < 2 ^ 31) :
    ∃ log₀ log₁ notes,
      play bank scale octave before = .ok log₀ ∧
      play bank scale octave (before ++ .effectOn .arpeggio operand :: body) = .ok log₁ ∧
      log₁.notes.toList = log₀.notes.toList ++ notes ∧
      notes.map (fun n => (n.pitch.toNat, n.octave.toNat)) =
        (((⟨octave, 0⟩ : Driver).run before).hear body).filterMap Tone.key? ∧
      log₁.pitchTrace.toList = log₀.pitchTrace.toList ++
        (notes.mapIdx (Arpeggio.ofMacro m operand log₀.state.noteOffset).trace).flatten ∧
      log₁.notes.toList <+: log.notes.toList ∧
      log₁.pitchTrace.toList <+: log.pitchTrace.toList := by
  have hopen : ∀ c ∈ before ++ .effectOn .arpeggio operand :: body, c.isTerminator = false :=
    List.forall_mem_append.mpr ⟨hbefore, List.forall_mem_cons.mpr
      ⟨rfl, fun c hc => Command.isTerminator_of_endsArpeggio (hbody c hc)⟩⟩
  obtain ⟨p₀, p₁, p₂, -, hp₁, hp₂, hlog₀, hlog₁, hkeys, hlogged⟩ := play_cut hplay hopen
  have henable : p₁ = p₀.enable .arpeggio operand m := by
    simp only [Player.perform, hm] at hp₁
    exact (Except.ok.inj hp₁).symm
  subst henable
  obtain ⟨notes, hnotes, htrace, -⟩ :=
    (Arpeggio.waits_enable p₀ operand m).performAll ⟨hempty, hints⟩ hbody hp₂
  rw [Player.enable_eq] at hnotes htrace
  simp only [Nat.zero_add] at htrace
  exact ⟨p₀.log, p₂.log, notes, hlog₀, hlog₁, hnotes, hkeys notes hnotes, htrace, hlogged⟩

/-- A cumulative arpeggio that steps with notes, one of them without a frame and others after
rests. -/
theorem play_arpeggio_cumulative :
    let m : Macro :=
      ⟨1, .start ⟨[.int 0, .int 4], [.int (-1), .int 3]⟩, 0, .ofList [("cumulative", .int 1)]⟩
    let bank := MacroBank.new.set .arpeggio ⟨.arpeggio, ⟨[(1, m)]⟩, 2, false⟩
    let before : List Command := [.note 0 4, .volume 3]
    let body : List Command :=
      [.note 2 5, .rest 1, .noteUp 0, .note 9 0, .octave 3, .effectOff .vibrato, .note 7 4]
    ∃ (log : PlayLog) (notes : List PlayedNote),
      play bank 2 4
        (before ++ .effectOn .arpeggio 0x81 :: (body ++ [.effectOff .arpeggio, .stop])) = .ok log ∧
      notes.map (fun n => (n.pitch.toNat, n.octave.toNat)) = [(2, 4), (0, 5), (9, 5), (7, 3)] ∧
      [48, 48] ++ (notes.mapIdx (Arpeggio.ofMacro m 0x81 0).trace).flatten <+:
        log.pitchTrace.toList := by
  intro m bank before body
  have hruns : (play bank 2 4 (before ++ .effectOn .arpeggio 0x81 ::
      (body ++ [.effectOff .arpeggio, .stop]))).toOption.isSome = true := by
    decide +kernel
  have hstart : (play bank 2 4 before).toOption.map
      (fun log => (log.pitchTrace.toList, log.state.noteOffset)) = some ([48, 48], 0) := by
    decide +kernel
  cases hplay : play bank 2 4 (before ++ .effectOn .arpeggio 0x81 ::
      (body ++ [.effectOff .arpeggio, .stop])) with
  | error e =>
    rw [hplay] at hruns
    cases hruns
  | ok log =>
    obtain ⟨log₀, log₁, notes, hlog₀, -, -, hkeys, htrace, -, hlog⟩ :=
      play_arpeggio (m := m) hplay (by decide) (by decide) rfl rfl
        (by simp [m, Macro.seq, Playhead.start, ParamSeq.toList])
    rw [hlog₀] at hstart
    obtain ⟨hpitch, hoffset⟩ := Prod.mk.inj (Option.some.inj hstart)
    rw [htrace, hpitch, hoffset] at hlog
    exact ⟨log, notes, rfl, hkeys.trans (by decide), hlog⟩

end Chiptune
