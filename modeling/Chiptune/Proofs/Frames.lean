import Chiptune.Proofs.Driver
import Mathlib.Data.List.TakeWhile
import Mathlib.Logic.Function.Iterate

/-!
# What happens in each frame

With a note and with each further frame of it all macros of a channel step, and the semitone that
sounds is logged.  A step has two sides: the macro moves on, which does not depend on the channel,
and the number that it has read does its work there.  So the macros of a channel move on each by
itself, while their numbers work on the channel one after the other.

## Main definitions

* `LiveMacro.turn` — a macro after a step.
* `LiveMacro.reads?`, `LiveMacro.work` — the number that a macro reads, and what it does.
* `Player.heed` — a player that has taken in the octave and the delay of a command.
* `Player.Plays` — the notes that were played, if it is known how each of them sounds.

## Main results

* `PlayChannel.stepAll_eq` — what a step of all macros does to a channel.
* `Player.playNote_frames` — what a note leaves in the log.
* `Player.perform_note`, `Player.perform_quiet` — what a command does: either it plays a note, or it
  is not logged.
* `Player.performAll_append_eq_ok` — the commands of a stream in two parts.
* `Player.performAll_logged` — nothing leaves the log.
* `Player.Plays.performAll` — how the notes of some commands sound, from what is true of a note.
* `play_cut` — a stream that is played up to one of its commands, and on from there.
-/

namespace Chiptune

/-! ### Steps of a macro -/

namespace LiveMacro

/-- The number that a macro reads with a trigger, and whether it starts anew. -/
def reads? (m : LiveMacro) (trigger : Pace) : Option (Bool × Int) :=
  if !m.enabled then none
  else
    match trigger, m.pace with
    | .frame, .note => none
    | .frame, .frame | .note, .note =>
      (m.head.peek?.bind Param.toInt?).map fun n => (false, wrap n)
    | .note, .frame => (m.head.rewind.peek?.bind Param.toInt?).map fun n => (true, wrap n)

/-- The macro after a trigger. -/
def turn (m : LiveMacro) (trigger : Pace) : LiveMacro :=
  if !m.enabled then m
  else
    match trigger, m.pace with
    | .frame, .note => m
    | .frame, .frame | .note, .note => { m with head := m.head.advance }
    | .note, .frame => { m with head := m.head.rewind.advance }

/-- What the number that a macro reads does to a channel. -/
def work (m : LiveMacro) (trigger : Pace) (s : PlayState) : PlayState :=
  (m.reads? trigger).elim s fun x => act m.drive x.1 x.2 s

theorem read_eq (m : LiveMacro) (anew : Bool) (s : PlayState) :
    m.read anew s = ({ m with head := m.head.advance },
      ((m.head.peek?.bind Param.toInt?).map fun n => (anew, wrap n)).elim s
        fun x => act m.drive x.1 x.2 s) := by
  simp only [read, Playhead.next]
  cases m.head.peek? with
  | none => rfl
  | some param => cases param <;> rfl

/-- **A step has two sides.** -/
theorem step_eq (m : LiveMacro) (trigger : Pace) (s : PlayState) :
    m.step trigger s = (m.turn trigger, m.work trigger s) := by
  unfold step turn work reads?
  by_cases henabled : m.enabled = true
  · simp only [henabled, Bool.not_true, Bool.false_eq_true, if_false]
    cases trigger with
    | frame =>
      cases m.pace with
      | frame => rw [read_eq, henabled]
      | note => rfl
    | note =>
      cases m.pace with
      | frame => exact read_eq _ _ _
      | note => rw [read_eq, henabled]
  · simp [henabled]

@[simp] theorem drive_turn (m : LiveMacro) (trigger : Pace) :
    (m.turn trigger).drive = m.drive := by
  unfold turn
  split
  · rfl
  · split <;> rfl

end LiveMacro

namespace PlayChannel

theorem stepMacros_eq (trigger : Pace) : ∀ (ms : List LiveMacro) (s : PlayState),
    stepMacros trigger ms s =
      (ms.map (·.turn trigger), ms.foldl (fun s m => m.work trigger s) s) := by
  intro ms
  induction ms with
  | nil => exact fun _ => rfl
  | cons m ms ih =>
    intro s
    simp only [stepMacros, LiveMacro.step_eq, ih, List.map_cons, List.foldl_cons]

/-- **What a step of all macros does to a channel.** -/
theorem stepAll_eq (c : PlayChannel) (trigger : Pace) :
    c.stepAll trigger =
      ⟨c.macros.foldl (fun s m => m.work trigger s) c.state, c.macros.map (·.turn trigger)⟩ := by
  rw [stepAll, stepMacros_eq]

end PlayChannel

/-! ### Frames of a note -/

namespace Player

theorem soundOn_frames (n : Nat) (p : Player) :
    (soundOn n p).channel = PlayChannel.updateFrame^[n] p.channel ∧
      (soundOn n p).pitchTrace.toList = p.pitchTrace.toList ++ (List.range n).map fun k =>
        (PlayChannel.updateFrame^[k + 1] p.channel).state.effectiveNote := by
  induction n generalizing p with
  | zero => exact ⟨rfl, by simp [soundOn]⟩
  | succ n ih =>
    simp only [soundOn]
    obtain ⟨hchannel, htrace⟩ := ih
      { p with
        channel := p.channel.updateFrame
        pitchTrace := p.pitchTrace.push p.channel.updateFrame.state.effectiveNote }
    refine ⟨hchannel, ?_⟩
    rw [htrace, List.range_succ_eq_map]
    simp [Function.comp_def]

/-- **What a note leaves in the log**: the note itself, and a semitone for each of its frames.  The
first frame is that of the trigger, which comes also if the note has no frame. -/
theorem playNote_frames (p : Player) (pitch : UInt8) :
    let begun := p.channel.startNote pitch.toNat p.octave.toNat
    let frames := wrap ((p.pass p.length).frame - p.frame)
    (p.playNote pitch).notes.toList = p.notes.toList ++ [⟨p.frame, pitch, p.octave, frames⟩] ∧
      (p.playNote pitch).pitchTrace.toList =
        p.pitchTrace.toList ++ (List.range frames.toNat).map (fun j =>
          (PlayChannel.updateFrame^[j] begun).state.effectiveNote) ∧
      (p.playNote pitch).channel = PlayChannel.updateFrame^[frames.toNat - 1] begun := by
  intro begun frames
  unfold playNote
  extract_lets begun' after frames' sounded
  have hnotes : sounded.notes = p.notes := (sound_frame after frames'.toNat).2.1
  refine ⟨?_, ?_⟩
  · show (sounded.notes.push _).toList = _
    rw [hnotes, Array.toList_push]
    rfl
  · show sounded.pitchTrace.toList = _ ∧ sounded.channel = _
    have hframes : frames.toNat = frames'.toNat := rfl
    have hsounded : sounded = after.sound frames'.toNat := rfl
    rw [hframes, hsounded]
    cases frames'.toNat with
    | zero => exact ⟨by simp [sound, after, begun', pass], rfl⟩
    | succ n =>
      obtain ⟨hchannel, htrace⟩ := soundOn_frames n
        { after with pitchTrace := after.pitchTrace.push after.channel.state.effectiveNote }
      refine ⟨?_, hchannel⟩
      rw [sound, htrace, List.range_succ_eq_map]
      simp [Function.comp_def, after, begun', pass, begun]

end Player

/-- The pitch class of a command that plays a note. -/
def Command.pitch? : Command → Option UInt8
  | note pitch _ | noteShort pitch | noteUp pitch | noteDown pitch => some pitch
  | _ => none

namespace Player

variable {bank : MacroBank} {p p' : Player} {c : Command} {cs : List Command}

/-- A command is performed, and then the others. -/
theorem performAll_cons_eq_ok (hc : c.isTerminator = false) :
    p.performAll bank (c :: cs) = .ok p' ↔
      ∃ q, p.perform bank c = .ok q ∧ q.performAll bank cs = .ok p' := by
  simp only [performAll, hc, Bool.false_eq_true, if_false]
  cases p.perform bank c with
  | error e => simp
  | ok q => simp

/-- **The commands of a stream in two parts.** -/
theorem performAll_append_eq_ok {cs' : List Command} : ∀ {cs : List Command} {p : Player},
    (∀ c ∈ cs, c.isTerminator = false) →
      (p.performAll bank (cs ++ cs') = .ok p' ↔
        ∃ q, p.performAll bank cs = .ok q ∧ q.performAll bank cs' = .ok p') := by
  intro cs
  induction cs with
  | nil => simp [performAll]
  | cons c cs ih =>
    intro p h
    obtain ⟨hc, hcs⟩ := List.forall_mem_cons.mp h
    rw [List.cons_append, performAll_cons_eq_ok hc]
    constructor
    · rintro ⟨q, hq, hrest⟩
      obtain ⟨q', hq', hrest⟩ := (ih hcs).mp hrest
      exact ⟨q', (performAll_cons_eq_ok hc).mpr ⟨q, hq, hq'⟩, hrest⟩
    · rintro ⟨q', hq', hrest⟩
      obtain ⟨q, hq, hq'⟩ := (performAll_cons_eq_ok hc).mp hq'
      exact ⟨q, hq, (ih hcs).mpr ⟨q', hq', hrest⟩⟩

/-- What was logged by one player is the beginning of what was logged by another. -/
def LoggedBy (p p' : Player) : Prop :=
  p.notes.toList <+: p'.notes.toList ∧ p.pitchTrace.toList <+: p'.pitchTrace.toList

theorem LoggedBy.of_eq (hnotes : p'.notes = p.notes)
    (htrace : p'.pitchTrace = p.pitchTrace) : p.LoggedBy p' := by
  unfold LoggedBy
  rw [hnotes, htrace]
  exact ⟨List.prefix_rfl, List.prefix_rfl⟩

theorem playNote_logged (p : Player) (pitch : UInt8) : p.LoggedBy (p.playNote pitch) := by
  obtain ⟨hnotes, htrace, -⟩ := p.playNote_frames pitch
  exact ⟨⟨_, hnotes.symm⟩, ⟨_, htrace.symm⟩⟩

/-- Switching a macro on changes only the channel. -/
theorem enable_eq (p : Player) (effect : Effect) (operand : UInt8) (m : Macro) :
    p.enable effect operand m = { p with channel := (p.enable effect operand m).channel } := by
  unfold enable
  split
  · rfl
  · split <;> rfl

/-- A player that has taken in the octave and the delay of a command. -/
def heed (p : Player) (c : Command) : Player :=
  { p with octave := (p.driver.after c).octave, length := (p.driver.after c).length }

/-- A command with a pitch plays a note. -/
theorem perform_note {pitch : UInt8} (hc : c.pitch? = some pitch) :
    p.perform bank c = .ok ((p.heed c).playNote pitch) := by
  cases c with
  | note | noteShort | noteUp | noteDown =>
    cases hc
    rfl
  | _ => cases hc

/-- Any other command is not logged.  Time may pass, and the channel may change. -/
theorem perform_quiet (hc : c.pitch? = none) (h : p.perform bank c = .ok p') :
    p' = { p.heed c with
      elapsed := p.elapsed + Tone.duration (p.driver.hear [c]), channel := p'.channel } := by
  have helapsed := (perform_hear h).2.2
  cases c with
  | note | noteShort | noteUp | noteDown => cases hc
  | effectOn effect operand =>
    rw [← helapsed]
    simp only [perform] at h
    split at h
    · next m _ =>
      cases h
      rw [enable_eq]
      rfl
    · cases h
  | rest | wait | restShort | waitShort | octave | volume | effectOff | jump | stop =>
    rw [← helapsed]
    cases h
    rfl

theorem perform_logged (h : p.perform bank c = .ok p') : p.LoggedBy p' := by
  cases hc : c.pitch? with
  | some pitch =>
    rw [perform_note hc] at h
    cases h
    exact playNote_logged (p.heed c) pitch
  | none =>
    rw [perform_quiet hc h]
    exact .of_eq rfl rfl

/-- **Nothing leaves the log.** -/
theorem performAll_logged : ∀ {cs : List Command} {p p' : Player},
    p.performAll bank cs = .ok p' → p.LoggedBy p' := by
  intro cs
  induction cs with
  | nil =>
    intro p p' h
    cases h
    exact .of_eq rfl rfl
  | cons c cs ih =>
    intro p p' h
    cases hc : c.isTerminator with
    | true =>
      simp only [performAll, hc, if_true] at h
      cases h
      exact .of_eq rfl rfl
    | false =>
      obtain ⟨q, hq, hrest⟩ := (performAll_cons_eq_ok hc).mp h
      obtain ⟨hnotes, htrace⟩ := perform_logged hq
      obtain ⟨hnotes', htrace'⟩ := ih hrest
      exact ⟨hnotes.trans hnotes', htrace.trans htrace'⟩

/-! ### Notes that sound in a known way -/

/-- The notes and the semitones that one player has logged after another one.  The notes are counted
from `i` on, each with the semitones of its number, and the channel is ready for the next one. -/
structure Plays (semitones : Nat → PlayedNote → List Int) (Ready : Nat → PlayChannel → Prop)
    (i : Nat) (p p' : Player) (notes : List PlayedNote) : Prop where
  /-- The notes are logged. -/
  logged : p'.notes.toList = p.notes.toList ++ notes
  /-- So are the semitones of each. -/
  trace : p'.pitchTrace.toList =
    p.pitchTrace.toList ++ (notes.mapIdx fun k n => semitones (i + k) n).flatten
  /-- The channel is ready for the next note. -/
  ready : Ready (i + notes.length) p'.channel

namespace Plays

variable {semitones : Nat → PlayedNote → List Int} {Ready : Nat → PlayChannel → Prop} {i : Nat}

theorem of_quiet (hnotes : p'.notes = p.notes) (htrace : p'.pitchTrace = p.pitchTrace)
    (h : Ready i p'.channel) : p.Plays semitones Ready i p' [] := by
  refine ⟨?_, ?_, h⟩
  · rw [hnotes, List.append_nil]
  · rw [htrace]
    exact (List.append_nil _).symm

theorem trans {q : Player} {notes notes' : List PlayedNote} (h : p.Plays semitones Ready i q notes)
    (h' : q.Plays semitones Ready (i + notes.length) p' notes') :
    p.Plays semitones Ready i p' (notes ++ notes') := by
  refine ⟨by rw [h'.logged, h.logged, List.append_assoc], ?_, ?_⟩
  · have hshift : (fun k n => semitones (i + (k + notes.length)) n) =
        fun k n => semitones (i + notes.length + k) n := by
      funext k n
      congr 1
      omega
    rw [h'.trace, h.trace, List.mapIdx_append, hshift, List.flatten_append, List.append_assoc]
  · rw [List.length_append, ← Nat.add_assoc]
    exact h'.ready

/-- A note is played, if its semitones are known and it leaves the channel ready in every frame. -/
theorem playNote {pitch : UInt8}
    (hsound : ∀ n : PlayedNote, n.pitch = pitch → n.octave = p.octave →
      (List.range n.frames.toNat).map (fun j => (PlayChannel.updateFrame^[j]
        (p.channel.startNote pitch.toNat p.octave.toNat)).state.effectiveNote) = semitones i n)
    (hready : ∀ j, Ready (i + 1)
      (PlayChannel.updateFrame^[j] (p.channel.startNote pitch.toNat p.octave.toNat))) :
    ∃ notes, p.Plays semitones Ready i (p.playNote pitch) notes := by
  obtain ⟨hnotes, htrace, hchannel⟩ := p.playNote_frames pitch
  refine ⟨_, hnotes, ?_, ?_⟩
  · rw [htrace, List.mapIdx_singleton, List.flatten_singleton, Nat.add_zero, ← hsound _ rfl rfl]
  · rw [hchannel]
    exact hready _

/-- **How the notes of some commands sound**, if each note sounds as it should and leaves the
channel ready, and all other commands leave it so. -/
theorem performAll {P : Command → Prop} (hopen : ∀ c, P c → c.isTerminator = false)
    (hnote : ∀ {i : Nat} {p : Player}, Ready i p.channel → ∀ pitch,
      ∃ notes, p.Plays semitones Ready i (p.playNote pitch) notes)
    (hquiet : ∀ {i : Nat} {p p' : Player} {c : Command}, P c → c.pitch? = none →
      p.perform bank c = .ok p' → Ready i p.channel → Ready i p'.channel) :
    ∀ {cs : List Command} {i : Nat} {p p' : Player}, Ready i p.channel → (∀ c ∈ cs, P c) →
      p.performAll bank cs = .ok p' → ∃ notes, p.Plays semitones Ready i p' notes := by
  intro cs
  induction cs with
  | nil =>
    intro i p p' h _ hp
    cases hp
    exact ⟨[], of_quiet rfl rfl h⟩
  | cons c cs ih =>
    intro i p p' h hcs hp
    obtain ⟨hc, hcs⟩ := List.forall_mem_cons.mp hcs
    obtain ⟨q, hq, hrest⟩ := (performAll_cons_eq_ok (hopen c hc)).mp hp
    obtain ⟨notes, hfirst⟩ : ∃ notes, p.Plays semitones Ready i q notes := by
      cases hpitch : c.pitch? with
      | some pitch =>
        rw [perform_note hpitch] at hq
        cases hq
        obtain ⟨notes, hplays⟩ := hnote (p := p.heed c) h pitch
        exact ⟨notes, hplays.logged, hplays.trace, hplays.ready⟩
      | none =>
        have hready := hquiet hc hpitch hq h
        rw [perform_quiet hpitch hq]
        exact ⟨[], of_quiet rfl rfl hready⟩
    obtain ⟨notes', hothers⟩ := ih hfirst.ready hcs hrest
    exact ⟨notes ++ notes', hfirst.trans hothers⟩

end Plays

end Player

/-! ### Streams -/

theorem play_eq_ok {bank : MacroBank} {scale : Int} {octave : UInt8} {cs : List Command}
    {log : PlayLog} (h : play bank scale octave cs = .ok log) :
    ∃ p, (Player.new scale octave).performAll bank cs = .ok p ∧ p.log = log := by
  unfold play at h
  cases hp : (Player.new scale octave).performAll bank cs with
  | error e => rw [hp] at h; cases h
  | ok p =>
    rw [hp] at h
    cases h
    exact ⟨p, rfl, rfl⟩

/-- A stream that is played is cut at one of its commands, and after some more of them.  The parts
are played one after the other, and the notes from the cut on are those that are heard. -/
theorem play_cut {bank : MacroBank} {scale : Int} {octave : UInt8}
    {before body after : List Command} {c : Command} {log : PlayLog}
    (hplay : play bank scale octave (before ++ c :: (body ++ after)) = .ok log)
    (hopen : ∀ x ∈ before ++ c :: body, x.isTerminator = false) :
    ∃ p₀ p₁ p₂ : Player, (Player.new scale octave).performAll bank before = .ok p₀ ∧
      p₀.perform bank c = .ok p₁ ∧ p₁.performAll bank body = .ok p₂ ∧
      play bank scale octave before = .ok p₀.log ∧
      play bank scale octave (before ++ c :: body) = .ok p₂.log ∧
      (∀ notes, p₂.notes.toList = p₀.notes.toList ++ notes →
        notes.map (fun n => (n.pitch.toNat, n.octave.toNat)) =
          (((⟨octave, 0⟩ : Driver).run before).hear (c :: body)).filterMap Tone.key?) ∧
      p₂.log.notes.toList <+: log.notes.toList ∧
      p₂.log.pitchTrace.toList <+: log.pitchTrace.toList := by
  obtain ⟨p', hp', rfl⟩ := play_eq_ok hplay
  obtain ⟨hbefore, hrest⟩ := List.forall_mem_append.mp hopen
  obtain ⟨hc, hbody⟩ := List.forall_mem_cons.mp hrest
  obtain ⟨p₀, hp₀, hfrom⟩ := (Player.performAll_append_eq_ok hbefore).mp hp'
  obtain ⟨p₁, hp₁, hfrom⟩ := (Player.performAll_cons_eq_ok hc).mp hfrom
  obtain ⟨p₂, hp₂, hafter⟩ := (Player.performAll_append_eq_ok hbody).mp hfrom
  have hcut : (Player.new scale octave).performAll bank (before ++ c :: body) = .ok p₂ :=
    (Player.performAll_append_eq_ok hbefore).mpr
      ⟨p₀, hp₀, (Player.performAll_cons_eq_ok hc).mpr ⟨p₁, hp₁, hp₂⟩⟩
  refine ⟨p₀, p₁, p₂, hp₀, hp₁, hp₂, by rw [play, hp₀]; rfl, by rw [play, hcut]; rfl,
    fun notes hnotes => ?_, Player.performAll_logged hafter⟩
  -- what is heard up to the cut is in the log of the first part
  obtain ⟨hkeys₀, -⟩ := Player.performAll_hear before hp₀
  obtain ⟨hkeys, -⟩ := Player.performAll_hear _ hcut
  rw [List.takeWhile_eq_self_iff.mpr fun x hx => by simp [hbefore x hx]] at hkeys₀
  rw [List.takeWhile_eq_self_iff.mpr fun x hx => by simp [hopen x hx], Driver.hear_append,
    List.filterMap_append, ← List.append_assoc, ← hkeys₀, Player.keys, hnotes,
    List.map_append] at hkeys
  exact List.append_cancel_left hkeys

end Chiptune
