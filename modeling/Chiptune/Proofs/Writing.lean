import Chiptune.Proofs.RoundTrip
import Chiptune.Proofs.Score

/-!
# What is written into a channel

A channel only ever appends to its bytes, and what it appends are whole commands.  While it does,
it keeps the time that a driver will count, and it keeps its expectation of the delay that the
driver will remember.

The tones that the appended commands play depend on the driver that arrives at them.  The channel
relies on that driver's delay being the expected one, and where it writes a note by its octave also
on its octave; within a tuplet the octave is left to markers.

## Main definitions

* `Channel.offStream` — what a channel knows besides its stream.
* `Channel.KnowsLength` — the channel's expectation of the driver's delay is true.
* `Channel.Extended` — a channel after some commands were appended to it.
* `Channel.Appended` — the same, where nothing else has changed.
* `Channel.Plays` — such commands with the tones that they play.

## Main results

* `Channel.writeNote_plays`, `Channel.writeSilence_plays`, `Channel.writeEntries_plays` — what
  notes, silences and tuplets add to a stream.
-/

namespace Chiptune

open Command

/-- Whether a command changes a setting and takes no time. -/
def Command.isSetting : Command → Bool
  | octave _ | volume _ | effectOn _ _ | effectOff _ => true
  | note _ _ | noteShort _ | noteUp _ | noteDown _ | rest _ | restShort | wait _ | waitShort
  | jump _ | stop => false

theorem Command.isTerminator_of_isSetting {c : Command} (h : c.isSetting = true) :
    c.isTerminator = false := by
  cases c with
  | jump _ | stop => cases h
  | _ => rfl

/-- The tone of a sound in an octave. -/
def Sound.tone (octave : Nat) (n : Int) : Sound → Tone
  | note pitch => .note pitch octave n
  | rest => .rest n
  | wait => .wait n

namespace Channel

/-- What a channel knows besides its stream. -/
def offStream (ch : Channel) : Channel :=
  { ch with data := #[], lastLength := none, driverOctave := none, elapsed := 0 }

theorem scale_eq_of_offStream {ch ch' : Channel} (h : ch'.offStream = ch.offStream) :
    ch'.scale = ch.scale :=
  show ch'.offStream.scale = ch.offStream.scale from congrArg Channel.scale h

/-- What the channel expects of the driver's delay is true of `d`. -/
def KnowsLength (ch : Channel) (d : Driver) : Prop := ∀ n, ch.lastLength = some n → d.length = n

/-- What the channel expects of the driver's octave is true of `o`. -/
def KnowsOctave (ch : Channel) (o : UInt8) : Prop := ∀ k, ch.driverOctave = some k → o = .ofNat k

/-- The commands `cs` were appended on the way from `ch` to `ch'`.  They are whole and do not end
the channel; the channel goes on expecting the delay that the driver has, and counts the units that
the driver counts. -/
structure Extended (ch : Channel) (cs : List Command) (ch' : Channel) : Prop where
  /-- The bytes of the commands follow those that were there. -/
  data : ch'.data.toList = ch.data.toList ++ encodeAll ch.scale cs
  /-- The clock is the same. -/
  clock : ch'.clock = ch.clock
  /-- The end has not been written. -/
  finished : ch'.finished = ch.finished
  /-- The stream can carry the commands. -/
  fits : ∀ c ∈ cs, c.Fits (maxLength ch.scale) ∧ c.isTerminator = false
  /-- The expectation of the delay stays true. -/
  length : ∀ d, ch.KnowsLength d → ch'.KnowsLength (d.run cs)
  /-- The units of the tones are counted. -/
  elapsed : ∀ d, ch.KnowsLength d → ch'.elapsed = ch.elapsed + Tone.duration (d.hear cs)

/-- Nothing but the stream was changed while the commands `cs` were appended. -/
structure Appended (ch : Channel) (cs : List Command) (ch' : Channel) : Prop
    extends Extended ch cs ch' where
  /-- Nothing else is changed. -/
  offStream : ch'.offStream = ch.offStream

section Append

variable {ch ch' ch'' : Channel} {cs cs' : List Command}

theorem Extended.scale (h : Extended ch cs ch') : ch'.scale = ch.scale :=
  congrArg FrameClock.scale h.clock

theorem Extended.trans (h : Extended ch cs ch') (h' : Extended ch' cs' ch'') :
    Extended ch (cs ++ cs') ch'' where
  data := by rw [h'.data, h.data, h.scale, encodeAll_append, List.append_assoc]
  clock := h'.clock.trans h.clock
  finished := h'.finished.trans h.finished
  fits := by
    intro c hc
    rcases List.mem_append.mp hc with hc | hc
    · exact h.fits c hc
    · rw [← h.scale]; exact h'.fits c hc
  length := by
    intro d hd
    rw [Driver.run_append]
    exact h'.length _ (h.length d hd)
  elapsed := by
    intro d hd
    rw [h'.elapsed _ (h.length d hd), h.elapsed d hd, Driver.hear_append, Tone.duration_append,
      Int.add_assoc]

theorem Appended.refl (ch : Channel) : Appended ch [] ch where
  data := by simp
  clock := rfl
  finished := rfl
  fits := by simp
  length := fun _ h => h
  elapsed := by simp
  offStream := rfl

theorem Appended.trans (h : Appended ch cs ch') (h' : Appended ch' cs' ch'') :
    Appended ch (cs ++ cs') ch'' where
  toExtended := h.toExtended.trans h'.toExtended
  offStream := h'.offStream.trans h.offStream

end Append

/-- Commands were appended that a driver in an octave `o` plays as `ts o`, after which it is in the
octave `f o`.  The driver is one whose delay the channel expects, in an octave of `P`. -/
def Plays (ch ch' : Channel) (P : UInt8 → Prop) (ts : UInt8 → List Tone) (f : UInt8 → UInt8) :
    Prop :=
  ∃ cs, Appended ch cs ch' ∧ ∀ d : Driver, ch.KnowsLength d → P d.octave →
    d.hear cs = ts d.octave ∧ (d.run cs).octave = f d.octave

theorem Plays.trans {ch ch' ch'' : Channel} {P Q : UInt8 → Prop} {ts ts' : UInt8 → List Tone}
    {f g : UInt8 → UInt8} (h : Plays ch ch' P ts f) (h' : Plays ch' ch'' Q ts' g)
    (hPQ : ∀ o, P o → Q (f o)) :
    Plays ch ch'' P (fun o => ts o ++ ts' (f o)) (fun o => g (f o)) := by
  obtain ⟨cs, happ, hplay⟩ := h
  obtain ⟨cs', happ', hplay'⟩ := h'
  refine ⟨cs ++ cs', happ.trans happ', fun d hd hP => ?_⟩
  obtain ⟨hhear, hoct⟩ := hplay d hd hP
  obtain ⟨hhear', hoct'⟩ := hplay' (d.run cs) (happ.length d hd) (by rw [hoct]; exact hPQ _ hP)
  rw [Driver.hear_append, Driver.run_append, hhear, hhear', hoct', hoct]
  exact ⟨rfl, rfl⟩

/-- The tones and the octave count only for the octaves in which the driver may be. -/
theorem Plays.congr {ch ch' : Channel} {P Q : UInt8 → Prop} {ts ts' : UInt8 → List Tone}
    {f g : UInt8 → UInt8} (h : Plays ch ch' P ts f) (hP : ∀ o, Q o → P o)
    (hts : ∀ o, Q o → ts o = ts' o) (hf : ∀ o, Q o → f o = g o) : Plays ch ch' Q ts' g := by
  obtain ⟨cs, happ, hplay⟩ := h
  refine ⟨cs, happ, fun d hd hQ => ?_⟩
  rw [← hts _ hQ, ← hf _ hQ]
  exact hplay d hd (hP _ hQ)

theorem Plays.refl (ch : Channel) (P : UInt8 → Prop) : Plays ch ch P (fun _ => []) id :=
  ⟨[], .refl ch, fun _ _ _ => ⟨rfl, rfl⟩⟩

/-! ### Commands that take no time -/

@[simp] theorem toList_data_write (ch : Channel) (c : Command) :
    (ch.write c).data.toList = ch.data.toList ++ c.encode ch.scale := by
  simp [write]

/-- A setting is not heard, and leaves the delay alone. -/
theorem hear_setting {c : Command} (h : c.isSetting = true) (d : Driver) :
    d.hear [c] = [] ∧ (d.run [c]).length = d.length := by
  cases c <;> simp_all [isSetting, Driver.tone?, Driver.after]

/-- A setting is appended. -/
theorem write_appended (ch : Channel) {c : Command} (hfits : c.Fits (maxLength ch.scale))
    (hset : c.isSetting = true) : Appended ch [c] (ch.write c) where
  data := by simp
  clock := rfl
  finished := rfl
  offStream := rfl
  fits := by
    intro c' hc'
    rw [List.mem_singleton.mp hc']
    exact ⟨hfits, isTerminator_of_isSetting hset⟩
  length := by
    intro d hd n hn
    rw [(hear_setting hset d).2]
    exact hd n hn
  elapsed := by
    intro d _
    rw [(hear_setting hset d).1]
    simp [write]

/-! ### Sounds -/

theorem toNat_ofNat_pitch (p : Fin 12) : (UInt8.ofNat p).toNat = p := by
  have := p.isLt
  simp only [UInt8.toNat_ofNat']
  omega

theorem toNat_ofNat_octave (o : Octave) : (UInt8.ofNat o).toNat = o := by
  have := o.isLt
  simp only [UInt8.toNat_ofNat']
  omega

/-- The command of a sound plays it for the command's delay, which the driver keeps. -/
theorem hear_command (s : Sound) (n : Int) (d : Driver) :
    d.hear [s.command n] = [s.tone d.octave.toNat n] ∧ d.run [s.command n] = ⟨d.octave, n⟩ := by
  cases s <;>
    simp only [Sound.command, Sound.tone, Driver.hear_singleton, Driver.run_cons, Driver.run_nil,
      Driver.tone?, Driver.after, toNat_ofNat_pitch, Option.toList, and_self]

/-- The short command of a sound plays it for the delay that the driver has. -/
theorem hear_shortCommand (s : Sound) (d : Driver) :
    d.hear [s.shortCommand] = [s.tone d.octave.toNat d.length] ∧ d.run [s.shortCommand] = d := by
  cases s <;>
    simp only [Sound.shortCommand, Sound.tone, Driver.hear_singleton, Driver.run_cons,
      Driver.run_nil, Driver.tone?, Driver.after, toNat_ofNat_pitch, Option.toList, and_self]

theorem length_tone (s : Sound) (octave : Nat) (n : Int) : (s.tone octave n).length = n := by
  cases s <;> rfl

theorem ofNat_pitch_lt (p : Fin 12) : UInt8.ofNat p < 12 := by
  rw [UInt8.lt_iff_toNat_lt, toNat_ofNat_pitch]
  exact p.isLt

/-- The stream can carry the commands of sounds. -/
theorem fits_command (s : Sound) {longest n : Int} (h0 : 0 ≤ n) (hn : n ≤ longest) :
    (s.command n).Fits longest ∧ (s.command n).isTerminator = false := by
  cases s with
  | note p => exact ⟨⟨ofNat_pitch_lt p, h0, hn⟩, rfl⟩
  | rest => exact ⟨⟨h0, hn⟩, rfl⟩
  | wait => exact ⟨⟨h0, hn⟩, rfl⟩

theorem fits_shortCommand (s : Sound) (longest : Int) :
    s.shortCommand.Fits longest ∧ s.shortCommand.isTerminator = false := by
  cases s with
  | note p => exact ⟨ofNat_pitch_lt p, rfl⟩
  | rest => exact ⟨trivial, rfl⟩
  | wait => exact ⟨trivial, rfl⟩

/-- A sound is appended as one command, in short form or with its delay.  Either way it is heard in
the driver's octave. -/
theorem writeSound_plays (ch : Channel) (s : Sound) {n : Int} (h0 : 0 ≤ n)
    (hn : n ≤ maxLength ch.scale) :
    Plays ch (ch.writeSound s n) (fun _ => True) (fun o => [s.tone o.toNat n]) id := by
  unfold writeSound
  split
  · -- the short form relies on the delay that the channel expects
    next hlast =>
    have hlen : ∀ d : Driver, ch.KnowsLength d → d.length = n := fun d hd => hd n hlast
    refine ⟨[s.shortCommand], ⟨⟨by simp, rfl, rfl, ?_, ?_, ?_⟩, rfl⟩, ?_⟩
    · simpa using fits_shortCommand s _
    · intro d hd
      rw [(hear_shortCommand s d).2]
      exact hd
    · intro d hd
      rw [(hear_shortCommand s d).1, hlen d hd]
      simp [length_tone]
    · intro d hd _
      rw [(hear_shortCommand s d).1, (hear_shortCommand s d).2, hlen d hd]
      exact ⟨rfl, rfl⟩
  · -- the long form tells the driver its delay, whatever that was before
    refine ⟨[s.command n], ⟨⟨by simp, rfl, rfl, ?_, ?_, ?_⟩, rfl⟩, ?_⟩
    · simpa using fits_command s h0 hn
    · intro d _ m hm
      rw [(hear_command s n d).2]
      exact Option.some.inj hm
    · intro d _
      rw [(hear_command s n d).1]
      simp [length_tone]
    · intro d _ _
      rw [(hear_command s n d).1, (hear_command s n d).2]
      exact ⟨rfl, rfl⟩

@[simp] theorem driverOctave_writeSound (ch : Channel) (s : Sound) (n : Int) :
    (ch.writeSound s n).driverOctave = ch.driverOctave := by
  unfold writeSound
  split <;> rfl

@[simp] theorem offStream_writeSound (ch : Channel) (s : Sound) (n : Int) :
    (ch.writeSound s n).offStream = ch.offStream := by
  unfold writeSound
  split <;> rfl

theorem scale_writeSound (ch : Channel) (s : Sound) (n : Int) :
    (ch.writeSound s n).scale = ch.scale :=
  scale_eq_of_offStream (offStream_writeSound ch s n)

/-! ### Silence -/

/-- **Silence is appended in pieces**, and the octave stays as it is. -/
theorem writeSilence_plays {s : Sound} (hs : s.isNote = false) (ch : Channel) (n : Int)
    (h0 : 0 ≤ n) :
    Plays ch (ch.writeSilence s n) (fun _ => True)
      (fun _ => Tone.silence (s.tone 0) (maxLength ch.scale) n) id := by
  fun_induction writeSilence ch s n with
  | case1 ch n hpos part ih =>
    -- a piece is written, and the rest follows on the channel with that piece
    have hmax : 0 < maxLength ch.scale := maxLength_pos ch.clock.scale_pos
    have hfirst := writeSound_plays ch s (n := part) (by omega) (by omega)
    refine (hfirst.trans (ih (by omega)) fun _ h => h).congr (fun _ h => h) ?_ fun _ _ => rfl
    intro o _
    rw [Tone.silence_step _ hmax hpos, scale_writeSound]
    cases s with
    | note p => cases hs
    | rest | wait => rfl
  | case2 ch n hpos =>
    rw [show n = 0 by omega, Tone.silence_zero]
    exact Plays.refl ch _

@[simp] theorem offStream_writeSilence (ch : Channel) (s : Sound) (n : Int) :
    (ch.writeSilence s n).offStream = ch.offStream := by
  fun_induction writeSilence ch s n with
  | case1 ch n hpos part ih => rw [ih, offStream_writeSound]
  | case2 ch n hpos => rfl

@[simp] theorem driverOctave_writeSilence (ch : Channel) (s : Sound) (n : Int) :
    (ch.writeSilence s n).driverOctave = ch.driverOctave := by
  fun_induction writeSilence ch s n with
  | case1 ch n hpos part ih => rw [ih, driverOctave_writeSound]
  | case2 ch n hpos => rfl

/-! ### Notes -/

theorem ofNat_octave_lt (o : Octave) : UInt8.ofNat o < 16 := by
  rw [UInt8.lt_iff_toNat_lt, toNat_ofNat_octave]
  exact o.isLt

/-- The commands of a note that takes the driver's delay, by what has to happen to the octave. -/
def stepCommands (pitch : UInt8) : OctaveChange → List Command
  | .none => [.noteShort pitch]
  | .up => [.noteUp pitch]
  | .down => [.noteDown pitch]
  | .absolute o => [.octave (.ofNat o), .noteShort pitch]

theorem fits_stepCommands (p : Fin 12) (x : OctaveChange) (longest : Int) :
    ∀ c ∈ stepCommands (.ofNat p) x, c.Fits longest ∧ c.isTerminator = false := by
  have hp := ofNat_pitch_lt p
  cases x with
  | absolute o =>
    refine List.forall_mem_cons.mpr ⟨⟨ofNat_octave_lt o, rfl⟩, ?_⟩
    exact List.forall_mem_singleton.mpr ⟨hp, rfl⟩
  | none | up | down => exact List.forall_mem_singleton.mpr ⟨hp, rfl⟩

/-- Whatever happens to the octave, the note sounds in the octave after it, with the driver's
delay. -/
theorem hear_stepCommands (p : Fin 12) (x : OctaveChange) (d : Driver) :
    d.hear (stepCommands (.ofNat p) x) =
        [.note p (d.run (stepCommands (.ofNat p) x)).octave.toNat d.length] ∧
      (d.run (stepCommands (.ofNat p) x)).length = d.length := by
  cases x <;>
    simp only [stepCommands, Driver.hear_cons, Driver.hear_nil, Driver.run_cons, Driver.run_nil,
      Driver.tone?, Driver.after, toNat_ofNat_pitch, Option.toList, List.append_nil,
      List.nil_append, and_self]

private theorem octave_up {k target : Octave} (h : target.val = k.val + 1) :
    (if UInt8.ofNat k = 255 then 255 else UInt8.ofNat k + 1) = UInt8.ofNat target := by
  -- octaves have four bits, so the driver is not at the end of its range
  have hk : UInt8.ofNat k ≠ 255 := by
    intro hc
    have := congrArg UInt8.toNat hc
    rw [toNat_ofNat_octave] at this
    have := k.isLt
    simp at *
    omega
  rw [if_neg hk, h, UInt8.ofNat_add]
  rfl

private theorem octave_down {k target : Octave} (h : k.val = target.val + 1) :
    (if UInt8.ofNat k = 0 then 0 else UInt8.ofNat k - 1) = UInt8.ofNat target := by
  have hk : UInt8.ofNat k ≠ 0 := by
    intro hc
    have := congrArg UInt8.toNat hc
    rw [toNat_ofNat_octave] at this
    simp at this
    omega
  rw [if_neg hk, h, UInt8.ofNat_add]
  exact UInt8.add_sub_cancel _ _

/-- The octave becomes the one that is wanted, if it was the one that the channel expects. -/
theorem octave_stepCommands {ch : Channel} {d : Driver} (h : ch.KnowsOctave d.octave)
    (p : UInt8) (target : Octave) :
    (d.run (stepCommands p (ch.octaveChange target))).octave = .ofNat target := by
  cases hk : ch.driverOctave with
  | none => simp [octaveChange, hk, stepCommands, Driver.after]
  | some k =>
    have hd : d.octave = .ofNat k := h k hk
    simp only [octaveChange, hk]
    split
    · next hkt => simp [stepCommands, Driver.after, hd, hkt]
    · split
      · next hup => simpa [stepCommands, Driver.after, hd] using octave_up hup
      · split
        · next hdown => simpa [stepCommands, Driver.after, hd] using octave_down hdown
        · simp [stepCommands, Driver.after]

/-- What the channel expects of the octave does not change what was played. -/
theorem Plays.expect {ch ch' : Channel} {P : UInt8 → Prop} {ts : UInt8 → List Tone}
    {f : UInt8 → UInt8} (h : Plays ch ch' P ts f) (x : Option Octave) :
    Plays ch { ch' with driverOctave := x } P ts f := by
  obtain ⟨cs, happ, hplay⟩ := h
  exact ⟨cs, ⟨⟨happ.data, happ.clock, happ.finished, happ.fits, happ.length, happ.elapsed⟩,
    happ.offStream⟩, hplay⟩

theorem write_octave_plays (ch : Channel) (o : Octave) (P : UInt8 → Prop) :
    Plays ch (ch.write (.octave (.ofNat o))) P (fun _ => []) (fun _ => .ofNat o) :=
  ⟨[.octave (.ofNat o)], write_appended ch (ofNat_octave_lt o) rfl, fun _ _ _ => ⟨rfl, rfl⟩⟩

/-- A driver in the octave that needs no change is in the octave that is wanted. -/
theorem KnowsOctave.of_octaveChange {ch : Channel} {o : UInt8} {target : Octave}
    (h : ch.KnowsOctave o) (hx : ch.octaveChange target = .none) : o = .ofNat target := by
  cases hk : ch.driverOctave with
  | none => simp [octaveChange, hk] at hx
  | some k =>
    simp only [octaveChange, hk] at hx
    split at hx
    · next hkt => rw [← hkt]; exact h k hk
    · repeat' split at hx
      all_goals cases hx

/-- A note with the delay that the driver has. -/
private theorem writeNote_short (ch : Channel) (p : Fin 12) (o : Octave) {n : Int}
    (h : ch.lastLength = some n) :
    ch.writeNote p o n =
      { ch with
        data := ch.data ++ encodeAll ch.scale (stepCommands (.ofNat p) (ch.octaveChange o))
        elapsed := ch.elapsed + n
        driverOctave := some o } := by
  unfold writeNote
  rw [if_pos h]
  cases ch.octaveChange o <;> simp [stepCommands, write, scale, ← Array.toList_inj]

/-- **A note is appended in its octave.**  The channel relies on the octave that it expects. -/
theorem writeNote_plays (ch : Channel) (p : Fin 12) (o : Octave) {n : Int} (h0 : 0 ≤ n)
    (hn : n ≤ maxLength ch.scale) :
    Plays ch (ch.writeNote p o n) ch.KnowsOctave (fun _ => [.note p o n])
      (fun _ => .ofNat o) := by
  by_cases hlast : ch.lastLength = some n
  · -- a short form, which also changes the octave by one step if that is enough
    have hlen : ∀ d : Driver, ch.KnowsLength d → d.length = n := fun d hd => hd n hlast
    rw [writeNote_short ch p o hlast]
    refine ⟨stepCommands (.ofNat p) (ch.octaveChange o), ⟨⟨by simp, rfl, rfl, ?_, ?_, ?_⟩, rfl⟩, ?_⟩
    · exact fits_stepCommands p _ _
    · intro d hd m hm
      rw [(hear_stepCommands p _ d).2]
      exact hd m hm
    · intro d hd
      rw [(hear_stepCommands p _ d).1, hlen d hd]
      simp [Tone.length]
    · intro d hd ho
      rw [(hear_stepCommands p _ d).1, octave_stepCommands ho, hlen d hd, toNat_ofNat_octave]
      exact ⟨rfl, rfl⟩
  · -- a command with its delay, after an octave command if the octave changes
    unfold writeNote
    rw [if_neg hlast]
    refine Plays.expect ?_ _
    split
    · -- the driver is in the octave of the note already
      next hx =>
      refine (writeSound_plays ch (.note p) h0 hn).congr (fun _ _ => trivial) ?_ ?_
      · intro k hk
        rw [hk.of_octaveChange hx, toNat_ofNat_octave]
        rfl
      · intro k hk
        exact hk.of_octaveChange hx
    · have hset := write_octave_plays ch o ch.KnowsOctave
      refine (hset.trans (writeSound_plays _ (.note p) h0 hn) fun _ _ => trivial).congr
        (fun _ h => h) ?_ fun _ _ => rfl
      intro k _
      rw [toNat_ofNat_octave]
      rfl

/-- **The silent part of a length** is appended on its side of the part that sounds. -/
theorem writeWithCutoff_plays {ch : Channel} {cut : Int} (hcut : 0 ≤ cut)
    {body : Channel → Channel} {P : UInt8 → Prop} {ts : UInt8 → List Tone} {f : UInt8 → UInt8}
    (hbody : ∀ ch₁ : Channel, ch₁.offStream = ch.offStream → ch₁.driverOctave = ch.driverOctave →
      Plays ch₁ (body ch₁) P ts f) :
    Plays ch (ch.writeWithCutoff cut body) P
      (fun o =>
        if ch.cutoff.leading then Tone.silence .rest (maxLength ch.scale) cut ++ ts o
        else ts o ++ Tone.silence .rest (maxLength ch.scale) cut) f := by
  have hsilence := fun c : Channel => writeSilence_plays (s := .rest) rfl c cut hcut
  unfold writeWithCutoff
  split
  · next hlead =>
    have hbody' := hbody (ch.writeSilence .rest cut) (by simp) (by simp)
    exact ((hsilence ch).congr (fun _ _ => trivial) (fun _ _ => rfl) fun _ _ => rfl).trans hbody'
      fun _ h => h
  · next hlead =>
    have hplays := hbody ch rfl rfl
    have hscale : (body ch).scale = ch.scale := by
      obtain ⟨cs, happ, -⟩ := hplays
      exact happ.scale
    refine (hplays.trans (hsilence (body ch)) fun _ _ => trivial).congr (fun _ h => h) ?_
      fun _ _ => rfl
    intro o _
    rw [hscale]
    rfl

theorem offStream_writeWithCutoff {body : Channel → Channel}
    (hbody : ∀ ch₁ : Channel, (body ch₁).offStream = ch₁.offStream) (ch : Channel) (cut : Int) :
    (ch.writeWithCutoff cut body).offStream = ch.offStream := by
  unfold writeWithCutoff
  split <;> simp [hbody]

/-! ### Tuplets -/

/-- The markers of a tuplet are settings that the stream can carry. -/
def MarkersFit (longest : Int) (entries : List TupletEntry) : Prop :=
  ∀ c, TupletEntry.marker c ∈ entries → c.Fits longest ∧ c.isSetting = true

theorem MarkersFit.mono {longest : Int} {entries entries' : List TupletEntry}
    (h : MarkersFit longest entries) (hsub : ∀ e ∈ entries', e ∈ entries) :
    MarkersFit longest entries' :=
  fun c hc => h c (hsub _ hc)

/-- The driver's octave after an entry of a tuplet. -/
def octaveAfter (o : UInt8) : TupletEntry → UInt8
  | .marker (.octave o') => o'
  | _ => o

/-- The tones of the entries of a tuplet with their shares, on a driver in the octave `o`. -/
def entryTones (longest : Int) (o : UInt8) : List (TupletEntry × Int) → List Tone
  | [] => []
  | (.sound s, n) :: es => (s.part o.toNat).tones longest n ++ entryTones longest o es
  | (.marker c, _) :: es => entryTones longest (octaveAfter o (.marker c)) es

theorem writeEntry_plays (ch : Channel) {e : TupletEntry} {n : Int} (h0 : 0 ≤ n)
    (hn : n ≤ maxLength ch.scale)
    (hmark : MarkersFit (maxLength ch.scale) [e]) :
    Plays ch (ch.writeEntry (e, n)) (fun _ => True)
      (fun o => entryTones (maxLength ch.scale) o [(e, n)]) (fun o => octaveAfter o e) := by
  cases e with
  | marker c =>
    obtain ⟨hfits, hset⟩ := hmark c (by simp)
    refine ⟨[c], write_appended ch hfits hset, fun d _ _ => ⟨(hear_setting hset d).1, ?_⟩⟩
    cases c <;> first | rfl | cases hset
  | sound s =>
    cases s with
    | note p => exact writeSound_plays ch (.note p) h0 hn
    | rest =>
      refine (writeSilence_plays (s := .rest) rfl ch n h0).congr (fun _ h => h) ?_ fun _ _ => rfl
      intro o _
      simp [entryTones, Sound.part, Part.tones, Sound.tone]
    | wait =>
      refine (writeSilence_plays (s := .wait) rfl ch n h0).congr (fun _ h => h) ?_ fun _ _ => rfl
      intro o _
      simp [entryTones, Sound.part, Part.tones, Sound.tone]

theorem entryTones_cons (longest : Int) (o : UInt8) (x : TupletEntry × Int)
    (xs : List (TupletEntry × Int)) :
    entryTones longest o (x :: xs) =
      entryTones longest o [x] ++ entryTones longest (octaveAfter o x.1) xs := by
  obtain ⟨e, n⟩ := x
  cases e with
  | sound s => simp [entryTones, octaveAfter]
  | marker c => simp [entryTones]

/-- Entries of a tuplet are appended one after the other. -/
theorem foldl_writeEntry_plays : ∀ (xs : List (TupletEntry × Int)) (ch : Channel),
    (∀ x ∈ xs, 0 ≤ x.2 ∧ x.2 ≤ maxLength ch.scale) →
    MarkersFit (maxLength ch.scale) (xs.map (·.1)) →
    Plays ch (xs.foldl writeEntry ch) (fun _ => True)
      (fun o => entryTones (maxLength ch.scale) o xs) (fun o => (xs.map (·.1)).foldl octaveAfter o)
    := by
  intro xs
  induction xs with
  | nil => intro ch _ _; exact Plays.refl ch _
  | cons x xs ih =>
    intro ch hbound hmark
    obtain ⟨h0, hn⟩ := hbound x (by simp)
    have hfirst := writeEntry_plays ch (e := x.1) h0 hn (hmark.mono (by simp))
    have hscale : (ch.writeEntry x).scale = ch.scale := by
      obtain ⟨cs, happ, -⟩ := hfirst
      exact happ.scale
    have hrest := ih (ch.writeEntry x)
      (fun y hy => by rw [hscale]; exact hbound y (by simp [hy]))
      (by rw [hscale]; exact hmark.mono fun e he => by simp_all)
    refine (hfirst.trans hrest fun _ h => h).congr (fun _ h => h) ?_ fun _ _ => rfl
    intro o _
    rw [hscale]
    exact (entryTones_cons _ o x xs).symm

/-- **The entries of a tuplet are appended with their shares.** -/
theorem writeEntries_plays (ch : Channel) {entries : List TupletEntry} {active : Int}
    (h0 : 0 ≤ active) (hmax : active ≤ maxLength ch.scale)
    (hmark : MarkersFit (maxLength ch.scale) entries) :
    Plays ch (ch.writeEntries entries active) (fun _ => True)
      (fun o => entryTones (maxLength ch.scale) o
        (entries.zip (distribute active (entries.map (·.isTimed)))))
      (fun o => entries.foldl octaveAfter o) := by
  have hfst : (entries.zip (distribute active (entries.map (·.isTimed)))).map (·.1) = entries :=
    List.map_fst_zip (by rw [length_distribute h0, List.length_map])
  have hplays := foldl_writeEntry_plays
    (entries.zip (distribute active (entries.map (·.isTimed)))) ch ?_ (by rw [hfst]; exact hmark)
  · rw [hfst] at hplays
    exact hplays
  · -- no share is longer than the tuplet, so each fits into one command
    rintro ⟨e, n⟩ hx
    obtain ⟨hlow, hhigh⟩ := mem_distribute h0 (List.of_mem_zip hx).2
    exact ⟨hlow, Int.le_trans hhigh hmax⟩

@[simp] theorem offStream_writeEntry (ch : Channel) (x : TupletEntry × Int) :
    (ch.writeEntry x).offStream = ch.offStream := by
  obtain ⟨e, n⟩ := x
  unfold writeEntry
  split <;> first | rfl | simp

@[simp] theorem offStream_writeEntries (ch : Channel) (entries : List TupletEntry)
    (active : Int) : (ch.writeEntries entries active).offStream = ch.offStream := by
  unfold writeEntries
  generalize entries.zip _ = xs
  induction xs generalizing ch with
  | nil => rfl
  | cons x xs ih => rw [List.foldl_cons, ih, offStream_writeEntry]

@[simp] theorem driverOctave_writeEntry (ch : Channel) (x : TupletEntry × Int) :
    (ch.writeEntry x).driverOctave = ch.driverOctave := by
  obtain ⟨e, n⟩ := x
  unfold writeEntry
  split <;> first | rfl | simp

@[simp] theorem driverOctave_writeEntries (ch : Channel) (entries : List TupletEntry)
    (active : Int) : (ch.writeEntries entries active).driverOctave = ch.driverOctave := by
  unfold writeEntries
  generalize entries.zip _ = xs
  induction xs generalizing ch with
  | nil => rfl
  | cons x xs ih => rw [List.foldl_cons, ih, driverOctave_writeEntry]

end Channel

end Chiptune
