import Chiptune.Proofs.Playing

/-!
# A channel's predictions of the driver

A channel predicts what the driver knows after the bytes written so far.  While a tuplet is open
the prediction is about a later time, when the driver has also played the tuplet's markers.  Here
it is shown that the steps of which operations are made keep the prediction true, and what is
played for them.

The sound that is waiting is owed: it belongs to an event that has been read, and its commands come
with a later event.

## Main definitions

* `Channel.Orderly` — the open tuplet is as the operations make it.
* `Channel.Synced` — the channel's predictions are true of a driver.
* `Channel.Renders` — commands were appended that keep the predictions true, with their tones.

## Main results

* `Channel.emit_renders`, `Channel.emitOctave_renders`, `Channel.addEntry_renders` — settings and
  entries of tuplets keep the predictions true.
* `Flushed.renders`, `Closed.renders` — so do sounds that were waiting and tuplets, and they are
  played as the score says.
-/

namespace Chiptune

open Command

namespace Channel

variable {ch ch' ch'' : Channel} {cs cs' : List Command} {d : Driver} {g : Option (List Part)}

/-! ### Channels that grow -/

/-- What a channel knows of its stream, apart from the octave. -/
def onStream (ch : Channel) : Channel :=
  { new "" .pattern ch.clock 0 with
    data := ch.data
    lastLength := ch.lastLength
    elapsed := ch.elapsed
    finished := ch.finished }

theorem Extended.of_onStream (h : ch'.onStream = ch.onStream) : Extended ch [] ch' where
  data := by
    have hdata : ch'.data = ch.data := congrArg (·.data) h
    simp [hdata]
  clock := congrArg (·.clock) h
  finished := congrArg (·.finished) h
  fits := by simp
  length := by
    have hlen : ch'.lastLength = ch.lastLength := congrArg (·.lastLength) h
    intro d hd n hn
    exact hd n (by rw [← hlen]; exact hn)
  elapsed := by
    have helapsed : ch'.elapsed = ch.elapsed := congrArg (·.elapsed) h
    simp [helapsed]

/-! ### The open tuplet -/

/-- The entries of the open tuplet. -/
def entries (ch : Channel) : List TupletEntry := (ch.tuplet.getD #[]).toList

theorem entries_none (h : ch.tuplet = none) : ch.entries = [] := by
  simp [entries, h]

theorem entries_some {es : Array TupletEntry} (h : ch.tuplet = some es) :
    ch.entries = es.toList := by
  simp [entries, h]

/-- The open tuplet has markers that the stream can carry, and no sound waits beside it. -/
structure Orderly (ch : Channel) : Prop where
  /-- The markers of the tuplet are settings. -/
  markers : MarkersFit (maxLength ch.scale) ch.entries
  /-- Sounds wait only outside of tuplets. -/
  alone : ch.tuplet = none ∨ ch.pending = none

theorem Orderly.of_none (h : ch.tuplet = none) : ch.Orderly where
  markers := by simp [entries_none h, MarkersFit]
  alone := Or.inl h

/-- The order is a matter of the tuplet and the waiting sound. -/
theorem Orderly.congr (h : ch.Orderly) (hclock : ch'.clock = ch.clock)
    (htuplet : ch'.tuplet = ch.tuplet) (hpending : ch'.pending = ch.pending ∨ ch'.pending = none) :
    ch'.Orderly where
  markers := by
    simp only [scale, entries, hclock, htuplet]
    exact h.markers
  alone := by
    rw [htuplet]
    rcases hpending with hp | hp
    · rw [hp]; exact h.alone
    · exact Or.inr hp

/-- The octave of the driver `d` once it has played the markers of the open tuplet. -/
def octaveAt (ch : Channel) (d : Driver) : UInt8 := ch.entries.foldl octaveAfter d.octave

/-- The channel's predictions are true of the driver `d` after the bytes written so far, and `g` are
the sounds that it will find in the open tuplet. -/
structure Synced (ch : Channel) (g : Option (List Part)) (d : Driver) : Prop where
  /-- The delay is the expected one. -/
  length : ch.KnowsLength d
  /-- The octave will be the expected one. -/
  octave : ch.KnowsOctave (ch.octaveAt d)
  /-- The sounds of the open tuplet. -/
  group : ch.tuplet.map (fun es => parts d.octave es.toList) = g

theorem Synced.isSome (h : Synced ch g d) : g.isSome = ch.tuplet.isSome := by
  rw [← h.group, Option.isSome_map]

/-! ### Commands with their tones -/

/-- An orderly channel stays so, and commands were appended.  A driver plays them as `ts g` if the
channel's predictions were true of it, where `g` are the sounds of the open tuplet; the predictions
stay true, and the sounds of the tuplet become `f g`. -/
def Renders (ch ch' : Channel) (ts : Option (List Part) → List Tone)
    (f : Option (List Part) → Option (List Part)) : Prop :=
  ch.Orderly → ch'.Orderly ∧ ∃ cs, Extended ch cs ch' ∧
    ∀ g d, Synced ch g d → d.hear cs = ts g ∧ Synced ch' (f g) (d.run cs)

variable {ts ts' : Option (List Part) → List Tone}
  {f f' : Option (List Part) → Option (List Part)}

theorem Renders.trans (h : Renders ch ch' ts f) (h' : Renders ch' ch'' ts' f') :
    Renders ch ch'' (fun g => ts g ++ ts' (f g)) (fun g => f' (f g)) := by
  intro ho
  obtain ⟨ho', cs, hext, hplay⟩ := h ho
  obtain ⟨ho'', cs', hext', hplay'⟩ := h' ho'
  refine ⟨ho'', cs ++ cs', hext.trans hext', fun g d hd => ?_⟩
  obtain ⟨hhear, hsync⟩ := hplay g d hd
  obtain ⟨hhear', hsync'⟩ := hplay' _ _ hsync
  rw [Driver.hear_append, Driver.run_append, hhear, hhear']
  exact ⟨rfl, hsync'⟩

/-- Only whether a tuplet is open is known of its sounds. -/
theorem Renders.congr (h : Renders ch ch' ts f)
    (hg : ∀ g, g.isSome = ch.tuplet.isSome → ts g = ts' g ∧ f g = f' g) :
    Renders ch ch' ts' f' := by
  intro ho
  obtain ⟨ho', cs, hext, hplay⟩ := h ho
  refine ⟨ho', cs, hext, fun g d hd => ?_⟩
  obtain ⟨hts, hf⟩ := hg g hd.isSome
  rw [← hts, ← hf]
  exact hplay g d hd

/-- Something is changed that neither the stream nor the tuplet depends on. -/
theorem Renders.of_eq (hstream : ch'.onStream = ch.onStream)
    (hoctave : ch'.driverOctave = ch.driverOctave) (htuplet : ch'.tuplet = ch.tuplet)
    (hpending : ch.tuplet = none ∨ ch'.pending = ch.pending) :
    Renders ch ch' (fun _ => []) id := by
  intro ho
  have hext := Extended.of_onStream hstream
  refine ⟨?_, [], hext, fun g d hd => ⟨rfl, hext.length d hd.length, ?_, ?_⟩⟩
  · rcases hpending with hnone | hp
    · exact .of_none (htuplet.trans hnone)
    · exact ho.congr hext.clock htuplet (Or.inl hp)
  · intro k hk
    simp only [octaveAt, entries, htuplet]
    exact hd.octave k (by rw [← hoctave]; exact hk)
  · rw [htuplet]
    exact hd.group

theorem Renders.refl (ch : Channel) : Renders ch ch (fun _ => []) id :=
  .of_eq rfl rfl rfl (Or.inr rfl)

/-! ### Settings -/

/-- A setting goes into the stream or into the open tuplet.  Either way the driver comes to it after
everything that it knows of. -/
private theorem emit_extends (ho : ch.Orderly) {c : Command} (hfits : c.Fits (maxLength ch.scale))
    (hset : c.isSetting = true) :
    (ch.emit c).Orderly ∧ ∃ cs, Extended ch cs (ch.emit c) ∧ ∀ g d, Synced ch g d →
      d.hear cs = [] ∧ (ch.emit c).octaveAt (d.run cs) = octaveAfter (ch.octaveAt d) (.marker c) ∧
        (ch.emit c).tuplet.map (fun es => parts (d.run cs).octave es.toList) = g := by
  cases ht : ch.tuplet with
  | none =>
    -- the driver comes to the command at once
    have hemit : ch.emit c = ch.write c := by simp [emit, ht]
    have hnone : (ch.write c).tuplet = none := ht
    rw [hemit]
    refine ⟨.of_none hnone, [c], (write_appended ch hfits hset).toExtended, fun g d hd => ?_⟩
    refine ⟨(hear_setting hset d).1, ?_, ?_⟩
    · simp only [octaveAt, entries_none ht, entries_none hnone, List.foldl_nil]
      cases c <;> first | rfl | cases hset
    · have hg := hd.group
      rw [ht] at hg
      rw [hnone]
      exact hg
  | some es =>
    -- nothing is written, and the driver will come to the command after the other entries
    have hemit : ch.emit c = { ch with tuplet := some (es.push (.marker c)) } := by
      simp [emit, ht]
    have hentries : (ch.emit c).entries = ch.entries ++ [.marker c] := by
      simp [entries, hemit, ht]
    refine ⟨⟨?_, ?_⟩, [], .of_onStream (by rw [hemit]; rfl), fun g d hd => ⟨rfl, ?_, ?_⟩⟩
    · intro c' hc'
      rw [hentries, List.mem_append, List.mem_singleton] at hc'
      rcases hc' with hc' | hc'
      · rw [hemit]; exact ho.markers c' hc'
      · cases hc'
        rw [hemit]; exact ⟨hfits, hset⟩
    · rw [hemit]
      exact Or.inr (ho.alone.resolve_left (by simp [ht]))
    · simp only [octaveAt, hentries, List.foldl_append, Driver.run_nil, List.foldl_cons,
        List.foldl_nil]
    · have hg := hd.group
      rw [ht, Option.map_some] at hg
      simp [hemit, parts_append, parts, hg]

@[simp] theorem driverOctave_emit (ch : Channel) (c : Command) :
    (ch.emit c).driverOctave = ch.driverOctave := by
  unfold emit
  split <;> rfl

/-- A setting other than the octave. -/
theorem emit_renders (ch : Channel) {c : Command} (hfits : c.Fits (maxLength ch.scale))
    (hset : c.isSetting = true) (hoct : ∀ o, octaveAfter o (.marker c) = o) :
    Renders ch (ch.emit c) (fun _ => []) id := by
  intro ho
  obtain ⟨ho', cs, hext, hplay⟩ := emit_extends ho hfits hset
  refine ⟨ho', cs, hext, fun g d hd => ?_⟩
  obtain ⟨hhear, hat, hgroup⟩ := hplay g d hd
  refine ⟨hhear, hext.length d hd.length, ?_, hgroup⟩
  rw [hat, hoct]
  intro k hk
  rw [driverOctave_emit] at hk
  exact hd.octave k hk

theorem emitVolume_renders (ch : Channel) (v : UInt8) :
    Renders ch (ch.emitVolume v) (fun _ => []) id := by
  have hemit := emit_renders ch (c := .volume v) trivial rfl fun _ => rfl
  have hset : Renders (ch.emit (.volume v)) (ch.emitVolume v) (fun _ => []) id :=
    .of_eq rfl rfl rfl (Or.inr rfl)
  exact hemit.trans hset

theorem emitEffect_renders (ch : Channel) (effect : Effect) (operand : UInt8) :
    Renders ch (ch.emitEffect effect operand) (fun _ => []) id := by
  have hemit := emit_renders ch (c := .effectOn effect operand) trivial rfl fun _ => rfl
  have hset : Renders (ch.emit (.effectOn effect operand)) (ch.emitEffect effect operand)
      (fun _ => []) id := .of_eq rfl rfl rfl (Or.inr rfl)
  exact hemit.trans hset

/-- The octave is known after it was set, or need not be set. -/
theorem driverOctave_emitOctave (ch : Channel) (o : Octave) :
    (ch.emitOctave o).driverOctave = some o := by
  unfold emitOctave
  split
  · next hx =>
    unfold octaveChange at hx
    split at hx
    · next k hk =>
      split at hx
      · next hkt => rw [hk, hkt]
      · repeat' split at hx
        all_goals cases hx
    · cases hx
  · rfl

theorem emitOctave_renders (ch : Channel) (o : Octave) :
    Renders ch (ch.emitOctave o) (fun _ => []) id := by
  unfold emitOctave
  split
  · exact .refl ch
  · intro ho
    obtain ⟨ho', cs, hext, hplay⟩ :=
      emit_extends ho (c := .octave (.ofNat o)) (ofNat_octave_lt o) rfl
    refine ⟨ho'.congr rfl rfl (Or.inl rfl), cs, ?_, fun g d hd => ?_⟩
    · exact ⟨hext.data, hext.clock, hext.finished, hext.fits, hext.length, hext.elapsed⟩
    · -- whatever the octave was, it is the one of the command then
      obtain ⟨hhear, hat, hgroup⟩ := hplay g d hd
      refine ⟨hhear, hext.length d hd.length, ?_, hgroup⟩
      intro k hk
      rw [← Option.some.inj hk]
      exact hat

/-- A sound is added to the open tuplet.  The octave of a note is the one that is expected. -/
private theorem push_renders {s : Sound} {o : Octave}
    (hs : s.isNote = true → ch.driverOctave = some o) (ht : ch.tuplet.isSome = true) :
    Renders ch { ch with tuplet := ch.tuplet.map (·.push (.sound s)) } (fun _ => [])
      (fun g => g.map (· ++ [s.part o])) := by
  intro ho
  obtain ⟨es, ht⟩ := Option.isSome_iff_exists.mp ht
  have hentries : ({ ch with tuplet := ch.tuplet.map (·.push (.sound s)) } : Channel).entries =
      ch.entries ++ [.sound s] := by
    simp [entries, ht]
  refine ⟨⟨?_, ?_⟩, [], .of_onStream rfl, fun g d hd => ⟨rfl, hd.length, ?_, ?_⟩⟩
  · intro c hc
    rw [hentries, List.mem_append, List.mem_singleton] at hc
    exact ho.markers c (hc.resolve_right (by simp))
  · exact Or.inr (ho.alone.resolve_left (by simp [ht]))
  · simp only [octaveAt, hentries, List.foldl_append]
    exact hd.octave
  · have hpart : s.part (ch.octaveAt d).toNat = s.part o := by
      cases s with
      | note p => rw [hd.octave o (hs rfl), toNat_ofNat_octave]
      | rest | wait => rfl
    rw [← hd.group, ← hpart]
    simp [ht, parts_append, parts, octaveAt, entries]

@[simp] theorem tuplet_isSome_emitOctave (ch : Channel) (o : Octave) :
    (ch.emitOctave o).tuplet.isSome = ch.tuplet.isSome := by
  unfold emitOctave
  split
  · rfl
  · simp only [emit]
    split
    · next h => simp [h]
    · rfl

/-- A sound is entered into the open tuplet in the current octave. -/
theorem addEntry_renders (ch : Channel) (s : Sound) (ht : ch.tuplet.isSome = true) :
    Renders ch (ch.addEntry s) (fun _ => []) (fun g => g.map (· ++ [s.part ch.octave])) := by
  unfold addEntry
  cases hs : s.isNote with
  | true =>
    -- a note has a marker before it, if one is needed
    rw [if_pos rfl]
    exact (emitOctave_renders ch ch.octave).trans
      (push_renders (fun _ => driverOctave_emitOctave ch ch.octave) (by simp [ht]))
  | false =>
    rw [if_neg (by simp)]
    exact push_renders (by simp [hs]) ht

/-! ### Tuplets and loops begin -/

theorem openTuplet_renders (ht : ch.tuplet = none) (hp : ch.pending = none) :
    Renders ch { ch with tuplet := some #[] } (fun _ => []) (fun _ => some []) := by
  intro _
  refine ⟨⟨by simp [entries, MarkersFit], Or.inr hp⟩, [], .of_onStream rfl, ?_⟩
  intro g d hd
  refine ⟨rfl, hd.length, ?_, rfl⟩
  have hoct := hd.octave
  rw [octaveAt, entries_none ht] at hoct
  exact hoct

/-- Where a loop begins nothing is expected of the driver. -/
theorem synced_markLoop (ht : ch.tuplet = none) (d : Driver) : Synced ch.markLoop none d where
  length := by simp [KnowsLength, markLoop]
  octave := by simp [KnowsOctave, markLoop]
  group := by simp [markLoop, ht]

theorem markLoop_renders (ht : ch.tuplet = none) :
    Renders ch ch.markLoop (fun _ => []) (fun _ => none) := by
  intro _
  refine ⟨.of_none ht, [], ?_, fun g d _ => ⟨rfl, synced_markLoop ht d⟩⟩
  exact ⟨by simp [markLoop], rfl, rfl, by simp, fun d _ => (synced_markLoop ht d).length,
    by simp [markLoop]⟩

end Channel

/-! ### Sounds that were waiting -/

namespace Flushed

variable {ch ch' : Channel} {ws : List Warning}

theorem offStream (h : Flushed ch ws ch') : ch'.offStream = ch.settled.offStream := by
  obtain ⟨cs, happ, -⟩ := h.plays none
  exact happ.offStream

theorem tuplet (h : Flushed ch ws ch') : ch'.tuplet = ch.tuplet := by
  have hframe : ch'.tuplet = ch.settled.tuplet := congrArg (·.tuplet) h.offStream
  rw [hframe, Channel.settled]
  split <;> rfl

theorem pending (h : Flushed ch ws ch') : ch'.pending = none := by
  have hframe : ch'.pending = ch.settled.pending := congrArg (·.pending) h.offStream
  rw [hframe, Channel.settled]
  split
  · assumption
  · rfl

theorem loopPoint (h : Flushed ch ws ch') : ch'.loopPoint = ch.loopPoint := by
  have hframe : ch'.loopPoint = ch.settled.loopPoint := congrArg (·.loopPoint) h.offStream
  rw [hframe, Channel.settled]
  split <;> rfl

/-- The channel has read the same, and a tie would find nothing to extend. -/
theorem reading (h : Flushed ch ws ch') (g : Option (List Part)) :
    ch'.reading g = { ch.reading g with held := false } := by
  have hframe : ch'.reading g = ch.settled.reading g := congrArg (·.reading g) h.offStream
  rw [hframe, Channel.settled]
  split
  · next hp => simp [Channel.reading, hp]
  · rfl

/-- **The sound that was waiting is rendered as it is owed.** -/
theorem renders (h : Flushed ch ws ch') :
    Channel.Renders ch ch' (fun g => (ch.reading g).owed ch.pending []) id := by
  intro ho
  cases ht : ch.tuplet with
  | some es =>
    -- beside an open tuplet no sound waits
    have hp : ch.pending = none := ho.alone.resolve_left (by simp [ht])
    cases h with
    | idle => exact (Channel.Renders.refl ch).congr (fun g _ => ⟨by rw [hp]; rfl, rfl⟩) ho
    | note hp' => simp [hp] at hp'
    | silence hp' => simp [hp] at hp'
  | none =>
    -- no markers are to come, so the prediction is about the driver as it is
    obtain ⟨cs, happ, hplay⟩ := h.plays none
    have hsettled : ch.settled.onStream = ch.onStream := by
      unfold Channel.settled
      split <;> rfl
    have hext : Channel.Extended ch cs ch' :=
      (Channel.Extended.of_onStream hsettled).trans happ.toExtended
    have ht' : ch'.tuplet = none := h.tuplet.trans ht
    refine ⟨.of_none ht', cs, hext, fun g d hd => ?_⟩
    have hoct : ch.KnowsOctave d.octave := by
      have := hd.octave
      rwa [Channel.octaveAt, Channel.entries_none ht] at this
    obtain ⟨hhear, hoct'⟩ := hplay d hd.length hoct
    refine ⟨hhear.trans (Reading.owed_congr rfl rfl rfl rfl _ _), hext.length d hd.length, ?_, ?_⟩
    · rw [Channel.octaveAt, Channel.entries_none ht']
      exact hoct'
    · rw [ht', ← ht]
      have := hd.group
      rw [ht] at this ⊢
      exact this

end Flushed

/-- **A tuplet is rendered as the score says.** -/
theorem Closed.renders {ch ch' : Channel} {es : Array TupletEntry} {ticks : Nat}
    {ws : List Warning} (ht : ch.tuplet = some es) (h : Closed ch es.toList ticks ws ch') :
    Channel.Renders ch ch'
      (fun g => g.elim [] fun sounds => (ch.reading g).playGroup sounds ticks) (fun _ => none) := by
  intro ho
  have hmark := ho.markers
  rw [Channel.entries_some ht] at hmark
  obtain ⟨hdriver, cs, happ, hplay⟩ := h.plays hmark none
  have hclose : Channel.Extended ch [] (ch.closeTuplet ticks) := .of_onStream rfl
  have hext : Channel.Extended ch cs ch' := hclose.trans happ.toExtended
  have ht' : ch'.tuplet = none := congrArg (·.tuplet) happ.offStream
  refine ⟨.of_none ht', cs, hext, fun g d hd => ?_⟩
  obtain ⟨hhear, hoct⟩ := hplay d hd.length
  have hg := hd.group
  rw [ht, Option.map_some] at hg
  refine ⟨?_, hext.length d hd.length, ?_, by rw [ht']; rfl⟩
  · rw [hhear, ← hg]
    rfl
  · -- the driver is now in the octave that was foreseen
    rw [Channel.octaveAt, Channel.entries_none ht', List.foldl_nil, hoct]
    intro k hk
    rw [hdriver] at hk
    have := hd.octave k hk
    rwa [Channel.octaveAt, Channel.entries_some ht] at this

end Chiptune
