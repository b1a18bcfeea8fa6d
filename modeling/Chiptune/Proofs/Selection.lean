import Chiptune.Output
import Chiptune.Proofs.Decoding
import Chiptune.Proofs.Legible
import Chiptune.Proofs.Registration

/-!
# Which macros a channel selects

A channel selects macros by commands in its stream.  In an open tuplet such a command waits with the
other entries until the tuplet is written.  So the macros that a channel selects are those of the
commands in its bytes and then those of the markers in its tuplet, and every event adds to them
exactly the references that it has counted.

## Main definitions

* `Command.selection?` — the macro that a command selects.
* `Channel.selections` — the macros that a channel selects, in order.
* `Channel.Wrote` — commands were appended that select some macros.
* `Channel.Gains` — a channel selects some more macros.
* `Session.Balances` — as many references were counted as macros were selected.

## Main results

* `Accepted.gains` — an accepted event adds its references to the selections.
* `Event.apply_balances`, `Encoding.finish_balances` — references are counted as macros are
  selected.
-/

namespace Chiptune

open Command

/-- The macro that a command selects, by its effect and its key. -/
def Command.selection? : Command → Option (Effect × Nat)
  | effectOn e operand => some (e, (operand &&& 0x7F).toNat)
  | _ => none

theorem Command.selection?_of_isTerminator {c : Command} (h : c.isTerminator = true) :
    c.selection? = none := by
  cases c with
  | jump _ | stop => rfl
  | _ => cases h

/-- The macro that a marker of a tuplet selects. -/
def TupletEntry.selection? : TupletEntry → Option (Effect × Nat)
  | marker c => c.selection?
  | sound _ => none

namespace Channel

variable {ch ch' ch'' : Channel} {sel sel' : List (Effect × Nat)}

/-- The macros that the markers of the open tuplet select. -/
def marked (ch : Channel) : List (Effect × Nat) := ch.entries.filterMap TupletEntry.selection?

/-- The commands in the bytes of the channel. -/
def commands (ch : Channel) : List Command :=
  match decodeCommands ch.data.toList with
  | .ok cs => cs
  | .error _ => []

/-- The macros that the channel selects, in order. -/
def selections (ch : Channel) : List (Effect × Nat) :=
  ch.commands.filterMap Command.selection? ++ ch.marked

theorem marked_of_none (h : ch.tuplet = none) : ch.marked = [] := by
  rw [marked, entries_none h]
  rfl

/-! ### Commands that were appended -/

/-- Commands were appended that select the macros `sel`, and the clock is the same. -/
def Wrote (ch : Channel) (sel : List (Effect × Nat)) (ch' : Channel) : Prop :=
  ∃ cs, ch'.data.toList = ch.data.toList ++ encodeAll ch.scale cs ∧ ch'.clock = ch.clock ∧
    (∀ c ∈ cs, c.Fits (maxLength ch.scale) ∧ c.isTerminator = false) ∧
    cs.filterMap Command.selection? = sel

namespace Wrote

theorem of_eq (hdata : ch'.data = ch.data) (hclock : ch'.clock = ch.clock) : Wrote ch [] ch' :=
  ⟨[], by simp [hdata], hclock, by simp, rfl⟩

theorem scale (h : Wrote ch sel ch') : ch'.scale = ch.scale := by
  obtain ⟨cs, -, hclock, -⟩ := h
  exact congrArg FrameClock.scale hclock

theorem trans (h : Wrote ch sel ch') (h' : Wrote ch' sel' ch'') : Wrote ch (sel ++ sel') ch'' := by
  have hscale := h.scale
  obtain ⟨cs, hdata, hclock, hfits, hsel⟩ := h
  obtain ⟨cs', hdata', hclock', hfits', hsel'⟩ := h'
  rw [hscale] at hdata' hfits'
  refine ⟨cs ++ cs', ?_, hclock'.trans hclock, ?_, ?_⟩
  · rw [hdata', hdata, encodeAll_append, List.append_assoc]
  · exact List.forall_mem_append.mpr ⟨hfits, hfits'⟩
  · rw [List.filterMap_append, hsel, hsel']

/-- Nothing else of the channel counts. -/
theorem congr (h : Wrote ch sel ch') (hdata : ch''.data = ch'.data)
    (hclock : ch''.clock = ch'.clock) : Wrote ch sel ch'' := by
  have htrans := h.trans (of_eq hdata hclock)
  rwa [List.append_nil] at htrans

end Wrote

theorem write_wrote (ch : Channel) {c : Command}
    (h : c.Fits (maxLength ch.scale) ∧ c.isTerminator = false) :
    Wrote ch c.selection?.toList (ch.write c) := by
  refine ⟨[c], by simp, rfl, by simpa using h, ?_⟩
  rw [List.filterMap_cons]
  cases c.selection? <;> rfl

theorem writeSound_wrote (ch : Channel) (s : Sound) {n : Int} (h0 : 0 ≤ n)
    (hn : n ≤ maxLength ch.scale) : Wrote ch [] (ch.writeSound s n) := by
  unfold writeSound
  split
  · have hwrite := write_wrote ch (fits_shortCommand s (maxLength ch.scale))
    rw [show s.shortCommand.selection? = none by cases s <;> rfl] at hwrite
    exact hwrite.congr rfl rfl
  · have hwrite := write_wrote ch (fits_command s h0 hn)
    rw [show (s.command n).selection? = none by cases s <;> rfl] at hwrite
    exact hwrite.congr rfl rfl

theorem writeSilence_wrote (s : Sound) (ch : Channel) (n : Int) (h0 : 0 ≤ n) :
    Wrote ch [] (ch.writeSilence s n) := by
  fun_induction writeSilence ch s n with
  | case1 ch n hpos part ih =>
    have hmax : 0 < maxLength ch.scale := maxLength_pos ch.clock.scale_pos
    exact (writeSound_wrote ch s (n := part) (by omega) (by omega)).trans (ih (by omega))
  | case2 ch n hpos => exact .of_eq rfl rfl

theorem write_octave_wrote (ch : Channel) (o : Octave) :
    Wrote ch [] (ch.write (.octave (.ofNat o))) :=
  write_wrote ch ⟨ofNat_octave_lt o, rfl⟩

theorem writeNote_wrote (ch : Channel) (p : Fin 12) (o : Octave) {n : Int} (h0 : 0 ≤ n)
    (hn : n ≤ maxLength ch.scale) : Wrote ch [] (ch.writeNote p o n) := by
  have hpitch := ofNat_pitch_lt p
  unfold writeNote
  split
  · have hshort (ch' : Channel) : Wrote ch' [] (ch'.write (.noteShort (.ofNat p))) :=
      write_wrote ch' ⟨hpitch, rfl⟩
    have hup : Wrote ch [] (ch.write (.noteUp (.ofNat p))) := write_wrote ch ⟨hpitch, rfl⟩
    have hdown : Wrote ch [] (ch.write (.noteDown (.ofNat p))) := write_wrote ch ⟨hpitch, rfl⟩
    cases ch.octaveChange o with
    | none => exact (hshort ch).congr rfl rfl
    | up => exact hup.congr rfl rfl
    | down => exact hdown.congr rfl rfl
    | absolute o' => exact ((write_octave_wrote ch o').trans (hshort _)).congr rfl rfl
  · cases ch.octaveChange o with
    | none => exact (writeSound_wrote ch _ h0 hn).congr rfl rfl
    | up | down | absolute =>
      have hboth := (write_octave_wrote ch o).trans (writeSound_wrote _ (.note p) h0 hn)
      exact hboth.congr rfl rfl

theorem writeWithCutoff_wrote {cut : Int} (hcut : 0 ≤ cut) {body : Channel → Channel}
    (hbody : ∀ ch₁ : Channel, ch₁.scale = ch.scale → Wrote ch₁ sel (body ch₁)) :
    Wrote ch sel (ch.writeWithCutoff cut body) := by
  have hsilence := fun c : Channel => writeSilence_wrote .rest c cut hcut
  unfold writeWithCutoff
  split
  · exact (hsilence ch).trans (hbody _ (hsilence ch).scale)
  · have htrans := (hbody ch rfl).trans (hsilence (body ch))
    rwa [List.append_nil] at htrans

theorem writeEntry_wrote (ch : Channel) {e : TupletEntry} {n : Int} (h0 : 0 ≤ n)
    (hn : n ≤ maxLength ch.scale) (hmark : MarkersFit (maxLength ch.scale) [e]) :
    Wrote ch e.selection?.toList (ch.writeEntry (e, n)) := by
  cases e with
  | marker c =>
    obtain ⟨hfits, hset⟩ := hmark c List.mem_cons_self
    exact write_wrote ch ⟨hfits, isTerminator_of_isSetting hset⟩
  | sound s =>
    cases s with
    | note p => exact writeSound_wrote ch _ h0 hn
    | rest | wait => exact writeSilence_wrote _ ch n h0

/-- Entries of a tuplet are appended one after the other, and markers as they are. -/
theorem foldl_writeEntry_wrote : ∀ (xs : List (TupletEntry × Int)) (ch : Channel),
    (∀ x ∈ xs, 0 ≤ x.2 ∧ x.2 ≤ maxLength ch.scale) →
    MarkersFit (maxLength ch.scale) (xs.map (·.1)) →
    Wrote ch ((xs.map (·.1)).filterMap TupletEntry.selection?) (xs.foldl writeEntry ch) := by
  intro xs
  induction xs with
  | nil => intro ch _ _; exact .of_eq rfl rfl
  | cons x xs ih =>
    intro ch hbound hmark
    obtain ⟨h0, hn⟩ := hbound x List.mem_cons_self
    have hfirst := writeEntry_wrote ch (e := x.1) h0 hn (hmark.mono (by simp))
    have hrest := ih (ch.writeEntry x)
      (fun y hy => by rw [hfirst.scale]; exact hbound y (List.mem_cons_of_mem _ hy))
      (by rw [hfirst.scale]; exact hmark.mono fun e he => List.mem_cons_of_mem _ he)
    have htrans := hfirst.trans hrest
    rw [List.foldl_cons, List.map_cons, List.filterMap_cons]
    cases hsel : x.1.selection? <;> simpa [hsel] using htrans

theorem writeEntries_wrote (ch : Channel) {entries : List TupletEntry} {active : Int}
    (h0 : 0 ≤ active) (hmax : active ≤ maxLength ch.scale)
    (hmark : MarkersFit (maxLength ch.scale) entries) :
    Wrote ch (entries.filterMap TupletEntry.selection?) (ch.writeEntries entries active) := by
  have hfst : (entries.zip (distribute active (entries.map (·.isTimed)))).map (·.1) = entries :=
    List.map_fst_zip (by rw [length_distribute h0, List.length_map])
  have hwrote := foldl_writeEntry_wrote
    (entries.zip (distribute active (entries.map (·.isTimed)))) ch ?_ (by rw [hfst]; exact hmark)
  · rw [hfst] at hwrote
    exact hwrote
  · rintro ⟨e, n⟩ hx
    obtain ⟨hlow, hhigh⟩ := mem_distribute h0 (List.of_mem_zip hx).2
    exact ⟨hlow, Int.le_trans hhigh hmax⟩

end Channel

/-- The sound that was waiting selects nothing. -/
theorem Flushed.wrote {ch ch' : Channel} {ws : List Warning} (h : Flushed ch ws ch') :
    Channel.Wrote ch [] ch' := by
  cases h with
  | idle hp => exact .of_eq rfl rfl
  | @note p pitch length hp hs hlen =>
    obtain ⟨perTick, -, h0, hmax, hcut, -⟩ := splitNote_parts hlen ch.name
    have hdequeue : Channel.Wrote ch [] (ch.dequeue p) := .of_eq rfl rfl
    refine hdequeue.trans (Channel.writeWithCutoff_wrote hcut fun ch₁ hscale => ?_)
    exact Channel.writeNote_wrote ch₁ pitch p.octave h0 (by rw [hscale]; exact hmax)
  | @silence p perTick hp hs hper =>
    have h0 : 0 ≤ perTick * p.ticks := Int.mul_nonneg (unitsPerTick?_nonneg hper) (by omega)
    have hdequeue : Channel.Wrote ch [] (ch.dequeue p) := .of_eq rfl rfl
    exact hdequeue.trans (Channel.writeSilence_wrote _ _ _ h0)

/-- A tuplet selects what its markers select. -/
theorem Closed.wrote {ch ch' : Channel} {entries : List TupletEntry} {ticks : Nat}
    {ws : List Warning} (h : Closed ch entries ticks ws ch')
    (hmark : Channel.MarkersFit (maxLength ch.scale) entries) :
    Channel.Wrote ch (entries.filterMap TupletEntry.selection?) ch' := by
  have hclose : Channel.Wrote ch [] (ch.closeTuplet ticks) := .of_eq rfl rfl
  cases h with
  | @timed length ht hlen =>
    obtain ⟨perTick, -, h0, hmax, hcut, -⟩ := splitNote_parts hlen ch.name
    refine hclose.trans (Channel.writeWithCutoff_wrote hcut fun ch₁ hscale => ?_)
    replace hscale : ch₁.scale = ch.scale := hscale
    exact Channel.writeEntries_wrote ch₁ h0 (by rw [hscale]; exact hmax)
      (by rw [hscale]; exact hmark)
  | @silent perTick ht hper =>
    have h0 : 0 ≤ perTick * ticks := Int.mul_nonneg (unitsPerTick?_nonneg hper) (by omega)
    have hmax : (0 : Int) ≤ maxLength ch.scale := Int.le_of_lt (maxLength_pos ch.clock.scale_pos)
    have hmarkers := Channel.writeEntries_wrote (ch.closeTuplet ticks) (Int.le_refl 0) hmax hmark
    have htrans := (hclose.trans hmarkers).trans (Channel.writeSilence_wrote .rest _ _ h0)
    rwa [List.nil_append, List.append_nil] at htrans

namespace Channel

variable {ch ch' ch'' : Channel} {sel sel' : List (Effect × Nat)}

/-! ### Selections -/

/-- The channel selects the macros `sel` in addition: what was appended to the stream and what is
waiting now is what was waiting before and then these. -/
def Gains (ch : Channel) (sel : List (Effect × Nat)) (ch' : Channel) : Prop :=
  ∃ written, Wrote ch written ch' ∧ written ++ ch'.marked = ch.marked ++ sel

theorem Gains.trans (h : Gains ch sel ch') (h' : Gains ch' sel' ch'') :
    Gains ch (sel ++ sel') ch'' := by
  obtain ⟨written, hwrote, heq⟩ := h
  obtain ⟨written', hwrote', heq'⟩ := h'
  refine ⟨written ++ written', hwrote.trans hwrote', ?_⟩
  rw [List.append_assoc, heq', ← List.append_assoc, heq, List.append_assoc]

/-- Nothing is selected, and the tuplet is as it was. -/
theorem Wrote.gains (h : Wrote ch [] ch') (htuplet : ch'.tuplet = ch.tuplet) : Gains ch [] ch' :=
  ⟨[], h, by simp [marked, entries, htuplet]⟩

theorem Gains.of_eq (hdata : ch'.data = ch.data) (hclock : ch'.clock = ch.clock)
    (htuplet : ch'.tuplet = ch.tuplet) : Gains ch [] ch' :=
  (Wrote.of_eq hdata hclock).gains htuplet

/-- Nothing but the bytes, the clock and the tuplet counts. -/
theorem Gains.congr (h : Gains ch sel ch') (hdata : ch''.data = ch'.data)
    (hclock : ch''.clock = ch'.clock) (htuplet : ch''.tuplet = ch'.tuplet) : Gains ch sel ch'' := by
  have htrans := h.trans (.of_eq hdata hclock htuplet)
  rwa [List.append_nil] at htrans

/-- A command goes into the stream or into the open tuplet. -/
theorem emit_gains (ch : Channel) {c : Command}
    (h : c.Fits (maxLength ch.scale) ∧ c.isTerminator = false) :
    Gains ch c.selection?.toList (ch.emit c) := by
  unfold emit
  split
  · next es ht =>
    refine ⟨[], .of_eq rfl rfl, ?_⟩
    simp only [marked, entries, ht, Option.getD_some, Array.toList_push, List.nil_append,
      List.filterMap_append, List.filterMap_cons, List.filterMap_nil, TupletEntry.selection?]
    cases c.selection? <;> rfl
  · next ht =>
    have hwrite : (ch.write c).tuplet = none := ht
    exact ⟨_, write_wrote ch h, by rw [marked_of_none ht, marked_of_none hwrite]; simp⟩

theorem emitOctave_gains (ch : Channel) (o : Octave) : Gains ch [] (ch.emitOctave o) := by
  unfold emitOctave
  split
  · exact .of_eq rfl rfl rfl
  · have hemit := emit_gains ch (c := .octave (.ofNat o)) ⟨ofNat_octave_lt o, rfl⟩
    exact hemit.congr rfl rfl rfl

theorem addEntry_gains (ch : Channel) (s : Sound) : Gains ch [] (ch.addEntry s) := by
  have hpush (ch : Channel) :
      Gains ch [] { ch with tuplet := ch.tuplet.map (·.push (.sound s)) } := by
    refine ⟨[], .of_eq rfl rfl, ?_⟩
    cases ht : ch.tuplet <;> simp [marked, entries, ht, TupletEntry.selection?]
  unfold addEntry
  split
  · exact (emitOctave_gains ch ch.octave).trans (hpush _)
  · exact hpush ch

/-- The commands of a channel that has not ended are those that it holds. -/
theorem Holds.commands_eq {cs : List Command} (h : Holds ch cs) : ch.commands = cs := by
  have hread := @Reader.readAll_unended ch.clock cs h.fits ch.data.toList.length
  rw [commands, decodeCommands, Reader.ofBytes]
  rw [show encodeAll ch.clock.scale cs = ch.data.toList from h.data.symm] at hread
  rw [hread]

theorem Gains.selections_eq (h : Gains ch sel ch') {cs : List Command} (hcs : Holds ch cs) :
    (∃ cs', Holds ch' cs') ∧ ch'.selections = ch.selections ++ sel := by
  obtain ⟨written, hwrote, heq⟩ := h
  have hscale := hwrote.scale
  obtain ⟨cs', hdata, -, hfits, rfl⟩ := hwrote
  have hcs' : Holds ch' (cs ++ cs') := by
    refine ⟨?_, ?_⟩
    · rw [hdata, hcs.data, hscale, encodeAll_append]
    · rw [hscale]
      exact List.forall_mem_append.mpr ⟨hcs.fits, hfits⟩
  refine ⟨⟨_, hcs'⟩, ?_⟩
  rw [selections, selections, hcs.commands_eq, hcs'.commands_eq, List.filterMap_append,
    List.append_assoc, heq, List.append_assoc]

end Channel

/-! ### Events -/

/-- The operand of a macro selects it, whether the macro steps with each note or with each frame. -/
theorem Encoding.selection?_macroOperand (f : Effect) {key : Nat} (h : key ≤ Registry.maxKey)
    (everyNote : Bool) :
    (Command.effectOn f (macroOperand key everyNote)).selection? = some (f, key) := by
  have hkey : ∀ k : Fin 128, ∀ b : Bool, (macroOperand k b &&& 0x7F).toNat = k := by decide
  have hlt : key < 128 := Nat.lt_succ_of_le h
  rw [Command.selection?, hkey ⟨key, hlt⟩ everyNote]

/-- **An accepted event adds its references to the selections**, and nothing else. -/
theorem Accepted.gains {ch ch' : Channel} {e : Event} {ws : List Warning} (ho : ch.Orderly)
    (h : Accepted ch e ws ch') (hkeys : ∀ r ∈ e.references ch.voice, r.2 ≤ Registry.maxKey) :
    Channel.Gains ch (e.references ch.voice) ch' := by
  have hflush {ws : List Warning} {ch₁ : Channel} (hf : Flushed ch ws ch₁) :
      Channel.Gains ch [] ch₁ := hf.wrote.gains hf.tuplet
  cases h with
  | @entry e s ticks es he ht =>
    have hnotice : Channel.Gains ch [] (ch.notice s) := .of_eq rfl rfl rfl
    have hrefs : e.references ch.voice = [] := by cases e <;> first | rfl | cases he
    rw [hrefs]
    exact hnotice.trans (Channel.addEntry_gains _ s)
  | @queue e s ticks ws ch₁ he ht hf =>
    have hnotice : Channel.Gains ch [] (ch.notice s) := .of_eq rfl rfl rfl
    have hrefs : e.references ch.voice = [] := by cases e <;> first | rfl | cases he
    rw [hrefs]
    exact (hnotice.trans (hf.wrote.gains hf.tuplet)).congr rfl rfl rfl
  | @octave e n o he ho =>
    have hrefs : e.references ch.voice = [] := by cases e <;> first | rfl | cases he
    rw [hrefs]
    exact .of_eq rfl rfl rfl
  | extend | tieAlone | tieIgnored | tempoIgnored | cutoffIgnored => exact .of_eq rfl rfl rfl
  | tempo _ _ hf | cutoff _ hf | loopPoint _ hf => exact (hflush hf).congr rfl rfl rfl
  | @volume n ws ch₁ hn hf =>
    have hemit := Channel.emit_gains ch₁ (c := .volume (.ofNat n.toNat)) ⟨trivial, rfl⟩
    exact (hflush hf).trans (hemit.congr rfl rfl rfl)
  | @tupletStart ws ch₁ ht hf =>
    -- no marker is waiting, neither before nor after
    refine ⟨[], hf.wrote.congr rfl rfl, ?_⟩
    rw [Channel.marked_of_none ht]
    rfl
  | @tupletEnd ticks es ws ch₁ ht hc =>
    have hmark := ho.markers
    rw [Channel.entries_some ht] at hmark
    have htuplet : ch'.tuplet = none := congrArg (·.tuplet) hc.offStream
    refine ⟨_, hc.wrote hmark, ?_⟩
    rw [Channel.marked_of_none htuplet, Channel.marked, Channel.entries_some ht]
    rfl
  | blockEnd hf => exact (hflush hf).trans (Channel.emitOctave_gains _ _)
  | @effect f key everyNote ws ch₁ hs hf =>
    have hrefs : (Event.effect f key everyNote).references ch.voice = [(f, key)] := by
      simp [Event.references, hs]
    rw [hrefs] at hkeys ⊢
    have hemit := Channel.emit_gains ch₁ (c := .effectOn f (Encoding.macroOperand key everyNote))
      ⟨trivial, rfl⟩
    rw [Encoding.selection?_macroOperand f (hkeys _ List.mem_cons_self)] at hemit
    exact (hflush hf).trans (hemit.congr rfl rfl rfl)
  | @unsupported f key everyNote hs =>
    have hrefs : (Event.effect f key everyNote).references ch.voice = [] := by
      simp [Event.references, hs]
    rw [hrefs]
    exact .of_eq rfl rfl rfl
  | @effectOff f ws ch₁ hf =>
    exact (hflush hf).trans (Channel.emit_gains ch₁ (c := .effectOff f) ⟨trivial, rfl⟩)

/-! ### References -/

theorem Appeal.count_refer (qs : List Appeal) (e : Effect) (key : Nat) :
    qs.count (.refer e key) = (qs.filterMap Appeal.reference?).count (e, key) := by
  induction qs with
  | nil => rfl
  | cons q qs ih =>
    rw [List.count_cons, List.filterMap_cons, ih]
    cases q with
    | warn w => simp [reference?]
    | refer e' key' => simp [reference?, List.count_cons]

namespace Session

theorem options_grantAll (s : Session) (qs : List Appeal) :
    (s.grantAll qs).options = s.options := by
  induction qs generalizing s with
  | nil => rfl
  | cons q qs ih =>
    rw [grantAll_cons, ih]
    cases q <;> rfl

/-- On the way from `s` to `s'` as many references were counted as macros were selected on the way
from `sel` to `sel'`, and everything else about the macros is in order. -/
structure Balances (s : Session) (sel : List (Effect × Nat)) (s' : Session)
    (sel' : List (Effect × Nat)) : Prop where
  /-- The options are the same. -/
  options : s'.options = s.options
  /-- The registries stay in order. -/
  tidy : s.Tidy → s'.Tidy
  /-- The references are those to the macros that were selected. -/
  refCount : ∀ e key,
    s'.refCount e key + sel.count (e, key) = s.refCount e key + sel'.count (e, key)

namespace Balances

variable {s s' s'' : Session} {sel sel' sel'' other other' : List (Effect × Nat)}

theorem refl (s : Session) (sel : List (Effect × Nat)) : s.Balances sel s sel :=
  ⟨rfl, id, fun _ _ => rfl⟩

theorem trans (h : s.Balances sel s' sel') (h' : s'.Balances sel' s'' sel'') :
    s.Balances sel s'' sel'' where
  options := h'.options.trans h.options
  tidy := fun htidy => h'.tidy (h.tidy htidy)
  refCount := by
    intro e key
    have h₁ := h.refCount e key
    have h₂ := h'.refCount e key
    omega

/-- What is selected on one channel and then on another is selected on both. -/
theorem append (h : s.Balances sel s' sel') (h' : s'.Balances other s'' other') :
    s.Balances (sel ++ other) s'' (sel' ++ other') where
  options := h'.options.trans h.options
  tidy := fun htidy => h'.tidy (h.tidy htidy)
  refCount := by
    intro e key
    have h₁ := h.refCount e key
    have h₂ := h'.refCount e key
    rw [List.count_append, List.count_append]
    omega

/-- The order of the channels does not matter. -/
theorem swap (h : s.Balances (sel ++ other) s' (sel' ++ other')) :
    s.Balances (other ++ sel) s' (other' ++ sel') where
  options := h.options
  tidy := h.tidy
  refCount := by
    intro e key
    have hcount := h.refCount e key
    rw [List.count_append, List.count_append] at hcount ⊢
    omega

end Balances

end Session

/-- An operation that succeeds has counted all its references, and each of them is to a macro that
is there. -/
theorem Encoding.ConsultsAt.balances {α : Type} {act : Encoding α} {ch : Channel} {s : Session}
    {refs : List (Effect × Nat)} {a : α} {d : Desk} (h : act.ConsultsAt ch refs)
    (hok : act ⟨ch, s⟩ = .ok a d) :
    s.Balances [] d.session refs ∧ ∀ r ∈ refs, s.missing? r.1 r.2 = none := by
  obtain ⟨t, rfl, hrun⟩ := h
  rw [hrun] at hok
  obtain ⟨hsession, hgranted⟩ := Dialogue.run_eq_ok hok
  have hrefs : ∀ r ∈ t.appeals.filterMap Appeal.reference?, s.missing? r.1 r.2 = none := by
    intro r hr
    obtain ⟨q, hq, hqr⟩ := List.mem_filterMap.mp hr
    cases q with
    | warn w => cases hqr
    | refer e key =>
      cases hqr
      exact hgranted e key hq
  rw [hsession]
  refine ⟨⟨s.options_grantAll _, fun htidy => htidy.grantAll _, fun e key => ?_⟩, hrefs⟩
  rw [s.refCount_grantAll, Appeal.count_refer]
  split
  · rfl
  · next hmissing =>
    -- a macro that is not there has no references
    have hnot : (e, key) ∉ t.appeals.filterMap Appeal.reference? := fun hmem =>
      hmissing (hrefs _ hmem)
    rw [List.count_eq_zero_of_not_mem hnot]
    rfl

/-- A channel that has not ended, with its tuplet in order. -/
structure Channel.Open (ch : Channel) : Prop where
  /-- The bytes are whole commands. -/
  holds : ∃ cs, ch.Holds cs
  /-- The tuplet is in order. -/
  orderly : ch.Orderly
  /-- The channel has not ended. -/
  unfinished : ch.finished = false

theorem Channel.open_new (name : String) (voice : Voice) (clock : FrameClock) (tempo : Nat) :
    (new name voice clock tempo).Open :=
  ⟨⟨[], (legible_new name voice clock tempo).toHolds⟩, .of_none rfl, rfl⟩

theorem Channel.selections_new (name : String) (voice : Voice) (clock : FrameClock) (tempo : Nat) :
    (new name voice clock tempo).selections = [] := by
  have hmarked : (new name voice clock tempo).marked = [] := marked_of_none rfl
  rw [selections, (legible_new name voice clock tempo).toHolds.commands_eq, hmarked]
  rfl

/-- **An event counts a reference for each macro that it selects.** -/
theorem Event.apply_balances {e : Event} {d d' : Desk} (h : e.apply d = .ok () d')
    (hopen : d.channel.Open) (htidy : d.session.Tidy) :
    d'.channel.Open ∧
      d.session.Balances d.channel.selections d'.session d'.channel.selections := by
  obtain ⟨ws, hacc, -⟩ := Event.accepted_of_ok h
  obtain ⟨hbalances, hdefined⟩ := (e.apply_consults d.channel).balances h
  obtain ⟨ts, hrender, -⟩ := hacc.follows hopen.orderly
  obtain ⟨ho', cs', hext, -⟩ := hrender hopen.orderly
  have hgains := hacc.gains hopen.orderly fun r hr => htidy.key_le (hdefined r hr)
  obtain ⟨cs, hcs⟩ := hopen.holds
  obtain ⟨hholds, hselections⟩ := hgains.selections_eq hcs
  refine ⟨⟨hholds, ho', hext.finished.trans hopen.unfinished⟩, ?_⟩
  rw [hselections]
  have happend := (Session.Balances.refl d.session d.channel.selections).append hbalances
  rwa [List.append_nil] at happend

theorem applyEvents_balances : ∀ {events : List Event} {d d' : Desk},
    events.forM Event.apply d = .ok () d' → d.channel.Open → d.session.Tidy →
      d'.channel.Open ∧
        d.session.Balances d.channel.selections d'.session d'.channel.selections := by
  intro events
  induction events with
  | nil =>
    intro d d' h hopen htidy
    cases h
    exact ⟨hopen, .refl _ _⟩
  | cons e events ih =>
    intro d d' h hopen htidy
    obtain ⟨d₁, happly, hrest⟩ := forM_cons_eq_ok h
    obtain ⟨hopen₁, hbalances⟩ := Event.apply_balances happly hopen htidy
    obtain ⟨hopen', hbalances'⟩ := ih hrest hopen₁ (hbalances.tidy htidy)
    exact ⟨hopen', hbalances.trans hbalances'⟩

/-- The end of a channel selects nothing, and no marker is waiting after it. -/
theorem Encoding.finish_balances {d d' : Desk} (h : finish d = .ok () d')
    (hopen : d.channel.Open) :
    d'.channel.tuplet = none ∧
      d.session.Balances d.channel.selections d'.session d'.channel.selections := by
  obtain ⟨ws, ch, last, hf, -, ht, hlast, rfl⟩ := finish_cases hopen.unfinished h
  obtain ⟨cs, hcs⟩ := hopen.holds
  obtain ⟨⟨cs', hcs'⟩, hselections⟩ := (hf.wrote.gains hf.tuplet).selections_eq hcs
  obtain ⟨hterm, hfits, -⟩ := Channel.terminator_spec hlast
  have hread := hcs'.readAll_write hfits hterm
  have hcommands : ({ ch.write last with finished := true } : Channel).commands =
      cs' ++ [last] := by
    simp only [Channel.commands, decodeCommands]
    rw [hread]
  have hend : ({ ch.write last with finished := true } : Channel).selections =
      d.channel.selections := by
    rw [List.append_nil] at hselections
    rw [← hselections, Channel.selections, Channel.selections, hcommands, hcs'.commands_eq,
      List.filterMap_append, List.filterMap_cons, Command.selection?_of_isTerminator hterm]
    simp [Channel.marked, Channel.entries, Channel.write]
  refine ⟨ht, ?_⟩
  rw [hend]
  exact ⟨rfl, id, fun _ _ => rfl⟩

end Chiptune
