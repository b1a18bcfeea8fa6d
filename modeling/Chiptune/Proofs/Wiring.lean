import Chiptune.Proofs.Drives
import Mathlib.Data.List.Induction

/-!
# Which macros are at work

A driver puts macros to work on a channel and takes them away, and between these it begins notes and
goes on by frames.  Whatever it does, the macros of the channel drive different values, because a
macro takes the place of the one that drove its value.  So they do not get into each other's way:
the order in which they were put to work cannot be told from the values of the channel.

## Main definitions

* `Wiring`, `PlayChannel.wire` — a macro is put to work, or taken away.
* `Call`, `PlayChannel.call` — all that a driver does with a channel.
* `PlayChannel.states` — the values of a channel at every step.
* `PlayChannel.Separate` — the macros of a channel drive different values.
* `PlayChannel.Alike` — the same values, and the same macros in any order.

## Main results

* `PlayChannel.separate_after` — the macros of a channel always drive different values.
* `PlayChannel.macros_wireAll` — the last macro that was put to work on a value is at work on it.
* `PlayChannel.Alike.call`, `PlayChannel.Alike.states` — channels that are alike stay alike.
* `macros_independent` — macros are independent of each other.
-/

namespace Chiptune

/-- What is done about the macros of a channel. -/
inductive Wiring where
  /-- A macro is put to work. -/
  | attach (m : LiveMacro)
  /-- The macro that drives a value is taken away. -/
  | detach (d : Drive)
  deriving Repr, DecidableEq

namespace Wiring

/-- What drives the value that it is about. -/
def drive : Wiring → Drive
  | attach m => m.drive
  | detach d => d

/-- The macro that drives the value afterwards. -/
def macro? : Wiring → Option LiveMacro
  | attach m => some m
  | detach _ => none

/-- The last of several that is about a value. -/
def last? (d : Drive) (ws : List Wiring) : Option Wiring :=
  ws.reverse.find? fun w => w.drive.sameValue d

end Wiring

/-- What a driver does with a channel. -/
inductive Call where
  /-- Something is done about its macros. -/
  | wire (w : Wiring)
  /-- A note begins. -/
  | startNote (note octave : Int)
  /-- It goes on by a frame. -/
  | updateFrame
  /-- Its values are set from outside, as a volume command does. -/
  | set (s : PlayState)
  deriving Repr, DecidableEq

namespace PlayChannel

/-- Does something about the macros of a channel. -/
def wire (c : PlayChannel) : Wiring → PlayChannel
  | .attach m => c.attach m
  | .detach d => c.detach d

/-- Does several things about the macros of a channel. -/
def wireAll (c : PlayChannel) (ws : List Wiring) : PlayChannel := ws.foldl wire c

/-- Puts several macros to work. -/
def attachAll (c : PlayChannel) (ms : List LiveMacro) : PlayChannel := c.wireAll (ms.map .attach)

/-- Does what a driver does with a channel. -/
def call (c : PlayChannel) : Call → PlayChannel
  | .wire w => c.wire w
  | .startNote note octave => c.startNote note octave
  | .updateFrame => c.updateFrame
  | .set s => { c with state := s }

/-- A channel after several calls. -/
def after (c : PlayChannel) (calls : List Call) : PlayChannel := calls.foldl call c

/-- The values of a channel before several calls and after each of them. -/
def states (c : PlayChannel) : List Call → List PlayState
  | [] => [c.state]
  | x :: xs => c.state :: (c.call x).states xs

/-- The macros of a channel drive different values. -/
def Separate (c : PlayChannel) : Prop := c.macros.Pairwise LiveMacro.Apart

/-! ### Different values -/

variable {c c' : PlayChannel}

theorem Separate.detach (h : c.Separate) (d : Drive) : (c.detach d).Separate :=
  List.Pairwise.filter _ h

theorem Separate.attach (h : c.Separate) (m : LiveMacro) : (c.attach m).Separate := by
  refine List.pairwise_append.mpr ⟨h.detach m.drive, List.pairwise_singleton _ m, ?_⟩
  intro m₁ hm₁ m₂ hm₂
  obtain rfl := List.mem_singleton.mp hm₂
  exact (Bool.not_eq_true' _).mp (List.mem_filter.mp hm₁).2

theorem Separate.wire (h : c.Separate) (w : Wiring) : (c.wire w).Separate := by
  cases w with
  | attach m => exact h.attach m
  | detach d => exact h.detach d

theorem Separate.wireAll (h : c.Separate) (ws : List Wiring) : (c.wireAll ws).Separate := by
  induction ws generalizing c with
  | nil => exact h
  | cons w ws ih => exact ih (h.wire w)

theorem Separate.stepAll (h : c.Separate) (trigger : Pace) : (c.stepAll trigger).Separate := by
  rw [stepAll_eq]
  refine List.pairwise_map.mpr (h.imp fun {m m'} happart => ?_)
  unfold LiveMacro.Apart
  rwa [LiveMacro.drive_turn, LiveMacro.drive_turn]

theorem Separate.set (h : c.Separate) (s : PlayState) :
    ({ c with state := s } : PlayChannel).Separate := h

/-- **A call keeps the macros apart.** -/
theorem Separate.call (h : c.Separate) (x : Call) : (c.call x).Separate := by
  cases x with
  | wire w => exact h.wire w
  | startNote note octave => exact (h.set _).stepAll .note
  | updateFrame => exact (h.set _).stepAll .frame
  | set s => exact h.set s

/-- **The macros of a channel always drive different values.** -/
theorem separate_after (calls : List Call) : (initial.after calls).Separate := by
  have hrun : ∀ (calls : List Call) (c : PlayChannel), c.Separate → (c.after calls).Separate := by
    intro calls
    induction calls with
    | nil => exact fun _ h => h
    | cons x xs ih => exact fun c h => ih _ (h.call x)
  exact hrun calls initial List.Pairwise.nil

/-! ### The last macro -/

theorem macros_wire (c : PlayChannel) (w : Wiring) (d : Drive) :
    (c.wire w).macros.filter (·.drive.sameValue d) =
      if w.drive.sameValue d then w.macro?.toList else c.macros.filter (·.drive.sameValue d) := by
  cases w with
  | attach m =>
    refine (filter_attach c m d).trans ?_
    rfl
  | detach e =>
    refine (filter_detach c e d).trans ?_
    rfl

/-- **The last macro that was put to work on a value is at work on it**, if it was not taken away
after that. -/
theorem macros_wireAll (c : PlayChannel) (ws : List Wiring) (d : Drive) :
    (c.wireAll ws).macros.filter (·.drive.sameValue d) =
      match Wiring.last? d ws with
      | some w => w.macro?.toList
      | none => c.macros.filter (·.drive.sameValue d) := by
  induction ws using List.reverseRecOn with
  | nil => rfl
  | append_singleton ws w ih =>
    have hsnoc : c.wireAll (ws ++ [w]) = (c.wireAll ws).wire w := List.foldl_append
    rw [hsnoc, macros_wire, Wiring.last?, List.reverse_concat, List.find?_cons]
    cases hw : w.drive.sameValue d with
    | true => rfl
    | false => exact ih

/-- Macros that drive different values are all at work once they were put to work, after those of
the channel that they leave in place. -/
theorem macros_attachAll {ms : List LiveMacro} (hms : ms.Pairwise LiveMacro.Apart)
    (c : PlayChannel) :
    (c.attachAll ms).macros =
      c.macros.filter (fun m => ms.all fun m' => !m.drive.sameValue m'.drive) ++ ms := by
  induction ms generalizing c with
  | nil => simp [attachAll, wireAll]
  | cons m ms ih =>
    obtain ⟨hm, hms⟩ := List.pairwise_cons.mp hms
    have hself : ms.all (fun m' => !m.drive.sameValue m'.drive) = true := by
      refine List.all_eq_true.mpr fun m' hm' => ?_
      rw [hm m' hm']
      rfl
    have hcons : c.attachAll (m :: ms) = (c.attach m).attachAll ms := rfl
    rw [hcons, ih hms]
    show ((c.detach m.drive).macros ++ [m]).filter _ ++ ms = _
    rw [List.filter_append, List.filter_singleton, hself, detach, List.filter_filter,
      List.append_assoc]
    simp [Bool.and_comm]

/-! ### Other orders -/

/-- Two channels have the same values, and the same macros in any order, which drive different
values. -/
structure Alike (c c' : PlayChannel) : Prop where
  /-- The values are the same. -/
  state : c.state = c'.state
  /-- The macros are the same. -/
  macros : c.macros.Perm c'.macros
  /-- The macros drive different values. -/
  separate : c.Separate

theorem Alike.wire (h : c.Alike c') (w : Wiring) : (c.wire w).Alike (c'.wire w) := by
  refine ⟨?_, ?_, h.separate.wire w⟩
  · cases w with
    | attach m => exact h.state
    | detach d => exact h.state
  · cases w with
    | attach m => exact (h.macros.filter _).append_right [m]
    | detach d => exact h.macros.filter _

/-- Macros step to the same values in any order. -/
theorem Alike.stepAll (h : c.Alike c') (trigger : Pace) :
    (c.stepAll trigger).Alike (c'.stepAll trigger) := by
  refine ⟨?_, ?_, h.separate.stepAll trigger⟩
  · rw [stepAll_eq, stepAll_eq]
    refine (LiveMacro.workAll_perm h.macros h.separate trigger c.state).trans ?_
    rw [h.state]
    rfl
  · rw [stepAll_eq, stepAll_eq]
    exact h.macros.map _

theorem Alike.set (h : c.Alike c') (s : PlayState) :
    ({ c with state := s } : PlayChannel).Alike { c' with state := s } :=
  ⟨rfl, h.macros, h.separate⟩

/-- **Channels that are alike stay alike.** -/
theorem Alike.call (h : c.Alike c') (x : Call) : (c.call x).Alike (c'.call x) := by
  cases x with
  | wire w => exact h.wire w
  | startNote note octave =>
    unfold PlayChannel.call startNote
    rw [h.state]
    exact (h.set _).stepAll .note
  | updateFrame =>
    unfold PlayChannel.call updateFrame
    rw [h.state]
    exact (h.set _).stepAll .frame
  | set s => exact h.set s

/-- **Channels that are alike go through the same values.** -/
theorem Alike.states (h : c.Alike c') (calls : List Call) : c.states calls = c'.states calls := by
  induction calls generalizing c c' with
  | nil => exact congrArg ([·]) h.state
  | cons x xs ih =>
    simp only [PlayChannel.states]
    rw [h.state, ih (h.call x)]

theorem state_wireAll (c : PlayChannel) (ws : List Wiring) : (c.wireAll ws).state = c.state := by
  induction ws generalizing c with
  | nil => rfl
  | cons w ws ih =>
    have hw : (c.wire w).state = c.state := by cases w <;> rfl
    exact (ih (c.wire w)).trans hw

/-- Macros that drive different values can be put to work in any order. -/
theorem Separate.alike_attachAll (h : c.Separate) {ms ms' : List LiveMacro} (hperm : ms.Perm ms')
    (hms : ms.Pairwise LiveMacro.Apart) : (c.attachAll ms).Alike (c.attachAll ms') := by
  have hms' : ms'.Pairwise LiveMacro.Apart := hperm.pairwise hms LiveMacro.Apart.symm
  refine ⟨?_, ?_, h.wireAll _⟩
  · rw [attachAll, attachAll, state_wireAll, state_wireAll]
  · rw [macros_attachAll hms, macros_attachAll hms']
    simp only [hperm.all_eq]
    exact hperm.append_left _

end PlayChannel

/-- **Macros are independent of each other.**  After any calls, and any macros put to work and taken
away then, the macros of a channel drive different values; of each value the last one that was put
to work is at work, unless it was taken away.  And where macros for different values are put to
work, in whatever order, the channel goes through the same values with all calls that follow. -/
theorem macros_independent (history : List Call) :
    let c := PlayChannel.initial.after history
    (∀ ws : List Wiring,
      ((c.wireAll ws).macros.Pairwise fun m m' => m.drive.sameValue m'.drive = false) ∧
        ∀ d : Drive, (c.wireAll ws).macros.filter (·.drive.sameValue d) =
          match Wiring.last? d ws with
          | some w => w.macro?.toList
          | none => c.macros.filter (·.drive.sameValue d)) ∧
      ∀ ms ms' : List LiveMacro, ms.Perm ms' →
        (ms.Pairwise fun m m' => m.drive.sameValue m'.drive = false) →
          ∀ calls : List Call, (c.attachAll ms).states calls = (c.attachAll ms').states calls := by
  intro c
  have hc : c.Separate := PlayChannel.separate_after history
  refine ⟨fun ws => ⟨hc.wireAll ws, c.macros_wireAll ws⟩, fun ms ms' hperm hms calls => ?_⟩
  exact (hc.alike_attachAll hperm hms).states calls

/-- A channel with an arpeggio and a slide gets three macros in two orders.  One of them takes the
place of the arpeggio, and the slide goes on. -/
theorem macros_independent_orders :
    let sum := LiveMacro.new (.arpeggio true) 0 ⟨[.int 3, .int 4], [.int (-1)]⟩
    let level := LiveMacro.new .volume 0x80 ⟨[.int 7, .int 7, .int 1], []⟩
    let operators := LiveMacro.new .volumeSlide 0 ⟨[.int 2, .text "x", .int 5], []⟩
    let history : List Call := [.set { PlayState.initial with selectedOperator := some 2 },
      .wire (.attach (.new (.arpeggio false) 0 ⟨[.int 12], []⟩)),
      .wire (.attach (.new .freqSlide 0 ⟨[], [.int (-3)]⟩)), .startNote 1 5, .updateFrame]
    let calls : List Call := [.startNote 0 4, .updateFrame, .updateFrame, .startNote 9 3]
    let c := PlayChannel.initial.after history
    [sum, level, operators].Perm [operators, sum, level] ∧
      (c.attachAll [sum, level, operators]).states calls =
        (c.attachAll [operators, sum, level]).states calls ∧
      ((c.attachAll [sum, level, operators]).states calls).map
          (fun s => (s.noteOffset, s.freqOffset, s.volume, s.valueChanged)) =
        [(12, -6, 0, true), (3, -3, 7, false), (7, -6, 7, true), (6, -9, 7, true),
          (3, -3, 7, false)] := by
  intro sum level operators history calls c
  have hperm : [sum, level, operators].Perm [operators, sum, level] := by decide
  exact ⟨hperm, (macros_independent history).2 _ _ hperm (by decide) calls, by decide +kernel⟩

end Chiptune
