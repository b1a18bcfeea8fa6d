import Chiptune.Proofs.Frames
import Chiptune.Proofs.Keys
import Chiptune.Proofs.Playhead

/-!
# Reading from the beginning

A playhead moves on with every read, can be moved on without one, and can be sent back to the
beginning.  Only the moves since it was last there count: whatever happened before, the place is the
same as after so many reads of a new sequence.  So the parameters come in the order of the sequence
whenever reading begins anew, and a sequence with parameters never fails to give one.

Storing a macro and putting one to work both begin anew, wherever the parameters were read before.

## Main definitions

* `Playhead.Call`, `Playhead.callAll` — what can be asked of a playhead, and where it is then.
* `Playhead.sinceRewind` — the moves since the playhead was at the beginning.
* `Playhead.readAfter`, `Registry.readAfter` — what is read after some other reads.
* `LiveMacro.afterSteps` — a macro after some steps at its own pace.

## Main results

* `Playhead.callAll_start`, `Playhead.readAfter_callAll` — where a playhead is after any calls, and
  what is read then.
* `Registry.readAfter_define`, `LiveMacro.head_afterSteps` — a macro is read from the beginning.
* `reads_from_start` — what is read, from the first parameter on.
-/

namespace Chiptune

theorem ParamSeq.nth?_zero (s : ParamSeq) : s.nth? 0 = s.toList.head? := by
  obtain ⟨main, loop⟩ := s
  cases main with
  | cons p ps => rfl
  | nil =>
    cases loop with
    | nil => rfl
    | cons p ps => simp [nth?, toList]

/-! ### Calls -/

namespace Playhead

/-- Something that is asked of a playhead. -/
inductive Call where
  /-- To move on. -/
  | advance
  /-- To read a parameter and move on. -/
  | next
  /-- To go back to the beginning. -/
  | rewind
  deriving DecidableEq, Repr

/-- The place after a call. -/
def call (h : Playhead) : Call → Playhead
  | .advance => h.advance
  | .next => h.next.2
  | .rewind => h.rewind

/-- The place after some calls. -/
def callAll (h : Playhead) (calls : List Call) : Playhead := calls.foldl call h

/-- How many moves there were since the beginning, with one more call. -/
def movesAfter (moves : Nat) : Call → Nat
  | .advance | .next => moves + 1
  | .rewind => 0

/-- How many moves there were since the playhead was last at the beginning. -/
def sinceRewind (calls : List Call) : Nat := calls.foldl movesAfter 0

/-- What is read after `n` other reads. -/
def readAfter : Nat → Playhead → Option Param
  | 0, h => h.next.1
  | n + 1, h => readAfter n h.next.2

/-- A call leads from the place after some moves to the place after others. -/
theorem call_nth (s : ParamSeq) (moves : Nat) (c : Call) :
    (nth s moves).call c = nth s (movesAfter moves c) := by
  cases c with
  | advance => exact advance_nth s moves
  | next => exact advance_nth s moves
  | rewind => exact rewind_nth s moves

/-- **Only the moves since the beginning count**, whatever was asked of the playhead before. -/
theorem callAll_start (s : ParamSeq) (calls : List Call) :
    (start s).callAll calls = nth s (sinceRewind calls) := by
  have key : ∀ (calls : List Call) (moves : Nat),
      (nth s moves).callAll calls = nth s (calls.foldl movesAfter moves) := by
    intro calls
    induction calls with
    | nil => exact fun _ => rfl
    | cons c calls ih =>
      intro moves
      rw [callAll, List.foldl_cons, call_nth, ← callAll, ih, List.foldl_cons]
  rw [start_eq_nth, key, sinceRewind]

theorem sinceRewind_eq_zero {calls : List Call}
    (h : calls = [] ∨ calls.getLast? = some .rewind) : sinceRewind calls = 0 := by
  rcases h with rfl | h
  · rfl
  · obtain ⟨before, rfl⟩ := List.getLast?_eq_some_iff.mp h
    rw [sinceRewind, List.foldl_concat]
    rfl

theorem seq_callAll (s : ParamSeq) (calls : List Call) : ((start s).callAll calls).seq = s := by
  rw [callAll_start, seq_nth]

theorem readAfter_nth (s : ParamSeq) : ∀ n moves : Nat,
    (nth s moves).readAfter n = s.nth? (moves + n) := by
  intro n
  induction n with
  | zero => exact peek?_nth s
  | succ n ih =>
    intro moves
    have hmoves : moves + 1 + n = moves + (n + 1) := by omega
    rw [readAfter, next, advance_nth, ih, hmoves]

/-- **What is read after any calls** depends on the number of moves since the beginning. -/
theorem readAfter_callAll (s : ParamSeq) (calls : List Call) (n : Nat) :
    ((start s).callAll calls).readAfter n = s.nth? (sinceRewind calls + n) := by
  rw [callAll_start, readAfter_nth]

end Playhead

/-! ### Stored macros -/

namespace Registry

/-- What is read of the macro under a key after `n` other reads. -/
def readAfter (key : Nat) : Nat → Registry → Option Param
  | 0, r => (r.advance key).1
  | n + 1, r => readAfter key n (r.advance key).2

theorem readAfter_of_get? {key : Nat} : ∀ (n : Nat) {r : Registry} {m : Macro},
    r.get? key = some m → r.readAfter key n = m.head.readAfter n := by
  intro n
  induction n with
  | zero =>
    intro r m hm
    simp only [readAfter, advance, hm]
    rfl
  | succ n ih =>
    intro r m hm
    have hnext : (r.advance key).2.get? key = some { m with head := m.head.advance } := by
      simp only [advance, hm]
      rw [get?, Keyed.find?_modify, if_pos rfl, ← get?, hm]
      rfl
    rw [readAfter, ih hnext]
    rfl

theorem get?_put_self (r : Registry) (key : Nat) (s : ParamSeq) :
    ∃ m, (r.put key s).get? key = some m ∧ m.head = .start s := by
  rw [get?, put, Keyed.find?_insert, if_pos rfl]
  cases r.get? key with
  | none => exact ⟨_, rfl, rfl⟩
  | some m => exact ⟨_, rfl, rfl⟩

/-- **A macro that was stored is read from the beginning**, also if another one was there. -/
theorem readAfter_define {key : Nat} (hkey : key ≤ maxKey) (s : ParamSeq) (r : Registry) :
    ∃ r', define key s r = .ok key r' ∧ ∀ n, r'.readAfter key n = s.nth? n := by
  refine ⟨r.put key s, ?_, fun n => ?_⟩
  · rw [define_eq, if_neg (Nat.not_lt_of_le hkey)]
  · obtain ⟨m, hm, hhead⟩ := r.get?_put_self key s
    rw [readAfter_of_get? n hm, hhead, Playhead.start_eq_nth, Playhead.readAfter_nth, Nat.zero_add]

end Registry

/-! ### Macros at work -/

namespace LiveMacro

/-- A macro and its channel after `n` steps at the macro's own pace. -/
def afterSteps (m : LiveMacro) (state : PlayState) : Nat → LiveMacro × PlayState
  | 0 => (m, state)
  | n + 1 => (m.afterSteps state n).1.step m.pace (m.afterSteps state n).2

/-- With a step at its own pace a macro moves on by one. -/
theorem turn_pace {m : LiveMacro} (h : m.enabled = true) :
    m.turn m.pace = { m with head := m.head.advance } := by
  unfold turn
  rw [h]
  cases m.pace <;> rfl

/-- **A macro that is put to work is read from the beginning**, one parameter with each step. -/
theorem head_afterSteps (drive : Drive) (operand : UInt8) (s : ParamSeq) (state : PlayState)
    (n : Nat) :
    ((new drive operand s).afterSteps state n).1 = ⟨drive, operand, true, .nth s n⟩ := by
  induction n with
  | zero => rw [afterSteps, new, Playhead.start_eq_nth]
  | succ n ih =>
    -- the pace comes from the operand, which no step changes
    have hpace : (new drive operand s).pace =
        (⟨drive, operand, true, .nth s n⟩ : LiveMacro).pace := rfl
    rw [afterSteps, step_eq, ih, hpace, turn_pace rfl, Playhead.advance_nth]

end LiveMacro

/-- **Parameters are read from the first one on.**  In a new sequence, and in one that was sent back
to the beginning after any calls, the parameter after `n` others is that of the main part, then that
of the loop part in turn, or the last one if there is no loop part.  If there are parameters, a read
gives one of them after any calls.  A macro that is stored or put to work begins with the first
parameter, wherever its parameters were read before. -/
theorem reads_from_start (s : ParamSeq) (history : List Playhead.Call) :
    let list := (Playhead.start s).callAll history
    (history = [] ∨ history.getLast? = some .rewind → ∀ n, list.readAfter n =
      if n < s.main.length then s.main[n]?
      else if s.loop ≠ [] then s.loop[(n - s.main.length) % s.loop.length]?
      else s.main.getLast?) ∧
    (s.isEmpty = false → ∃ p ∈ s.toList, list.next.1 = some p) ∧
    (∀ (r : Registry) (key : Nat), key ≤ Registry.maxKey →
      ∃ r', Registry.define key list.seq r = .ok key r' ∧
        r'.readAfter key 0 = s.toList.head? ∧ ∀ n, r'.readAfter key n = s.nth? n) ∧
    (∀ (drive : Drive) (operand : UInt8) (state : PlayState),
      let m := LiveMacro.new drive operand list.seq
      m.head.next.1 = s.toList.head? ∧ ∀ n, (m.afterSteps state n).1.head.next.1 = s.nth? n) := by
  intro list
  have hseq : list.seq = s := Playhead.seq_callAll s history
  refine ⟨fun hnew n => ?_, fun hne => ?_, fun r key hkey => ?_, fun drive operand state => ?_⟩
  · have hread := Playhead.readAfter_callAll s history n
    rw [Playhead.sinceRewind_eq_zero hnew, Nat.zero_add] at hread
    rw [hread, ParamSeq.nth?, ite_not]
  · obtain ⟨p, hp, hnth⟩ := ParamSeq.exists_nth? hne (Playhead.sinceRewind history)
    exact ⟨p, hp, (Playhead.readAfter_callAll s history 0).trans hnth⟩
  · rw [hseq]
    obtain ⟨r', hdefine, hread⟩ := Registry.readAfter_define hkey s r
    exact ⟨r', hdefine, by rw [hread, ParamSeq.nth?_zero], hread⟩
  · rw [hseq]
    have hread : ∀ n, ((LiveMacro.new drive operand s).afterSteps state n).1.head.next.1 =
        s.nth? n := by
      intro n
      rw [LiveMacro.head_afterSteps]
      exact Playhead.peek?_nth s n
    exact ⟨(hread 0).trans s.nth?_zero, hread⟩

/-- Two parameters and two that repeat, sent back after four moves: the last of seven reads finds
the first one that repeats.  Stored in place of another macro, they begin anew. -/
theorem reads_from_start_rewound :
    let s : ParamSeq := ⟨[.int 1, .int 2], [.int 5, .text "kick"]⟩
    let history : List Playhead.Call := [.next, .advance, .next, .next, .rewind]
    let r : Registry := (Registry.new .arpeggio).put 3 ⟨[.int 9], []⟩
    ((Playhead.start s).callAll history).readAfter 6 = some (.int 5) ∧
      (∃ p ∈ s.toList, ((Playhead.start s).callAll history).next.1 = some p) ∧
      ∃ r', Registry.define 3 s r = .ok 3 r' ∧ r'.readAfter 3 3 = some (.text "kick") := by
  intro s history r
  obtain ⟨hread, hsome, hdefine, -⟩ := reads_from_start s history
  refine ⟨?_, hsome rfl, ?_⟩
  · rw [hread (.inr rfl) 6]
    simp [s]
  · obtain ⟨r', hstored, -, hread'⟩ := hdefine r 3 (by decide)
    exact ⟨r', hstored, hread' 3⟩

end Chiptune
