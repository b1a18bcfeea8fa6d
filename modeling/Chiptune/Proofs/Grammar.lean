import Chiptune.Stream.Reader
import Mathlib.Data.Fintype.Basic
import Mathlib.Data.Nat.Bitwise
import Mathlib.Tactic.FinCases

/-!
# What a reader accepts

The bytes of a stream are words, one for each command.  The grammar of the words is given here apart
from the reader: which opcode a command has, and which operands follow it.  A reader that gets any
bytes at all reads exactly the words at their front, and where it fails no word begins.

## Main definitions

* `Delay.Spells`, `Command.Spells` — the words of a delay and of a command.
* `Command.SpellsAll` — the words of some commands, one after the other.
* `Command.Complete` — where reading a channel stops.

## Main results

* `Command.decode_eq_ok_iff` — a command is read exactly where its word stands.
* `Command.taken_le` — how far a reader gets before it notices a defect.
* `Reader.readAll_eq_ok_iff`, `Reader.readAll_eq_error` — the two ways in which reading ends.
* `readAll_accepts` — a channel is read exactly from the words of its commands.
-/

namespace Chiptune

/-! ### Delays -/

namespace Delay

/-- The words of a delay.  The top bit of the first byte tells whether one byte follows or two; in
the longer word the second byte gives seven bits. -/
inductive Spells : List UInt8 → Int → Prop where
  /-- Two bytes, high byte first. -/
  | short {first : UInt8} (second : UInt8) (h : first.toNat < 128) :
      Spells [first, second] (first.toNat * 0x100 + second.toNat)
  /-- Three bytes. -/
  | long {first : UInt8} (second third : UInt8) (h : 128 ≤ first.toNat) :
      Spells [first, second, third]
        ((first.toNat % 128 : Nat) * 0x8000 + (second.toNat % 128 : Nat) * 0x100 + third.toNat)

/-- The top bit tells whether a byte is below `128`. -/
theorem top_eq_zero_iff (b : UInt8) : b &&& 0x80 = 0 ↔ b.toNat < 128 := by
  have hb := b.toNat_lt
  -- as a number the bit is the parity of `b / 128`
  have hbit : b.toNat &&& 2 ^ 7 = (b.toNat.testBit 7).toNat * 2 ^ 7 := Nat.and_two_pow b.toNat 7
  rw [Nat.testBit_eq_decide_div_mod_eq] at hbit
  rw [← UInt8.toNat_inj, UInt8.toNat_and]
  change b.toNat &&& 2 ^ 7 = 0 ↔ _
  rw [hbit]
  simp
  omega

theorem toNat_and_low (b : UInt8) : (b &&& 0x7F).toNat = b.toNat % 128 := by
  rw [UInt8.toNat_and]
  exact Nat.and_two_pow_sub_one_eq_mod b.toNat 7

theorem decode?_of_spells {word : List UInt8} {n : Int} (h : Spells word n) (rest : List UInt8) :
    decode? (word ++ rest) = some (n, rest) := by
  cases h with
  | short second h =>
    simp only [List.cons_append, List.nil_append, decode?, (top_eq_zero_iff _).mpr h, if_true]
  | @long first second third h =>
    have htop : ¬ first &&& 0x80 = 0 := by
      rw [top_eq_zero_iff]
      omega
    simp only [List.cons_append, List.nil_append, decode?, htop, if_false, toNat_and_low]

theorem spells_of_decode? {bytes rest : List UInt8} {n : Int}
    (h : decode? bytes = some (n, rest)) : ∃ word, Spells word n ∧ bytes = word ++ rest := by
  unfold decode? at h
  split at h
  · next first second bytes =>
    split at h
    · next htop =>
      cases h
      exact ⟨_, .short second ((top_eq_zero_iff first).mp htop), rfl⟩
    · next htop =>
      rw [top_eq_zero_iff, Nat.not_lt] at htop
      split at h
      · next third bytes =>
        cases h
        refine ⟨[first, second, third], ?_, rfl⟩
        rw [toNat_and_low, toNat_and_low]
        exact .long second third htop
      · cases h
  · cases h

end Delay

/-! ### Commands -/

theorem Effect.index_of_ofIndex? {n : Nat} {e : Effect} (h : ofIndex? n = some e) :
    (e.index : Nat) = n := by
  have hn : n < 14 := by
    by_contra hn
    rw [ofIndex?_eq_none_iff.mpr (by omega)] at h
    cases h
  have key : ∀ i : Fin 14, ∀ e, ofIndex? i = some e → e.index = i := by
    intro i e
    fin_cases i <;> rintro ⟨⟩ <;> rfl
  exact congrArg Fin.val (key ⟨n, hn⟩ e h)

namespace Command

/-- The words of a command: its opcode, and then its operands. -/
inductive Spells : List UInt8 → Command → Prop where
  /-- A note and its delay. -/
  | note {pitch : UInt8} {word : List UInt8} {n : Int} (hp : pitch < 12)
      (hn : Delay.Spells word n) : Spells (pitch :: word) (note pitch n)
  /-- A note with the delay used before. -/
  | noteShort {pitch : UInt8} (hp : pitch < 12) : Spells [pitch ||| 0x80] (noteShort pitch)
  /-- The same, one octave up. -/
  | noteUp {pitch : UInt8} (hp : pitch < 12) : Spells [pitch ||| 0x20] (noteUp pitch)
  /-- The same, one octave down. -/
  | noteDown {pitch : UInt8} (hp : pitch < 12) : Spells [pitch ||| 0x40] (noteDown pitch)
  /-- Silence and its delay. -/
  | rest {word : List UInt8} {n : Int} (hn : Delay.Spells word n) : Spells (0x0C :: word) (rest n)
  /-- Silence with the delay used before. -/
  | restShort : Spells [0x8C] restShort
  /-- Time and its delay. -/
  | wait {word : List UInt8} {n : Int} (hn : Delay.Spells word n) : Spells (0x0D :: word) (wait n)
  /-- Time with the delay used before. -/
  | waitShort : Spells [0x8D] waitShort
  /-- An octave, in the low bits of the opcode. -/
  | octave {o : UInt8} (ho : o < 16) : Spells [0x10 ||| o] (octave o)
  /-- A volume. -/
  | volume (level : UInt8) : Spells [0x30, level] (volume level)
  /-- A macro, with its effect in the opcode. -/
  | effectOn (effect : Effect) (operand : UInt8) :
      Spells [0xE0 + .ofNat effect.index, operand] (effectOn effect operand)
  /-- An effect. -/
  | effectOff (effect : Effect) : Spells [0xF0, .ofNat effect.index] (effectOff effect)
  /-- An offset, low byte first. -/
  | jump (low high : UInt8) :
      Spells [0xF9, low, high] (jump (.ofNat (low.toNat + 0x100 * high.toNat)))
  /-- The end. -/
  | stop : Spells [0xFF] stop

theorem Spells.length_pos {word : List UInt8} {c : Command} (h : Spells word c) :
    0 < word.length := by
  cases h <;> simp

/-! ### Opcodes

What an opcode byte selects, and which bytes are the opcodes of a command. -/

theorem exists_pitch {p : UInt8} (h : p < 12) : ∃ q : Fin 12, p = .ofNat q :=
  ⟨⟨p.toNat, h⟩, by simp⟩

theorem exists_octave {o : UInt8} (h : o < 16) : ∃ q : Fin 16, o = .ofNat q :=
  ⟨⟨o.toNat, h⟩, by simp⟩

private theorem decodeAfter_pitch (p : Fin 12) (tail : List UInt8) :
    decodeAfter (.ofNat p) tail =
      match Delay.decode? tail with
      | some (n, tail) => .ok (note (.ofNat p) n, tail)
      | none => .error ⟨.truncatedDelay, 1⟩ := by
  fin_cases p <;> rfl

private theorem decodeAfter_short (p : Fin 12) (tail : List UInt8) :
    decodeAfter (.ofNat p ||| 0x80) tail = .ok (noteShort (.ofNat p), tail) := by
  fin_cases p <;> rfl

private theorem decodeAfter_up (p : Fin 12) (tail : List UInt8) :
    decodeAfter (.ofNat p ||| 0x20) tail = .ok (noteUp (.ofNat p), tail) := by
  fin_cases p <;> rfl

private theorem decodeAfter_down (p : Fin 12) (tail : List UInt8) :
    decodeAfter (.ofNat p ||| 0x40) tail = .ok (noteDown (.ofNat p), tail) := by
  fin_cases p <;> rfl

private theorem decodeAfter_octave (o : Fin 16) (tail : List UInt8) :
    decodeAfter (0x10 ||| .ofNat o) tail = .ok (octave (.ofNat o), tail) := by
  fin_cases o <;> rfl

/-- The two bytes of an offset do not overlap, so joining them is adding them. -/
theorem or_shiftLeft_eq (low high : UInt8) :
    low.toUInt16 ||| (high.toUInt16 <<< 8) = .ofNat (low.toNat + 0x100 * high.toNat) := by
  have hlow := low.toNat_lt
  have hhigh := high.toNat_lt
  have hor : low.toNat ||| high.toNat <<< 8 = low.toNat + 0x100 * high.toNat := by
    rw [Nat.or_comm, ← Nat.shiftLeft_add_eq_or_of_lt hlow, Nat.shiftLeft_eq]
    omega
  rw [← UInt16.toNat_inj]
  simp [Nat.shiftLeft_eq] at hor ⊢
  rw [Nat.mod_eq_of_lt (by omega), Nat.mod_eq_of_lt (by omega)]
  exact hor

/-- **A word is read as its command**, whatever follows it. -/
theorem decode_of_spells {word : List UInt8} {c : Command} (h : Spells word c)
    (tail : List UInt8) : decode (word ++ tail) = .ok (c, tail) := by
  cases h with
  | note hp hn =>
    obtain ⟨p, rfl⟩ := exists_pitch hp
    simp only [List.cons_append, decode, decodeAfter_pitch, Delay.decode?_of_spells hn]
  | noteShort hp =>
    obtain ⟨p, rfl⟩ := exists_pitch hp
    exact decodeAfter_short p tail
  | noteUp hp =>
    obtain ⟨p, rfl⟩ := exists_pitch hp
    exact decodeAfter_up p tail
  | noteDown hp =>
    obtain ⟨p, rfl⟩ := exists_pitch hp
    exact decodeAfter_down p tail
  | @rest word n hn =>
    change decodeAfter 0x0C (word ++ tail) = _
    simp only [decodeAfter, shapeOf, Delay.decode?_of_spells hn]
    rfl
  | restShort => rfl
  | @wait word n hn =>
    change decodeAfter 0x0D (word ++ tail) = _
    simp only [decodeAfter, shapeOf, Delay.decode?_of_spells hn]
    rfl
  | waitShort => rfl
  | octave ho =>
    obtain ⟨o, rfl⟩ := exists_octave ho
    exact decodeAfter_octave o tail
  | volume level => rfl
  | effectOn effect operand => cases effect <;> rfl
  | effectOff effect => cases effect <;> rfl
  | jump low high =>
    rw [← or_shiftLeft_eq]
    rfl
  | stop => rfl

/-- A byte is its low and its high four bits. -/
theorem nibbles_or (b : UInt8) : (b &&& 0x0F) ||| (b &&& 0xF0) = b := by
  have hb := b.toNat_lt
  rw [← UInt8.toNat_inj, UInt8.toNat_or, UInt8.toNat_and, UInt8.toNat_and,
    ← Nat.and_or_distrib_left]
  exact (Nat.and_two_pow_sub_one_eq_mod b.toNat 8).trans (Nat.mod_eq_of_lt hb)

theorem high_of_octave {opcode : UInt8} (h : 0x10 ≤ opcode ∧ opcode ≤ 0x1F) :
    opcode &&& 0xF0 = 0x10 := by
  have key : ∀ k < 16, (16 + k) &&& 0xF0 = 0x10 := by decide
  have hlow : 16 ≤ opcode.toNat := h.1
  have hhigh : opcode.toNat ≤ 31 := h.2
  have hk := key (opcode.toNat - 16) (by omega)
  rw [show 16 + (opcode.toNat - 16) = opcode.toNat by omega] at hk
  rw [← UInt8.toNat_inj, UInt8.toNat_and]
  exact hk

theorem low_lt (b : UInt8) : b &&& 0x0F < 16 := by
  rw [UInt8.lt_iff_toNat_lt, UInt8.toNat_and]
  exact Nat.and_lt_two_pow b.toNat (n := 4) (by decide)

/-- The opcodes for notes and silence. -/
theorem spells_of_shapeOf {opcode : UInt8} :
    (∀ c, shapeOf opcode = .bare c → Spells [opcode] c) ∧
      ∀ build, shapeOf opcode = .timed build → ∀ word n, Delay.Spells word n →
        Spells (opcode :: word) (build n) := by
  have hnibbles := nibbles_or opcode
  simp only [shapeOf]
  split
  · next hp =>
    -- a note: the low four bits are the pitch, the high ones the form
    split
    · next hform =>
      rw [hform, UInt8.or_zero] at hnibbles
      rw [hnibbles] at hp ⊢
      refine ⟨nofun, ?_⟩
      rintro build ⟨⟩ word n hn
      exact .note hp hn
    · split
      · next hform =>
        rw [hform] at hnibbles
        refine ⟨?_, nofun⟩
        rintro c ⟨⟩
        have hword := Spells.noteShort hp
        rwa [hnibbles] at hword
      · split
        · next hform =>
          rw [hform] at hnibbles
          refine ⟨?_, nofun⟩
          rintro c ⟨⟩
          have hword := Spells.noteUp hp
          rwa [hnibbles] at hword
        · split
          · next hform =>
            rw [hform] at hnibbles
            refine ⟨?_, nofun⟩
            rintro c ⟨⟩
            have hword := Spells.noteDown hp
            rwa [hnibbles] at hword
          · exact ⟨nofun, nofun⟩
  · -- silence: the whole opcode counts
    split
    · next hop =>
      subst hop
      refine ⟨nofun, ?_⟩
      rintro build ⟨⟩ word n hn
      exact .rest hn
    · split
      · next hop =>
        subst hop
        refine ⟨?_, nofun⟩
        rintro c ⟨⟩
        exact .restShort
      · split
        · next hop =>
          subst hop
          refine ⟨nofun, ?_⟩
          rintro build ⟨⟩ word n hn
          exact .wait hn
        · split
          · next hop =>
            subst hop
            refine ⟨?_, nofun⟩
            rintro c ⟨⟩
            exact .waitShort
          · exact ⟨nofun, nofun⟩

theorem spells_of_decodeAfter {opcode : UInt8} {bytes rest : List UInt8} {c : Command}
    (h : decodeAfter opcode bytes = .ok (c, rest)) :
    ∃ operands, Spells (opcode :: operands) c ∧ bytes = operands ++ rest := by
  unfold decodeAfter at h
  split at h
  · next hop =>
    subst hop
    cases h
    exact ⟨[], .stop, rfl⟩
  split at h
  · next hop =>
    subst hop
    split at h
    · next low high tail =>
      cases h
      refine ⟨[low, high], ?_, rfl⟩
      rw [or_shiftLeft_eq]
      exact .jump low high
    · cases h
  split at h
  · next hop =>
    subst hop
    split at h
    · next index tail =>
      split at h
      · next effect heffect =>
        cases h
        refine ⟨[index], ?_, rfl⟩
        have hword := Spells.effectOff effect
        rwa [Effect.index_of_ofIndex? heffect, UInt8.ofNat_toNat] at hword
      · cases h
    · cases h
  split at h
  · split at h
    · next effect heffect =>
      split at h
      · next operand tail =>
        cases h
        refine ⟨[operand], ?_, rfl⟩
        have hword := Spells.effectOn effect operand
        rwa [Effect.index_of_ofIndex? heffect, UInt8.ofNat_toNat, UInt8.add_comm,
          UInt8.sub_add_cancel] at hword
      · cases h
    · cases h
  split at h
  · next hop =>
    subst hop
    split at h
    · next level tail =>
      cases h
      exact ⟨[level], .volume level, rfl⟩
    · cases h
  split at h
  · next hop =>
    cases h
    refine ⟨[], ?_, rfl⟩
    have hword := Spells.octave (low_lt opcode)
    rwa [← high_of_octave hop, UInt8.or_comm, nibbles_or] at hword
  obtain ⟨hbare, htimed⟩ := @spells_of_shapeOf opcode
  split at h
  · next command hshape =>
    cases h
    exact ⟨[], hbare _ hshape, rfl⟩
  · next build hshape =>
    split at h
    · next n tail hdelay =>
      cases h
      obtain ⟨word, hn, rfl⟩ := Delay.spells_of_decode? hdelay
      exact ⟨word, htimed _ hshape word n hn, rfl⟩
    · cases h
  · cases h

/-- **A command is read exactly where its word stands.** -/
theorem decode_eq_ok_iff {bytes rest : List UInt8} {c : Command} :
    decode bytes = .ok (c, rest) ↔ ∃ word, Spells word c ∧ bytes = word ++ rest := by
  constructor
  · intro h
    cases bytes with
    | nil => cases h
    | cons opcode bytes =>
      obtain ⟨operands, hword, rfl⟩ := spells_of_decodeAfter h
      exact ⟨opcode :: operands, hword, rfl⟩
  · rintro ⟨word, hword, rfl⟩
    exact decode_of_spells hword rest

/-- **How far a reader gets before it notices a defect.**  It has taken at most two bytes, and these
are there. -/
theorem taken_le {bytes : List UInt8} {f : Fault} (h : decode bytes = .error f) :
    f.taken ≤ 2 ∧ f.taken ≤ bytes.length := by
  cases bytes with
  | nil =>
    cases h
    exact ⟨Nat.zero_le _, Nat.zero_le _⟩
  | cons opcode bytes =>
    replace h : decodeAfter opcode bytes = .error f := h
    unfold decodeAfter at h
    repeat' split at h
    all_goals cases h
    all_goals simp
    -- only in a jump is the number of operands that are missing not fixed
    next hshort =>
      cases bytes with
      | nil => simp
      | cons low bytes =>
        cases bytes with
        | nil => simp
        | cons high bytes => exact absurd rfl (hshort low high bytes)

/-- The words of some commands, one after the other. -/
inductive SpellsAll : List UInt8 → List Command → Prop where
  /-- No command has no bytes. -/
  | nil : SpellsAll [] []
  /-- The word of a command, and then the others. -/
  | cons {word words : List UInt8} {c : Command} {cs : List Command} (h : Spells word c)
      (hs : SpellsAll words cs) : SpellsAll (word ++ words) (c :: cs)

theorem SpellsAll.length_le {words : List UInt8} {cs : List Command} (h : SpellsAll words cs) :
    cs.length ≤ words.length := by
  induction h with
  | nil => exact Nat.le_refl _
  | cons h hs ih =>
    have hpos := h.length_pos
    rw [List.length_cons, List.length_append]
    omega

/-- Where reading a channel stops: no command but the last ends the channel, and unless that one
does no bytes are left. -/
structure Complete (cs : List Command) (rest : List UInt8) : Prop where
  /-- No command but the last ends the channel. -/
  before : ∀ c ∈ cs.dropLast, c.isTerminator = false
  /-- The last command ends the channel, or nothing is left. -/
  last : rest = [] ∨ ∃ c, cs.getLast? = some c ∧ c.isTerminator = true

/-- If a command ends the channel, it does not matter what is left. -/
theorem Complete.congr {cs : List Command} {rest rest' : List UInt8} (h : Complete cs rest)
    (hterm : ∃ c ∈ cs, c.isTerminator = true) : Complete cs rest' := by
  obtain ⟨c, hc, hterm⟩ := hterm
  have hne : cs ≠ [] := List.ne_nil_of_mem hc
  rw [← List.dropLast_append_getLast hne, List.mem_append, List.mem_singleton] at hc
  refine ⟨h.before, .inr ⟨cs.getLast hne, List.getLast?_eq_some_getLast hne, ?_⟩⟩
  rcases hc with hc | rfl
  · rw [h.before c hc] at hterm
    cases hterm
  · exact hterm

theorem complete_nil_iff {rest : List UInt8} : Complete [] rest ↔ rest = [] := by
  constructor
  · intro h
    rcases h.last with h | ⟨c, hc, -⟩
    · exact h
    · cases hc
  · exact fun h => ⟨by simp, .inl h⟩

/-- The first command that ends the channel is the last that is read. -/
theorem complete_cons_iff_of_terminator {c : Command} {cs : List Command} {rest : List UInt8}
    (hc : c.isTerminator = true) : Complete (c :: cs) rest ↔ cs = [] := by
  constructor
  · intro h
    cases cs with
    | nil => rfl
    | cons c' cs =>
      have hfalse := h.before c (by simp)
      rw [hc] at hfalse
      cases hfalse
  · rintro rfl
    exact ⟨by simp, .inr ⟨c, rfl, hc⟩⟩

theorem complete_cons_iff {c : Command} {cs : List Command} {rest : List UInt8}
    (hc : c.isTerminator = false) : Complete (c :: cs) rest ↔ Complete cs rest := by
  cases cs with
  | nil =>
    rw [complete_nil_iff]
    constructor
    · intro h
      rcases h.last with h | ⟨c', hc', hterm⟩
      · exact h
      · obtain rfl : c = c' := by simpa using hc'
        rw [hc] at hterm
        cases hterm
    · exact fun h => ⟨by simp, .inl h⟩
  | cons c' cs =>
    constructor
    · intro h
      exact ⟨fun c'' hc'' => h.before c'' (List.mem_cons_of_mem _ hc''), h.last⟩
    · intro h
      exact ⟨List.forall_mem_cons.mpr ⟨hc, h.before⟩, h.last⟩

end Command

/-! ### Readers -/

namespace Reader

open Command

theorem next_eq_ok_iff {r r' : Reader} {c : Command} :
    next r = .ok c r' ↔ ∃ word, Spells word c ∧ r.rest = word ++ r'.rest ∧ r'.size = r.size := by
  constructor
  · intro h
    unfold next at h
    split at h
    · next hdecode =>
      cases h
      obtain ⟨word, hword, hrest⟩ := decode_eq_ok_iff.mp hdecode
      exact ⟨word, hword, hrest, rfl⟩
    · cases h
  · rintro ⟨word, hword, hrest, hsize⟩
    obtain ⟨size', rest'⟩ := r'
    subst hsize
    simp only [next, hrest, decode_of_spells hword]

theorem next_eq_error {r r' : Reader} {e : Error} (h : next r = .error e r') :
    ∃ f, decode r.rest = .error f ∧ e = .stream r'.position f.defect ∧ r' = r.skip f.taken := by
  unfold next at h
  split at h
  · cases h
  · next f hdecode =>
    cases h
    exact ⟨f, hdecode, rfl, rfl⟩

/-- A reader that reads a command is not at the end. -/
theorem atEnd_of_next {r r' : Reader} {c : Command} (h : next r = .ok c r') : r.atEnd = false := by
  have hlt := next_lt h
  cases hr : r.rest with
  | nil => rw [hr] at hlt; simp at hlt
  | cons b bytes => simp [atEnd, hr]

/-- One step of reading a channel. -/
theorem readOnto_of_next {done : Array Command} {r r' : Reader} {c : Command}
    (h : next r = .ok c r') :
    readOnto done r =
      if c.isTerminator then .ok (done.push c).toList r' else readOnto (done.push c) r' := by
  rw [readOnto]
  simp only [atEnd_of_next h, Bool.false_eq_true, if_false]
  split
  · next e r₁ he => rw [h] at he; cases he
  · next c₁ r₁ he =>
    rw [h] at he
    cases he
    rfl

theorem readOnto_of_spells {words rest : List UInt8} {cs : List Command} (h : SpellsAll words cs)
    (hcomplete : Complete cs rest) (done : Array Command) (size : Nat) :
    readOnto done ⟨size, words ++ rest⟩ = .ok (done.toList ++ cs) ⟨size, rest⟩ := by
  induction h generalizing done with
  | nil =>
    rw [complete_nil_iff] at hcomplete
    subst hcomplete
    rw [readOnto]
    simp [atEnd]
  | @cons word words c cs hword hwords ih =>
    have hnext : next ⟨size, word ++ words ++ rest⟩ = .ok c ⟨size, words ++ rest⟩ :=
      next_eq_ok_iff.mpr ⟨word, hword, List.append_assoc _ _ _, rfl⟩
    rw [readOnto_of_next hnext]
    cases hc : c.isTerminator with
    | true =>
      rw [complete_cons_iff_of_terminator hc] at hcomplete
      subst hcomplete
      cases hwords
      simp
    | false =>
      rw [complete_cons_iff hc] at hcomplete
      rw [if_neg (by simp), ih hcomplete]
      simp

theorem readOnto_eq_ok {done : Array Command} {r r' : Reader} {cs : List Command}
    (h : readOnto done r = .ok cs r') :
    ∃ words read, SpellsAll words read ∧ Complete read r'.rest ∧ cs = done.toList ++ read ∧
      r.rest = words ++ r'.rest ∧ r'.size = r.size := by
  fun_induction readOnto done r with
  | case1 done r hend =>
    have hrest : r.rest = [] := by simpa [atEnd] using hend
    cases h
    exact ⟨[], [], .nil, complete_nil_iff.mpr hrest, by simp, rfl, rfl⟩
  | case2 => cases h
  | case3 done r hend c r₁ hnext hc =>
    cases h
    obtain ⟨word, hword, hrest, hsize⟩ := next_eq_ok_iff.mp hnext
    refine ⟨word ++ [], [c], .cons hword .nil, ?_, by simp, by rw [hrest, List.append_nil], hsize⟩
    exact (complete_cons_iff_of_terminator hc).mpr rfl
  | case4 done r hend c r₁ hnext hc ih =>
    obtain ⟨word, hword, hrest, hsize⟩ := next_eq_ok_iff.mp hnext
    obtain ⟨words, read, hwords, hcomplete, hcs, hrest', hsize'⟩ := ih h
    refine ⟨word ++ words, c :: read, .cons hword hwords, ?_, ?_, ?_, hsize'.trans hsize⟩
    · exact (complete_cons_iff (by simpa using hc)).mpr hcomplete
    · simp [hcs]
    · rw [hrest, hrest', List.append_assoc]

/-- Reading fails behind some words that do not end the channel, where bytes are left that cannot be
read. -/
theorem readOnto_eq_error {done : Array Command} {r r' : Reader} {e : Error}
    (h : readOnto done r = .error e r') :
    ∃ words cs rest f, SpellsAll words cs ∧ (∀ c ∈ cs, c.isTerminator = false) ∧
      r.rest = words ++ rest ∧ rest ≠ [] ∧ decode rest = .error f ∧
      e = .stream r'.position f.defect ∧ r' = ⟨r.size, rest.drop f.taken⟩ := by
  fun_induction readOnto done r with
  | case1 => cases h
  | case2 done r hend e₁ r₁ hnext =>
    cases h
    obtain ⟨f, hdecode, he, hr⟩ := next_eq_error hnext
    have hne : r.rest ≠ [] := by simpa [atEnd] using hend
    exact ⟨[], [], r.rest, f, .nil, by simp, rfl, hne, hdecode, he, hr⟩
  | case3 => cases h
  | case4 done r hend c r₁ hnext hc ih =>
    obtain ⟨word, hword, hrest, hsize⟩ := next_eq_ok_iff.mp hnext
    obtain ⟨words, cs, rest, f, hwords, hcs, hrest', hne, hdecode, he, hr⟩ := ih h
    refine ⟨word ++ words, c :: cs, rest, f, .cons hword hwords, ?_, ?_, hne, hdecode, he,
      hsize ▸ hr⟩
    · exact List.forall_mem_cons.mpr ⟨by simpa using hc, hcs⟩
    · rw [hrest, hrest', List.append_assoc]

/-- **A channel is read exactly from the words of its commands**, and what follows them is left. -/
theorem readAll_eq_ok_iff {size : Nat} {bytes : List UInt8} {cs : List Command} {r : Reader} :
    readAll ⟨size, bytes⟩ = .ok cs r ↔
      ∃ words rest, SpellsAll words cs ∧ Complete cs rest ∧ bytes = words ++ rest ∧
        r = ⟨size, rest⟩ := by
  constructor
  · intro h
    obtain ⟨words, read, hwords, hcomplete, hcs, hrest, hsize⟩ := readOnto_eq_ok h
    obtain rfl : cs = read := by simpa using hcs
    refine ⟨words, r.rest, hwords, hcomplete, hrest, ?_⟩
    rw [← show r.size = size from hsize]
  · rintro ⟨words, rest, hwords, hcomplete, rfl, rfl⟩
    exact readOnto_of_spells hwords hcomplete #[] size

/-- Before the bytes that are left stand those that were read. -/
theorem position_append (bytes rest : List UInt8) :
    position ⟨(bytes ++ rest).length, rest⟩ = bytes.length := by
  simp [position]

end Reader

open Command

/-- **A reader accepts exactly the grammar, and is safe on any bytes.**  A channel is read from some
bytes exactly if the words of its commands stand at their front, the last of which ends the channel
unless nothing follows.  Then no earlier one does, the reader stands right after the words, and if
the last one ends the channel it does not matter what follows.

Otherwise some words that do not end the channel are followed by bytes with which no word begins.
The error gives the position of the reader, at most two bytes further on and within the data.  Each
command that is read moves the reader on, and not past the end. -/
theorem readAll_accepts (data : List UInt8) :
    (∀ cs r, Reader.readAll (.ofBytes data) = .ok cs r ↔
      ∃ words rest, SpellsAll words cs ∧ Complete cs rest ∧ data = words ++ rest ∧
        r = ⟨data.length, rest⟩) ∧
    (∀ cs r, Reader.readAll (.ofBytes data) = .ok cs r →
      cs.length ≤ r.position ∧ r.position ≤ data.length ∧
      ((∃ c ∈ cs, c.isTerminator = true) → ∀ tail, ∃ r',
        Reader.readAll (.ofBytes (data.take r.position ++ tail)) = .ok cs r' ∧
          r'.position = r.position)) ∧
    (∀ e r, Reader.readAll (.ofBytes data) = .error e r →
      ∃ words cs rest defect, SpellsAll words cs ∧ (∀ c ∈ cs, c.isTerminator = false) ∧
        data = words ++ rest ∧ rest ≠ [] ∧
        (∀ word c tail, Spells word c → rest ≠ word ++ tail) ∧
        e = .stream r.position defect ∧
        words.length ≤ r.position ∧ r.position ≤ min (words.length + 2) data.length) ∧
    ∀ before rest c r, data = before ++ rest → Reader.next ⟨data.length, rest⟩ = .ok c r →
      before.length + 1 ≤ r.position ∧ r.position ≤ data.length := by
  refine ⟨fun cs r => Reader.readAll_eq_ok_iff, ?_, ?_, ?_⟩
  · intro cs r h
    obtain ⟨words, rest, hwords, hcomplete, rfl, rfl⟩ := Reader.readAll_eq_ok_iff.mp h
    rw [Reader.position_append]
    refine ⟨hwords.length_le, by simp, fun hterm tail => ?_⟩
    refine ⟨⟨(words ++ tail).length, tail⟩, ?_, Reader.position_append _ _⟩
    rw [List.take_left]
    exact Reader.readAll_eq_ok_iff.mpr ⟨words, tail, hwords, hcomplete.congr hterm, rfl, rfl⟩
  · intro e r h
    obtain ⟨words, cs, rest, f, hwords, hopen, hdata, hne, hdecode, he, rfl⟩ :=
      Reader.readOnto_eq_error h
    obtain ⟨htwo, hrest⟩ := taken_le hdecode
    replace hdata : data = words ++ rest := hdata
    subst hdata
    have hposition : Reader.position ⟨(words ++ rest).length, rest.drop f.taken⟩ =
        words.length + f.taken := by
      simp only [Reader.position, List.length_append, List.length_drop]
      omega
    refine ⟨words, cs, rest, f.defect, hwords, hopen, rfl, hne, ?_, he, ?_, ?_⟩
    · rintro word c tail hword rfl
      rw [decode_of_spells hword] at hdecode
      cases hdecode
    · exact hposition ▸ Nat.le_add_right _ _
    · refine hposition ▸ Nat.le_min.mpr ⟨?_, ?_⟩
      · omega
      · rw [List.length_append]
        omega
  · rintro before rest c r rfl hnext
    obtain ⟨word, hword, hrest, hsize⟩ := Reader.next_eq_ok_iff.mp hnext
    have hpos := hword.length_pos
    have hlength : rest.length = word.length + r.rest.length := by
      rw [show rest = word ++ r.rest from hrest, List.length_append]
    replace hsize : r.size = before.length + rest.length := by
      rw [← List.length_append]
      exact hsize
    rw [Reader.position, List.length_append]
    omega

/-- Behind two notes no effect has the number fourteen; the reader has taken its byte. -/
theorem readAll_accepts_unknownEffect :
    Reader.readAll (.ofBytes [0x82, 0x01, 0x00, 0x12, 0xF0, 0x0E, 0xFF]) =
      .error (.stream 6 (.unknownEffect 0x0E)) ⟨7, [0xFF]⟩ ∧
    ∃ words cs rest defect, SpellsAll words cs ∧ (∀ c ∈ cs, c.isTerminator = false) ∧
      [0x82, 0x01, 0x00, 0x12, 0xF0, 0x0E, 0xFF] = words ++ rest ∧ rest ≠ [] ∧
      (∀ word c tail, Spells word c → rest ≠ word ++ tail) ∧
      Error.stream 6 (.unknownEffect 0x0E) = .stream 6 defect ∧
      words.length ≤ 6 ∧ 6 ≤ min (words.length + 2) 7 := by
  have hshort : Reader.next ⟨7, [0x82, 0x01, 0x00, 0x12, 0xF0, 0x0E, 0xFF]⟩ =
      .ok (.noteShort 2) ⟨7, [0x01, 0x00, 0x12, 0xF0, 0x0E, 0xFF]⟩ := rfl
  have hnote : Reader.next ⟨7, [0x01, 0x00, 0x12, 0xF0, 0x0E, 0xFF]⟩ =
      .ok (.note 1 18) ⟨7, [0xF0, 0x0E, 0xFF]⟩ := rfl
  have hread : Reader.readAll (.ofBytes [0x82, 0x01, 0x00, 0x12, 0xF0, 0x0E, 0xFF]) =
      .error (.stream 6 (.unknownEffect 0x0E)) ⟨7, [0xFF]⟩ := by
    refine (Reader.readOnto_of_next hshort).trans ((Reader.readOnto_of_next hnote).trans ?_)
    rw [if_neg (by decide), Reader.readOnto]
    rfl
  exact ⟨hread, (readAll_accepts _).2.2.1 _ _ hread⟩

end Chiptune
