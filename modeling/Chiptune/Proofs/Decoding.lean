import Chiptune.Proofs.RoundTrip

/-!
# Decoding undoes encoding

The bytes of a list of commands determine the list.  No command's bytes begin those of another
one, so a reader that takes as many commands as the list has gets the list, whatever bytes come
after it, and two lists with the same bytes are the same.

Reading a channel stops at the first command that ends it.  What it gives is the list up to and
with that command.

## Main definitions

* `Command.cut` — the commands up to and with the first that ends the channel.
* `Reader.nextN` — reads some number of commands.

## Main results

* `Command.encode_append_inj` — no command's bytes begin those of another one.
* `Reader.nextN_encodeAll` — the commands of a list are read one after the other.
* `reads_encodeAll` — what is read from the bytes of a list of commands, and that they determine it.
-/

namespace Chiptune

namespace Command

/-- The commands up to and with the first that ends the channel. -/
def cut : List Command → List Command
  | [] => []
  | c :: cs => if c.isTerminator then [c] else c :: cut cs

/-- The first command that ends the channel is the last of those that are left. -/
theorem exists_cut {cs : List Command} (h : ∃ c ∈ cs, c.isTerminator = true) :
    ∃ before last after, cs = before ++ last :: after ∧ cut cs = before ++ [last] ∧
      (∀ c ∈ before, c.isTerminator = false) ∧ last.isTerminator = true := by
  induction cs with
  | nil =>
    obtain ⟨c, hc, -⟩ := h
    cases hc
  | cons c cs ih =>
    cases hterm : c.isTerminator with
    | true => exact ⟨[], c, cs, rfl, by simp [cut, hterm], by simp, hterm⟩
    | false =>
      have hrest : ∃ c ∈ cs, c.isTerminator = true := by
        obtain ⟨c', hc', hterm'⟩ := h
        rcases List.mem_cons.mp hc' with rfl | hc'
        · rw [hterm] at hterm'
          cases hterm'
        · exact ⟨c', hc', hterm'⟩
      obtain ⟨before, last, after, rfl, hcut, hbefore, hlast⟩ := ih hrest
      refine ⟨c :: before, last, after, rfl, ?_, ?_, hlast⟩
      · simp [cut, hterm, hcut]
      · exact List.forall_mem_cons.mpr ⟨hterm, hbefore⟩

variable {clock : FrameClock}

/-! ### The bytes determine the commands -/

theorem encode_ne_nil {c : Command} (h : c.Fits (maxLength clock.scale)) :
    c.encode clock.scale ≠ [] := by
  intro hnil
  have hdecode := decode_encode h []
  rw [hnil] at hdecode
  cases hdecode

/-- **No command's bytes begin those of another one.** -/
theorem encode_append_inj {c c' : Command} {tail tail' : List UInt8}
    (h : c.Fits (maxLength clock.scale)) (h' : c'.Fits (maxLength clock.scale))
    (heq : c.encode clock.scale ++ tail = c'.encode clock.scale ++ tail') :
    c = c' ∧ tail = tail' := by
  have hdecode := decode_encode h tail
  rw [heq, decode_encode h' tail'] at hdecode
  cases hdecode
  exact ⟨rfl, rfl⟩

theorem encodeAll_inj : ∀ {cs cs' : List Command}, (∀ c ∈ cs, c.Fits (maxLength clock.scale)) →
    (∀ c ∈ cs', c.Fits (maxLength clock.scale)) →
    encodeAll clock.scale cs = encodeAll clock.scale cs' → cs = cs' := by
  intro cs
  induction cs with
  | nil =>
    intro cs' _ h' heq
    cases cs' with
    | nil => rfl
    | cons c' cs' =>
      rw [encodeAll_nil, encodeAll_cons] at heq
      exact absurd (List.append_eq_nil_iff.mp heq.symm).1 (encode_ne_nil (h' c' (by simp)))
  | cons c cs ih =>
    intro cs' h h' heq
    cases cs' with
    | nil =>
      rw [encodeAll_nil, encodeAll_cons] at heq
      exact absurd (List.append_eq_nil_iff.mp heq).1 (encode_ne_nil (h c (by simp)))
    | cons c' cs' =>
      rw [List.forall_mem_cons] at h h'
      rw [encodeAll_cons, encodeAll_cons] at heq
      obtain ⟨rfl, htail⟩ := encode_append_inj h.1 h'.1 heq
      rw [ih h.2 h'.2 htail]

end Command

/-! ### Reading -/

namespace Reader

open Command

variable {clock : FrameClock}

/-- Reads some number of commands, also past the ends of channels. -/
def nextN : Nat → EStateM Error Reader (List Command)
  | 0 => pure []
  | n + 1 => do
    let c ← next
    let cs ← nextN n
    return c :: cs

/-- **The commands of a list are read one after the other**, and what follows them is left. -/
theorem nextN_encodeAll {cs : List Command} (h : ∀ c ∈ cs, c.Fits (maxLength clock.scale))
    (size : Nat) (tail : List UInt8) :
    nextN cs.length ⟨size, encodeAll clock.scale cs ++ tail⟩ = .ok cs ⟨size, tail⟩ := by
  induction cs with
  | nil => rfl
  | cons c cs ih =>
    rw [List.forall_mem_cons] at h
    have hnext := next_encode h.1 size (encodeAll clock.scale cs ++ tail)
    rw [encodeAll_cons, List.append_assoc]
    simp only [List.length_cons, nextN, bind, EStateM.bind, hnext, ih h.2]
    rfl

/-- Reading stops after the first command that ends the channel, whatever follows it. -/
theorem readAll_cut {cs : List Command} (h : ∀ c ∈ cs, c.Fits (maxLength clock.scale))
    (hterm : ∃ c ∈ cs, c.isTerminator = true) (tail : List UInt8) :
    ∃ rest, encodeAll clock.scale cs ++ tail = encodeAll clock.scale (cut cs) ++ rest ∧
      ∀ size, readAll ⟨size, encodeAll clock.scale cs ++ tail⟩ = .ok (cut cs) ⟨size, rest⟩ := by
  obtain ⟨before, last, after, rfl, hcut, hbefore, hlast⟩ := exists_cut hterm
  have hsplit : encodeAll clock.scale (before ++ last :: after) ++ tail =
      encodeAll clock.scale (before ++ [last]) ++ (encodeAll clock.scale after ++ tail) := by
    simp
  rw [hcut, hsplit]
  refine ⟨_, rfl, fun size => readAll_encodeAll size _ ?_ (h last (by simp)) hlast⟩
  intro c hc
  exact ⟨h c (by simp [hc]), hbefore c hc⟩

/-- Without such a command, reading goes on to the end of the data. -/
theorem readAll_unended {cs : List Command}
    (h : ∀ c ∈ cs, c.Fits (maxLength clock.scale) ∧ c.isTerminator = false) (size : Nat) :
    readAll ⟨size, encodeAll clock.scale cs⟩ = .ok cs ⟨size, []⟩ := by
  refine readAll_eq_ok_iff.mpr
    ⟨_, [], spellsAll_encodeAll fun c hc => (h c hc).1, ⟨?_, .inl rfl⟩, by simp, rfl⟩
  exact fun c hc => (h c (List.mem_of_mem_dropLast hc)).2

end Reader

open Command

/-- **Decoding undoes encoding.**  From the bytes of some commands that a stream can carry, with any
bytes after them, as many commands are read as there are, and they are the ones that were written;
the reader then stands right after their bytes.  Reading a whole channel gives the commands up to
the first that ends it, wherever that is and whatever follows it, and all of them if none does and
nothing follows.  So no other commands have the same bytes. -/
theorem reads_encodeAll (clock : FrameClock) {cs : List Command}
    (hfits : ∀ c ∈ cs, c.Fits (maxLength clock.scale)) :
    (∀ tail, ∃ r,
      Reader.nextN cs.length (.ofBytes (encodeAll clock.scale cs ++ tail)) = .ok cs r ∧
        r.rest = tail ∧ r.position = (encodeAll clock.scale cs).length) ∧
    ((∃ c ∈ cs, c.isTerminator = true) → ∀ tail, ∃ r,
      Reader.readAll (.ofBytes (encodeAll clock.scale cs ++ tail)) = .ok (cut cs) r ∧
        r.position = (encodeAll clock.scale (cut cs)).length) ∧
    ((∀ c ∈ cs, c.isTerminator = false) → ∃ r,
      Reader.readAll (.ofBytes (encodeAll clock.scale cs)) = .ok cs r ∧
        r.position = (encodeAll clock.scale cs).length) ∧
    ∀ cs', (∀ c ∈ cs', c.Fits (maxLength clock.scale)) →
      encodeAll clock.scale cs' = encodeAll clock.scale cs → cs' = cs := by
  refine ⟨?_, ?_, ?_, ?_⟩
  · intro tail
    exact ⟨_, Reader.nextN_encodeAll hfits _ tail, rfl, Reader.position_append _ _⟩
  · intro hterm tail
    obtain ⟨rest, hsplit, hread⟩ := Reader.readAll_cut hfits hterm tail
    refine ⟨_, hread _, ?_⟩
    rw [hsplit]
    exact Reader.position_append _ _
  · intro hopen
    refine ⟨_, Reader.readAll_unended (fun c hc => ⟨hfits c hc, hopen c hc⟩) _, ?_⟩
    simp [Reader.position]
  · intro cs' hfits' heq
    exact encodeAll_inj hfits' hfits heq

/-- Delays at both ends of their range, each form of a note, and a jump before the end of the
stream. -/
theorem reads_encodeAll_jump :
    ∃ r, Reader.readAll (.ofBytes (encodeAll (FrameClock.scale ⟨60, true⟩)
        [.octave 15, .note 11 4194303, .noteUp 0, .noteDown 11, .noteShort 3, .rest 0, .restShort,
          .wait 32512, .waitShort, .volume 255, .effectOn .pcmSample 0x85, .effectOff .arpeggio,
          .jump 0xABCD, .note 0 32513, .stop] ++ [0xFE, 0x0B])) =
        .ok [.octave 15, .note 11 4194303, .noteUp 0, .noteDown 11, .noteShort 3, .rest 0,
          .restShort, .wait 32512, .waitShort, .volume 255, .effectOn .pcmSample 0x85,
          .effectOff .arpeggio, .jump 0xABCD] r ∧
      r.position = 25 := by
  have hread := (@reads_encodeAll ⟨60, true⟩
    [.octave 15, .note 11 4194303, .noteUp 0, .noteDown 11, .noteShort 3, .rest 0, .restShort,
      .wait 32512, .waitShort, .volume 255, .effectOn .pcmSample 0x85, .effectOff .arpeggio,
      .jump 0xABCD, .note 0 32513, .stop]
    (by simp [Fits, maxLength, FrameClock.scale])).2.1
  exact hread ⟨.stop, by simp, rfl⟩ [0xFE, 0x0B]

end Chiptune
