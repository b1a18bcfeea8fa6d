import Chiptune.Proofs.Definitions
import Chiptune.Proofs.Provenance
import Mathlib.Data.List.Forall2

/-!
# Tables hold the macros of the script

The output has a table for each effect with definitions.  In it are the macros under all keys, or
only those that are selected somewhere, in the order of the keys.  On the way from a definition to
its table the parameters change at most once: where the platform wants the macros of an effect as
records, they are packed at the end.

So it is enough to know what is packed, and by which layout.  Everything else is stored as it was
defined: a symbol as itself, and a number as the byte that is congruent to it.

## Main definitions

* `Platform.recordOf?` — which macros a platform wants as records, and for which chip.
* `Platform.Forms` — the form in which a platform wants some parameters.
* `Cell.Shows`, `TableEntry.Shows` — what is in a table for a parameter, and for a macro.

## Main results

* `Platform.packMacros_forms`, `composeSong_forms` — packing gives each macro its form and leaves it
  under its key.
* `MacroTable.mem_keys_of_forms`, `MacroTable.shows_of_forms` — the keys and the macros of a table.
* `Output.binarySize_of_build` — the size of an output is that of its voices.
* `compile_tables` — tables hold the macros of the script.
-/

namespace Chiptune

/-! ### Packing -/

namespace Registry

theorem seq?_eq_find? (r : Registry) (key : Nat) :
    r.seq? key = (r.seqs.find? (·.1 = key)).map (·.2) := by
  rw [seq?, get?, Keyed.find?, Option.map_map, seqs, List.find?_map, Option.map_map]
  rfl

theorem isEmpty_eq_false_iff {r : Registry} :
    r.entries.isEmpty = false ↔ ∃ key m, r.get? key = some m := by
  constructor
  · intro h
    cases hentries : r.entries.toList with
    | nil => simp [Keyed.isEmpty, hentries] at h
    | cons x xs => exact ⟨x.1, x.2, by simp [get?, Keyed.find?, hentries]⟩
  · rintro ⟨key, m, hm⟩
    cases hentries : r.entries.toList with
    | nil => simp [get?, Keyed.find?, hentries] at hm
    | cons x xs => simp [Keyed.isEmpty, hentries]

/-- Where parameters are related under a key, there are macros on both sides or on none. -/
theorem exists_of_rel {R : ParamSeq → ParamSeq → Prop} {r r' : Registry} {key : Nat}
    (h : Option.Rel R (r.seq? key) (r'.seq? key)) :
    (∀ m, r.get? key = some m → ∃ m', r'.get? key = some m' ∧ R m.seq m'.seq) ∧
      ∀ m', r'.get? key = some m' → ∃ m, r.get? key = some m ∧ R m.seq m'.seq := by
  unfold seq? at h
  cases hm : r.get? key with
  | none =>
    cases hm' : r'.get? key with
    | none => exact ⟨(fun m hm => nomatch hm), (fun m' hm' => nomatch hm')⟩
    | some m' => rw [hm, hm'] at h; cases h
  | some m =>
    cases hm' : r'.get? key with
    | none => rw [hm, hm'] at h; cases h
    | some m' =>
      rw [hm, hm'] at h
      cases h with
      | some hR =>
        constructor
        · rintro m₁ ⟨⟩
          exact ⟨m', rfl, hR⟩
        · rintro m₁ ⟨⟩
          exact ⟨m, rfl, hR⟩

end Registry

/-- Where each of some effects is packed once, the others keep their macros. -/
theorem Session.packEach_eq_ok :
    ∀ {fs : List (Effect × (ParamSeq → Except Error ParamSeq))} {s s' : Session},
      (fs.map (·.1)).Nodup →
      (fs.forM fun x => onMacros x.1 (Registry.pack x.2)) s = .ok () s' → ∀ e,
        (e ∉ fs.map (·.1) → s'.macros.get e = s.macros.get e) ∧
          ∀ f, (e, f) ∈ fs → Registry.pack f (s.macros.get e) = .ok () (s'.macros.get e) := by
  intro fs
  induction fs with
  | nil =>
    intro s s' _ h e
    cases h
    exact ⟨fun _ => rfl, fun f hf => nomatch hf⟩
  | cons x fs ih =>
    obtain ⟨e₀, f₀⟩ := x
    intro s s' hnodup h e
    obtain ⟨hx, hnodup⟩ := List.nodup_cons.mp hnodup
    obtain ⟨s₁, hfirst, hrest⟩ := forM_cons_eq_ok h
    obtain ⟨r, hpack, rfl⟩ := onMacros_eq_ok hfirst
    obtain ⟨hother, hpacked⟩ := ih hnodup hrest e
    simp only [MacroBank.get_set] at hother hpacked
    by_cases he : e₀ = e
    · subst he
      rw [if_pos rfl] at hother
      refine ⟨fun hmem => absurd List.mem_cons_self hmem, fun f hf => ?_⟩
      rcases List.mem_cons.mp hf with heq | hf
      · cases heq
        rw [hother hx]
        exact hpack
      · exact absurd (List.mem_map_of_mem hf) hx
    · rw [if_neg he] at hother hpacked
      refine ⟨fun hmem => hother fun hmem' => hmem (List.mem_cons_of_mem _ hmem'), fun f hf => ?_⟩
      rcases List.mem_cons.mp hf with heq | hf
      · cases heq
        exact absurd rfl he
      · exact hpacked f hf

theorem checkWaveform_eq_ok {chip : Chip} {s s' : ParamSeq} (h : checkWaveform chip s = .ok s') :
    s' = s := by
  unfold checkWaveform at h
  split at h
  · obtain ⟨samples, -, h⟩ := exceptBind_eq_ok h
    cases h
    rfl
  · cases h

namespace Platform

/-- The record that a platform makes of the macros of an effect, and the chip that it is for. -/
def recordOf? : Platform → Effect → Option (Chip × Record)
  | sms, .adsr => some (.ym2413, .adsr)
  | genesis, .adsr => some (.ym2612, .adsr)
  | genesis, .modulation => some (.ym2612, .modulation)
  | x68000, .adsr => some (.ym2151, .adsr)
  | x68000, .modulation => some (.ym2151, .modulation)
  | c64, .adsr => some (.sid, .adsr)
  | _, _ => none

/-- The form in which a platform wants parameters: as a record, or as they are. -/
def Forms (p : Platform) (e : Effect) (s s' : ParamSeq) : Prop :=
  match p.recordOf? e with
  | some (chip, record) => Record.packSeq chip record s = .ok s'
  | none => s' = s

theorem nodup_packings (p : Platform) : (p.packings.map (·.1)).Nodup := by
  cases p <;> decide

/-- What a platform does with the macros of an effect: it makes records of them, or only looks at
them, or leaves them alone. -/
theorem packings_cases (p : Platform) (e : Effect) :
    (∃ chip record, p.recordOf? e = some (chip, record) ∧
        (e, Record.packSeq chip record) ∈ p.packings) ∨
      (∃ chip, p.recordOf? e = none ∧ (e, checkWaveform chip) ∈ p.packings) ∨
      (p.recordOf? e = none ∧ e ∉ p.packings.map (·.1)) := by
  cases p <;> cases e <;> simp [packings, recordOf?]

/-- **Packing gives each macro its form**, and leaves it under its key. -/
theorem packMacros_forms {p : Platform} {s s' : Session} (h : p.packMacros s = .ok () s')
    (e : Effect) (key : Nat) :
    Option.Rel (p.Forms e) ((s.macros.get e).seq? key) ((s'.macros.get e).seq? key) := by
  obtain ⟨hother, hpacked⟩ := Session.packEach_eq_ok p.nodup_packings h e
  unfold Forms
  rcases p.packings_cases e with ⟨chip, record, hrecord, hmem⟩ | ⟨chip, hnone, hmem⟩ | ⟨hnone, hmem⟩
  · rw [hrecord]
    exact Registry.pack_eq_ok (hpacked _ hmem) key
  · rw [hnone]
    have hform := Registry.pack_eq_ok (hpacked _ hmem) key
    generalize (s.macros.get e).seq? key = x at hform ⊢
    generalize (s'.macros.get e).seq? key = y at hform ⊢
    cases hform with
    | none => exact .none
    | some hform => exact .some (checkWaveform_eq_ok hform)
  · rw [hnone, hother hmem]
    cases (s.macros.get e).seq? key with
    | none => exact .none
    | some q => exact .some rfl

end Platform

/-- **The macros of a song get their form**, and stay under their keys. -/
theorem composeSong_forms {target : Platform} {script : Script} {song song' : Song}
    {s s' : Session} (h : composeSong target script (song, s) = .ok () (song', s')) (e : Effect)
    (key : Nat) :
    Option.Rel (target.Forms e) ((s.macros.get e).seq? key) ((s'.macros.get e).seq? key) := by
  obtain ⟨-, s₁, hseqs, hpack⟩ := composeSong_steady h
  have hseqs : (s₁.macros.get e).seqs = (s.macros.get e).seqs := congrFun hseqs e
  rw [Registry.seq?_eq_find? (s.macros.get e), ← hseqs, ← Registry.seq?_eq_find?]
  exact Platform.packMacros_forms hpack e key

/-! ### Definitions -/

/-- Parameters are in force for an effect exactly if there is a definition for it. -/
theorem exists_inForce?_placements {ds : List MacroDef} {e : Effect} :
    (∃ key s, Placed.inForce? (placements ds) e key = some s) ↔ ∃ d ∈ ds, d.effect = e := by
  constructor
  · rintro ⟨key, s, hs⟩
    obtain ⟨d, hlast, -⟩ := Option.map_eq_some_iff.mp hs
    have hd := List.mem_of_getLast? hlast
    obtain ⟨p, hp, rfl⟩ := List.mem_map.mp hd
    exact ⟨p.source, mem_of_mem_under_placements hd,
      (of_decide_eq_true (List.mem_filter.mp hp).2).1⟩
  · rintro ⟨d, hd, rfl⟩
    obtain ⟨before, after, rfl⟩ := List.append_of_mem hd
    have hmem := mem_under_placements before d after
    refine ⟨Placed.keyFor (placements before) d, (List.getLast _ (List.ne_nil_of_mem hmem)).seq, ?_⟩
    rw [Placed.inForce?, List.getLast?_eq_some_getLast (List.ne_nil_of_mem hmem), Option.map_some]

/-! ### Entries of a table -/

/-- A parameter in a table: a symbol is itself, and a number of a byte is the byte congruent to it,
with or without a sign. -/
def Cell.Shows : Cell → Param → Prop
  | symbol name, .text text => name = text
  | byte b, .int n => -128 ≤ n ∧ n ≤ 255 ∧ (b.toNat : Int) = n % 256
  | _, _ => False

/-- A macro in a table, on a platform: the bytes of its record, or its parameters one by one. -/
def TableEntry.Shows (p : Platform) (e : Effect) (s : ParamSeq) (entry : TableEntry) : Prop :=
  match p.recordOf? e with
  | some (chip, record) =>
    s.loop = [] ∧ entry.loop = [] ∧
      ∃ bytes, Record.pack chip record s.main = .ok bytes ∧ entry.main = bytes.map .byte
  | none =>
    List.Forall₂ Cell.Shows entry.main s.main ∧ List.Forall₂ Cell.Shows entry.loop s.loop

theorem Cell.shows_of_ofParam {e : Effect} {key : Nat} {param : Param} {cell : Cell}
    (h : ofParam e key param = .ok cell) : cell.Shows param := by
  cases param with
  | text text =>
    cases h
    rfl
  | int n =>
    simp only [ofParam] at h
    split at h
    · next hn =>
      cases h
      refine ⟨hn.1, hn.2, ?_⟩
      have hlt : n % 256 < 256 := Int.emod_lt_of_pos n (by decide)
      have hpos : 0 ≤ n % 256 := Int.emod_nonneg n (by decide)
      simp [UInt8.ofInt]
      omega
    · cases h

/-- A byte in a table is stored as it is. -/
theorem Cell.Shows.eq_byte {cell : Cell} {b : UInt8} (h : cell.Shows (.int b.toNat)) :
    cell = .byte b := by
  cases cell with
  | symbol name => exact h.elim
  | byte b' =>
    obtain ⟨-, -, h⟩ := h
    have hlt := b.toNat_lt
    have hnat : b'.toNat = b.toNat := by omega
    rw [UInt8.toNat_inj.mp hnat]

namespace TableEntry

theorem shows_of_part {e : Effect} {key : Nat} {params : List Param} {cells : List Cell}
    (h : part e key params = .ok cells) : List.Forall₂ Cell.Shows cells params := by
  unfold part at h
  split at h
  · cases h
  · have hmap : cells.map .ok = params.map (Cell.ofParam e key) :=
      map_of_mapM h fun _ _ _ hcell => hcell.symm
    have hcells : List.Forall₂ (· = ·) (cells.map .ok) (params.map (Cell.ofParam e key)) := by
      rw [hmap]
      exact List.forall₂_refl _
    have hcells := List.forall₂_map_right_iff.mp (List.forall₂_map_left_iff.mp hcells)
    exact hcells.imp fun cell param hcell => Cell.shows_of_ofParam hcell.symm

variable {p : Platform} {e : Effect} {m : Macro} {entry : TableEntry} {s : ParamSeq}

/-- A macro that has its form is in the table with it. -/
theorem shows_of_ofMacro (h : ofMacro e m = .ok entry) (hform : p.Forms e s m.seq) :
    entry.refCount = m.refCount ∧ entry.Shows p e s := by
  obtain ⟨main, hmain, h⟩ := exceptBind_eq_ok h
  obtain ⟨loop, hloop, h⟩ := exceptBind_eq_ok h
  cases h
  refine ⟨rfl, ?_⟩
  have hmain := shows_of_part hmain
  have hloop := shows_of_part hloop
  unfold Platform.Forms at hform
  unfold Shows
  cases hrecord : p.recordOf? e with
  | none =>
    rw [hrecord] at hform
    rw [← hform]
    exact ⟨hmain, hloop⟩
  | some layout =>
    obtain ⟨chip, record⟩ := layout
    rw [hrecord] at hform
    replace hform : Record.packSeq chip record s = .ok m.seq := hform
    unfold Record.packSeq at hform
    split at hform
    · next hempty =>
      obtain ⟨bytes, hbytes, hseq⟩ := exceptBind_eq_ok hform
      replace hseq : ⟨bytes.map fun b => .int b.toNat, []⟩ = m.seq := Except.ok.inj hseq
      rw [← hseq] at hmain hloop
      refine ⟨List.isEmpty_iff.mp hempty, List.forall₂_nil_right_iff.mp hloop, bytes, hbytes, ?_⟩
      -- the bytes of the record are numbers of a byte
      have hcells : List.Forall₂ (fun cell b => cell = .byte b) main bytes :=
        (List.forall₂_map_right_iff.mp hmain).imp fun _ _ hcell => hcell.eq_byte
      have hcells : List.Forall₂ (· = ·) main (bytes.map .byte) :=
        List.forall₂_map_right_iff.mpr hcells
      rwa [List.forall₂_eq_eq_eq] at hcells
    · obtain ⟨n, -, hform⟩ := exceptBind_eq_ok hform
      cases hform

end TableEntry

namespace MacroTable

variable {p : Platform} {e : Effect} {skip : Bool} {r r' : Registry} {t : MacroTable}

/-- The keys of a table are those of the definitions, or those that are selected too. -/
theorem mem_keys_of_forms (h : ofRegistry skip r' = .ok t) (htidy : r'.Tidy e)
    (hforms : ∀ key, Option.Rel (p.Forms e) (r.seq? key) (r'.seq? key)) {key : Nat} :
    key ∈ t.entries.map (·.key) ↔
      (∃ m, r.get? key = some m) ∧ (skip = true → 0 < r'.refCount key) := by
  obtain ⟨hleft, hright⟩ := Registry.exists_of_rel (hforms key)
  have hcount : ∀ m, r'.get? key = some m → r'.refCount key = m.refCount := by
    intro m hm
    rw [Registry.refCount, hm]
    rfl
  rw [mem_keys_iff h htidy]
  constructor
  · rintro ⟨m, hm, hused⟩
    obtain ⟨m₁, hm₁, -⟩ := hright m hm
    refine ⟨⟨m₁, hm₁⟩, fun hskip => ?_⟩
    rw [hcount m hm]
    exact Nat.pos_of_ne_zero (hused hskip)
  · rintro ⟨⟨m₁, hm₁⟩, hused⟩
    obtain ⟨m, hm, -⟩ := hleft m₁ hm₁
    rw [hcount m hm] at hused
    exact ⟨m, hm, fun hskip => Nat.ne_of_gt (hused hskip)⟩

/-- In a table is what was defined under each key, in its form. -/
theorem shows_of_forms (h : ofRegistry skip r' = .ok t) (htidy : r'.Tidy e)
    (hforms : ∀ key, Option.Rel (p.Forms e) (r.seq? key) (r'.seq? key)) {entry : TableEntry}
    (hentry : entry ∈ t.entries) :
    entry.refCount = r'.refCount entry.key ∧
      ∃ m, r.get? entry.key = some m ∧ entry.Shows p e m.seq := by
  obtain ⟨x, hx, hmacro⟩ := exists_of_mem_entries h hentry
  have hm : r'.get? x.1 = some x.2 := (Keyed.mem_toList_iff htidy.ordered).mp hx
  obtain ⟨m, hm₁, hform⟩ := (Registry.exists_of_rel (hforms x.1)).2 x.2 hm
  rw [htidy.effect] at hmacro
  obtain ⟨hcount, hshows⟩ := TableEntry.shows_of_ofMacro hmacro hform
  rw [TableEntry.key_of_ofMacro hmacro, htidy.own_key x hx, hcount, Registry.refCount, hm]
  exact ⟨rfl, m, hm₁, hshows⟩

end MacroTable

/-! ### Outputs -/

/-- The effects with macros are those with definitions. -/
theorem isEmpty_of_forms {p : Platform} {ds : List MacroDef} {e : Effect} {r r' : Registry}
    (hafter : r.After (placements ds) e)
    (hforms : ∀ key, Option.Rel (p.Forms e) (r.seq? key) (r'.seq? key)) :
    (!r'.entries.isEmpty) = ds.any (·.effect = e) := by
  rw [Bool.eq_iff_iff, Bool.not_eq_true', Registry.isEmpty_eq_false_iff, List.any_eq_true]
  simp only [decide_eq_true_eq]
  rw [← exists_inForce?_placements]
  constructor
  · rintro ⟨key, m, hm⟩
    obtain ⟨m₁, hm₁, -⟩ := (Registry.exists_of_rel (hforms key)).2 m hm
    exact ⟨key, m₁.seq, by rw [← hafter.inForce? key, hm₁, Option.map_some]⟩
  · rintro ⟨key, q, hq⟩
    rw [← hafter.inForce? key] at hq
    obtain ⟨m₁, hm₁, -⟩ := Option.map_eq_some_iff.mp hq
    obtain ⟨m, hm, -⟩ := (Registry.exists_of_rel (hforms key)).1 m₁ hm₁
    exact ⟨key, m, hm⟩

namespace Output

variable {p : Platform} {song : Song} {s : Session} {o : Output}

/-- There is a table for each effect with macros, in the order of the effects. -/
theorem effects_of_build (h : build p song s = .ok o) (htidy : s.Tidy) :
    o.tables.map (·.effect) = Effect.all.filter fun e => !(s.macros.get e).entries.isEmpty := by
  have heffects : o.tables.map (·.effect) =
      (s.macros.toList.filter fun r => !r.entries.isEmpty).map (·.effect) :=
    map_of_mapM (build_eq_ok h).2 fun r _ t ht => MacroTable.effect_of_ofRegistry ht
  rw [heffects, MacroBank.toList_eq, List.filter_map, List.map_map]
  refine (List.map_congr_left fun e _ => ?_).trans (List.map_id _)
  exact (htidy e).effect

/-- **The size of an output is that of its voices.** -/
theorem binarySize_of_build (h : build p song s = .ok o)
    (hvoices : ∀ ch ∈ song.channels, ch.isVirtual = false) (hpattern : song.pattern.isVirtual) :
    o.binarySize = ((o.channels.filter (!·.isVirtual)).map (·.data.length)).sum := by
  have hsize : o.binarySize = song.binarySize := by
    obtain ⟨channels, -, h⟩ := exceptBind_eq_ok h
    obtain ⟨tables, -, h⟩ := exceptBind_eq_ok h
    cases h
    rfl
  have hstreams : o.channels.map (fun stream => (stream.isVirtual, stream.data.length)) =
      song.outputChannels.map fun ch => (ch.isVirtual, ch.data.size) := by
    refine map_of_mapM (build_eq_ok h).1 fun ch _ stream hstream => ?_
    obtain ⟨cs, -, hstream⟩ := exceptBind_eq_ok hstream
    cases hstream
    rfl
  -- the patterns are the only channel without a voice
  have hphysical : song.outputChannels.filter (!·.isVirtual) = song.channels := by
    have hkept : song.channels.filter (!·.isVirtual) = song.channels :=
      List.filter_eq_self.mpr fun ch hch => by simp [hvoices ch hch]
    unfold Song.outputChannels
    split
    · exact hkept
    · rw [List.filter_append, hkept, List.filter_cons_of_neg (by simp [hpattern]), List.filter_nil,
        List.append_nil]
  have hlengths := congrArg (fun xs => (xs.filter (!·.1)).map (·.2)) hstreams
  simp only [List.filter_map, List.map_map] at hlengths
  have hlengths : (o.channels.filter (!·.isVirtual)).map (·.data.length) =
      (song.outputChannels.filter (!·.isVirtual)).map (·.data.size) := hlengths
  rw [hsize, hlengths, hphysical, Song.binarySize, List.sum_eq_foldl]

end Output

/-! ### Compilations -/

/-- The voices of a song are those of its platform, and the patterns have none. -/
theorem composeSong_voices {target : Platform} {clock : FrameClock} {tempo : Nat} {script : Script}
    {song : Song} {s s' : Session}
    (h : composeSong target script (Song.new target clock tempo, s) = .ok () (song, s')) :
    (∀ ch ∈ song.channels, ch.isVirtual = false) ∧ song.pattern.isVirtual := by
  obtain ⟨hpattern, hvoices⟩ := List.cons.inj (composeSong_steady h).1
  constructor
  · intro ch hch
    have hmem : ch.seat ∈ (Song.new target clock tempo).channels.map (·.seat) := by
      rw [← hvoices]
      exact List.mem_map_of_mem hch
    obtain ⟨ch₀, hch₀, hseat⟩ := List.mem_map.mp hmem
    obtain ⟨v, -, rfl⟩ := List.mem_map.mp hch₀
    have hvoice : Voice.physical v.2 = ch.voice := congrArg Prod.snd hseat
    rw [Channel.isVirtual, ← hvoice]
    rfl
  · have hvoice : song.pattern.voice = .pattern := congrArg Prod.snd hpattern
    rw [Channel.isVirtual, hvoice]
    rfl

/-- **Tables hold the macros of the script.**  After the definitions each key has the parameters of
the last definition that got it.  The output has a table for each effect with definitions, in the
order of the effects.  In a table are all keys of its effect, or those that are selected, in order,
with the parameters under them: as a record where the platform wants one, and otherwise one by one.
The size of the output is that of the channels that have a voice. -/
theorem compile_tables {script : Script} {options : Options} {c : Compilation}
    (h : script.compile options = .ok c) :
    ∃ s₁ session,
      Session.defineMacros script.macros (.new (script.options.merge options)) = .ok () s₁ ∧
      script.compileIn (.new (script.options.merge options)) = .ok c.output session ∧
      (∀ e key, ((s₁.macros.get e).get? key).map Macro.seq =
        Placed.inForce? (placements script.macros) e key) ∧
      c.output.tables.map (·.effect) =
        Effect.all.filter (fun e => script.macros.any (·.effect = e)) ∧
      (∀ t ∈ c.output.tables,
        (t.entries.map (·.key)).Pairwise (· < ·) ∧
        (∀ key, key ∈ t.entries.map (·.key) ↔
          (∃ m, (s₁.macros.get t.effect).get? key = some m) ∧
            ((script.options.merge options).skipUnreferenced = true →
              0 < session.refCount t.effect key)) ∧
        ∀ entry ∈ t.entries, entry.refCount = session.refCount t.effect entry.key ∧
          ∃ m, (s₁.macros.get t.effect).get? entry.key = some m ∧
            entry.Shows (script.platform (script.options.merge options)) t.effect m.seq) ∧
      c.output.binarySize =
        ((c.output.channels.filter (!·.isVirtual)).map (·.data.length)).sum := by
  obtain ⟨session, hrun⟩ := Script.compile_eq_ok h
  obtain ⟨s₁, song, hdefine, hcompose, hbuild⟩ := Script.compileIn_eq_ok hrun
  obtain ⟨hoptions, htidy, -⟩ := Script.compileIn_references hrun
  have hafter : s₁.After (placements script.macros) :=
    Session.defineMacros_after (Session.after_new _) hdefine
  have hforms := composeSong_forms hcompose
  obtain ⟨hvoices, hpattern⟩ := composeSong_voices hcompose
  refine ⟨s₁, session, hdefine, hrun, fun e key => (hafter e).inForce? key, ?_, fun t ht => ?_,
    Output.binarySize_of_build hbuild hvoices hpattern⟩
  · rw [Output.effects_of_build hbuild htidy]
    exact List.filter_congr fun e _ => isEmpty_of_forms (hafter e) (hforms e)
  · obtain ⟨r, hr, htable⟩ := (exists_of_mapM (Output.build_eq_ok hbuild).2).2 t ht
    obtain ⟨e, rfl⟩ := MacroBank.mem_toList.mp (List.mem_filter.mp hr).1
    have heffect : t.effect = e :=
      (MacroTable.effect_of_ofRegistry htable).trans (htidy e).effect
    subst heffect
    rw [hoptions] at htable
    exact ⟨(Output.tables_of_build hbuild htidy).2 t ht,
      fun key => MacroTable.mem_keys_of_forms htable (htidy t.effect) (hforms t.effect),
      fun entry hentry =>
        MacroTable.shows_of_forms htable (htidy t.effect) (hforms t.effect) hentry⟩

/-- A record beside symbols and signed numbers, with a key that is defined twice and one that
nothing selects. -/
theorem compile_tables_packed :
    let script : Script :=
      { Script.empty with
        target := some .genesis
        options := { Options.default with skipUnreferenced := true }
        macros :=
          [⟨.adsr, some 3, ⟨[.int 0, .int 0, .int 0], []⟩, .empty⟩,
            ⟨.adsr, some 1, ⟨[.int 7, .int 7, .int 7], []⟩, .empty⟩,
            ⟨.adsr, some 3, ⟨[.int 31, .int 10, .int 4], []⟩, .empty⟩,
            ⟨.pitch, none, ⟨[.int (-1), .text "bend"], [.int 200]⟩, .empty⟩]
        channels := .ofList [("A", [.effect .adsr 3 false, .effect .pitch 0 false, .note 0 24])] }
    ∃ c, script.compile .default = .ok c ∧
      c.output.tables.map (·.effect) = [.pitch, .adsr] ∧
      c.output.tables.flatMap (fun t => t.entries.map fun x => (x.key, x.main, x.loop)) =
        [(0, [.byte 255, .symbol "bend"], [.byte 200]),
          (3, [.byte 31, .byte 10, .byte 4, .byte 0xA2], [])] ∧
      (∀ t ∈ c.output.tables, ∀ entry ∈ t.entries, ∃ s,
        Placed.inForce? (placements script.macros) t.effect entry.key = some s ∧
          entry.Shows .genesis t.effect s) ∧
      c.output.binarySize =
        ((c.output.channels.filter (!·.isVirtual)).map (·.data.length)).sum := by
  intro script
  have hview : (script.compile .default).toOption.map (fun c =>
      c.output.tables.flatMap fun t => t.entries.map fun x => (x.key, x.main, x.loop)) =
        some [(0, [.byte 255, .symbol "bend"], [.byte 200]),
          (3, [.byte 31, .byte 10, .byte 4, .byte 0xA2], [])] := by
    decide +kernel
  obtain ⟨c, hc, hentries⟩ := exists_of_map_toOption hview
  obtain ⟨s₁, session, -, -, hforce, heffects, hshows, hsize⟩ := compile_tables hc
  refine ⟨c, hc, heffects.trans (by decide), hentries, fun t ht entry hentry => ?_, hsize⟩
  obtain ⟨-, m, hm, hm'⟩ := (hshows t ht).2.2 entry hentry
  exact ⟨m.seq, by rw [← hforce, hm, Option.map_some], hm'⟩

end Chiptune
