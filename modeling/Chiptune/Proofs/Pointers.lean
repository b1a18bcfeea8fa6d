import Chiptune.Proofs.Linking

/-!
# Where a selected macro is found

A command selects a macro by its key.  The table of an effect has two labels for each macro, in the
order of the keys, and no keys.  So the labels of a macro are at the number of macros in the table
that have smaller keys.  That is the key itself only if all smaller keys are in the table: keys that
the script left free are not, and neither are macros that were left out since nothing selects them.

## Main definitions

* `MacroTable.place` — the place of a key in a table.

## Main results

* `getElem?_countP_lt`, `countP_lt_eq_iff` — the place of a number among others in order.
* `MacroTable.pointers_place` — the labels of a macro are at its place.
* `MacroTable.pointers_key_iff` — when they are at its key.
* `compile_pointers` — where the labels of the macros that a channel selects are.
-/

namespace Chiptune

/-! ### Numbers in order -/

section Ordered

variable {xs : List Nat}

/-- The index of a number is that of the smaller ones. -/
theorem countP_lt_of_getElem? (h : xs.Pairwise (· < ·)) {i x : Nat} (hx : xs[i]? = some x) :
    xs.countP (· < x) = i := by
  induction xs generalizing i with
  | nil => simp at hx
  | cons y xs ih =>
    obtain ⟨hhead, htail⟩ := List.pairwise_cons.mp h
    cases i with
    | zero =>
      rw [List.getElem?_cons_zero, Option.some.injEq] at hx
      subst hx
      have hnone : xs.countP (· < y) = 0 := by
        rw [List.countP_eq_zero]
        intro z hz
        have hlt := hhead z hz
        simp only [decide_eq_true_eq]
        omega
      rw [List.countP_cons_of_neg (by simp), hnone]
    | succ i =>
      rw [List.getElem?_cons_succ] at hx
      have hlt := hhead x (List.mem_of_getElem? hx)
      rw [List.countP_cons_of_pos (by simpa using hlt), ih htail hx]

theorem getElem?_countP_lt (h : xs.Pairwise (· < ·)) {x : Nat} (hx : x ∈ xs) :
    xs[xs.countP (· < x)]? = some x := by
  obtain ⟨i, hi⟩ := List.mem_iff_getElem?.mp hx
  rw [countP_lt_of_getElem? h hi]
  exact hi

/-- **A number has as many smaller ones before it as there are** exactly if none is missing. -/
theorem countP_lt_eq_iff (h : xs.Pairwise (· < ·)) (x : Nat) :
    xs.countP (· < x) = x ↔ ∀ y < x, y ∈ xs := by
  have hnodup : (xs.filter (· < x)).Nodup := (h.imp Nat.ne_of_lt).filter _
  have hsub : (xs.filter (· < x)).Subperm (List.range x) := by
    refine hnodup.subperm fun y hy => ?_
    simpa using (List.mem_filter.mp hy).2
  rw [List.countP_eq_length_filter]
  constructor
  · intro hlength y hy
    have hperm := hsub.perm_of_length_le (by rw [List.length_range, hlength])
    exact (List.mem_filter.mp (hperm.mem_iff.mpr (List.mem_range.mpr hy))).1
  · intro hall
    have hback : (List.range x).Subperm (xs.filter (· < x)) := by
      refine List.nodup_range.subperm fun y hy => ?_
      have hy := List.mem_range.mp hy
      exact List.mem_filter.mpr ⟨hall y hy, by simpa using hy⟩
    have hle := hsub.length_le
    have hge := hback.length_le
    rw [List.length_range] at hle hge
    omega

end Ordered

/-! ### Tables -/

theorem getElem?_flatMap_pair {α β : Type} (f g : α → β) (xs : List α) (i : Nat) :
    (xs.flatMap fun x => [f x, g x])[2 * i]? = xs[i]?.map f ∧
      (xs.flatMap fun x => [f x, g x])[2 * i + 1]? = xs[i]?.map g := by
  induction xs generalizing i with
  | nil => simp
  | cons x xs ih =>
    cases i with
    | zero => exact ⟨rfl, rfl⟩
    | succ i =>
      rw [show 2 * (i + 1) = 2 * i + 1 + 1 by omega]
      simpa using ih i

theorem macroLabel_injective {e : Effect} {key key' : Nat}
    (h : macroLabel e key = macroLabel e key') : key = key' := by
  rw [← Label.text_entry, ← Label.text_entry] at h
  exact (Label.entry.inj (Label.text_injective trivial trivial h)).2

namespace MacroTable

variable {t : MacroTable}

/-- The place of a key in a table: the number of macros with smaller keys. -/
def place (t : MacroTable) (key : Nat) : Nat := (t.entries.map (·.key)).countP (· < key)

/-- The two labels at a place of a table. -/
theorem getElem?_pointers (t : MacroTable) (i : Nat) :
    t.pointers[2 * i]? = (t.entries.map (·.key))[i]?.map (macroLabel t.effect) ∧
      t.pointers[2 * i + 1]? =
        (t.entries.map (·.key))[i]?.map fun key => loopLabel (macroLabel t.effect key) := by
  obtain ⟨hmain, hloop⟩ := getElem?_flatMap_pair (fun e => macroLabel t.effect e.key)
    (fun e => loopLabel (macroLabel t.effect e.key)) t.entries i
  rw [pointers, hmain, hloop, List.getElem?_map, Option.map_map, Option.map_map]
  exact ⟨rfl, rfl⟩

/-- **The labels of a macro are at its place.** -/
theorem pointers_place (h : (t.entries.map (·.key)).Pairwise (· < ·)) {key : Nat}
    (hkey : key ∈ t.entries.map (·.key)) :
    t.pointers[2 * t.place key]? = some (macroLabel t.effect key) ∧
      t.pointers[2 * t.place key + 1]? = some (loopLabel (macroLabel t.effect key)) := by
  obtain ⟨hmain, hloop⟩ := t.getElem?_pointers (t.place key)
  have hplace : (t.entries.map (·.key))[t.place key]? = some key := getElem?_countP_lt h hkey
  rw [hmain, hloop, hplace]
  exact ⟨rfl, rfl⟩

/-- **The labels of a macro are at its key** exactly if all smaller keys are in the table. -/
theorem pointers_key_iff (h : (t.entries.map (·.key)).Pairwise (· < ·)) {key : Nat}
    (hkey : key ∈ t.entries.map (·.key)) :
    (t.pointers[2 * key]? = some (macroLabel t.effect key) ∧
        t.pointers[2 * key + 1]? = some (loopLabel (macroLabel t.effect key))) ↔
      ∀ k < key, k ∈ t.entries.map (·.key) := by
  rw [← countP_lt_eq_iff h key]
  constructor
  · rintro ⟨hmain, -⟩
    rw [(t.getElem?_pointers key).1] at hmain
    obtain ⟨k, hk, hlabel⟩ := Option.map_eq_some_iff.mp hmain
    rw [macroLabel_injective hlabel] at hk
    exact countP_lt_of_getElem? h hk
  · intro hplace
    have hpointers := pointers_place h hkey
    rwa [place, hplace] at hpointers

end MacroTable

/-- The table of an effect stands in the file. -/
theorem Output.wordTable_infix {o : Output} {t : MacroTable} (ht : t ∈ o.tables) :
    o.dialect.wordTable (tableLabel t.effect) t.pointers <:+: o.asmLines := by
  obtain ⟨before, after, hsplit⟩ := List.append_of_mem ht
  have htable : o.dialect.wordTable (tableLabel t.effect) t.pointers <:+:
      o.dialect.tableLines t :=
    List.infix_append _ _ _
  refine htable.trans ?_
  have hlines : o.dialect.tableLines t <:+: o.tables.flatMap o.dialect.tableLines := by
    rw [hsplit, List.flatMap_append, List.flatMap_cons, ← List.append_assoc]
    exact List.infix_append _ _ _
  exact hlines.trans (List.suffix_append _ _).isInfix

/-! ### Compilations -/

/-- The table of an effect of which a macro is selected has the macros of the session, but if macros
without references are left out only those that are selected. -/
theorem Script.exists_table_of_selection {script : Script} {o : Options} {output : Output}
    {session : Session} (h : script.compileIn (.new o) = .ok output session) {e : Effect}
    {key : Nat} (hselected : (e, key) ∈ output.selections) :
    ∃ t ∈ output.tables, t.effect = e ∧ (∀ t' ∈ output.tables, t'.effect = e → t' = t) ∧
      (t.entries.map (·.key)).Pairwise (· < ·) ∧ key ∈ t.entries.map (·.key) ∧
      ∀ k, k ∈ t.entries.map (·.key) ↔ (∃ m, (session.macros.get e).get? k = some m) ∧
        (o.skipUnreferenced = true → (e, k) ∈ output.selections) := by
  obtain ⟨hoptions, htidy, hcount⟩ := compileIn_references h
  obtain ⟨s₁, song, -, -, hbuild⟩ := compileIn_eq_ok h
  -- a macro that is selected has a reference, so it is there
  have hpos : 0 < (session.macros.get e).refCount key := by
    rw [show (session.macros.get e).refCount key = session.refCount e key from rfl, hcount]
    exact List.count_pos_iff.mpr hselected
  obtain ⟨m, hm⟩ := Registry.exists_of_refCount_pos hpos
  obtain ⟨t, ht, htable, heffect, hunique⟩ :=
    MacroBank.exists_ofRegistry htidy (Output.build_eq_ok hbuild).2 hm
  have hreferred : ∀ {k : Nat} {m : Macro}, (session.macros.get e).get? k = some m →
      (m.refCount ≠ 0 ↔ (e, k) ∈ output.selections) := by
    intro k m hm
    have hm' : session.refCount e k = m.refCount := by
      rw [Session.refCount, Registry.refCount, hm]
      rfl
    rw [← hm', hcount, ne_eq, List.count_eq_zero, not_not]
  have hkeys : ∀ k, k ∈ t.entries.map (·.key) ↔ (∃ m, (session.macros.get e).get? k = some m) ∧
      (o.skipUnreferenced = true → (e, k) ∈ output.selections) := by
    intro k
    rw [MacroTable.mem_keys_iff htable (htidy e), hoptions]
    constructor
    · rintro ⟨m, hm, hskip⟩
      exact ⟨⟨m, hm⟩, fun hwanted => (hreferred hm).mp (hskip hwanted)⟩
    · rintro ⟨⟨m, hm⟩, hskip⟩
      exact ⟨m, hm, fun hwanted => (hreferred hm).mpr (hskip hwanted)⟩
  exact ⟨t, ht, heffect, hunique, (Output.tables_of_build hbuild htidy).2 t ht,
    (hkeys key).mpr ⟨⟨m, hm⟩, fun _ => hselected⟩, hkeys⟩

/-- **Where the labels of the macros that a channel selects are.**  There is one table for the
effect of a command that selects a macro, and it stands in the file.  The labels of the macro are
there at the place of its key.  They are at the key itself, where a driver that has only the operand
of the command looks for them, exactly if each smaller key has a macro, and this macro is selected
too if macros without references are left out. -/
theorem compile_pointers {script : Script} {options : Options} {c : Compilation}
    (h : script.compile options = .ok c) {stream : ChannelStream}
    (hstream : stream ∈ c.output.channels) {e : Effect} {operand : UInt8}
    (hselects : .effectOn e operand ∈ stream.commands) :
    let key := (operand &&& 0x7F).toNat
    ∃ session, script.compileIn (.new (script.options.merge options)) = .ok c.output session ∧
      ∃ t ∈ c.output.tables, t.effect = e ∧ (∀ t' ∈ c.output.tables, t'.effect = e → t' = t) ∧
        c.output.dialect.wordTable (tableLabel e) t.pointers <:+: c.output.asmLines ∧
        (t.pointers[2 * t.place key]? = some (macroLabel e key) ∧
          t.pointers[2 * t.place key + 1]? = some (loopLabel (macroLabel e key))) ∧
        ((t.pointers[2 * key]? = some (macroLabel e key) ∧
            t.pointers[2 * key + 1]? = some (loopLabel (macroLabel e key))) ↔
          ∀ k < key, (∃ m, (session.macros.get e).get? k = some m) ∧
            ((script.options.merge options).skipUnreferenced = true →
              (e, k) ∈ c.output.selections)) := by
  intro key
  obtain ⟨session, hrun⟩ := Script.compile_eq_ok h
  have hselected : (e, key) ∈ c.output.selections :=
    List.mem_flatMap.mpr ⟨stream, hstream, List.mem_filterMap.mpr ⟨_, hselects, rfl⟩⟩
  obtain ⟨t, ht, rfl, hunique, hordered, hkey, hkeys⟩ :=
    Script.exists_table_of_selection hrun hselected
  refine ⟨session, hrun, t, ht, rfl, hunique, Output.wordTable_infix ht,
    MacroTable.pointers_place hordered hkey, ?_⟩
  rw [MacroTable.pointers_key_iff hordered hkey]
  exact forall₂_congr fun k _ => hkeys k

/-- The keys are not of the script's choice and have no gaps, but the macro under the second one is
left out, since nothing selects it.  So the third one moves up. -/
theorem compile_pointers_skipped :
    let script : Script :=
      { Script.empty with
        target := some .c64
        options := { Options.default with skipUnreferenced := true }
        macros :=
          [⟨.arpeggio, none, ⟨[.int 0], []⟩, .empty⟩, ⟨.arpeggio, none, ⟨[.int 4], []⟩, .empty⟩,
            ⟨.arpeggio, none, ⟨[.int 7], []⟩, .empty⟩]
        channels := .ofList
          [("A", [.effect .arpeggio 2 true, .note 0 24]),
            ("B", [.effect .arpeggio 0 false, .note 0 24])] }
    ∃ c, script.compile .default = .ok c ∧
      (∃ stream ∈ c.output.channels, .effectOn .arpeggio 0x82 ∈ stream.commands) ∧
      ∃ t ∈ c.output.tables, t.effect = .arpeggio ∧ t.place 2 = 1 ∧
        t.pointers[2 * t.place 2]? = some "mml_EN2" ∧
        t.pointers[2 * t.place 2 + 1]? = some "mml_EN2_loop" := by
  intro script
  have hview : (script.compile .default).toOption.map (fun c =>
      (c.output.channels.map (·.commands.head?),
        c.output.tables.map fun t => (t.effect, t.place 2))) =
      some ([some (.effectOn .arpeggio 0x82), some (.effectOn .arpeggio 0), some .stop],
        [(.arpeggio, 1)]) := by
    decide +kernel
  obtain ⟨c, hc, hview⟩ := exists_of_map_toOption hview
  obtain ⟨hcommands, htables⟩ := Prod.mk.inj hview
  obtain ⟨stream, hstream, hfirst⟩ : ∃ stream ∈ c.output.channels,
      stream.commands.head? = some (.effectOn .arpeggio 0x82) := by
    rw [← List.mem_map, hcommands]
    exact List.mem_cons_self
  have hselects := List.mem_of_head? hfirst
  obtain ⟨session, -, t, ht, heffect, -, -, hplace, -⟩ := compile_pointers hc hstream hselects
  have hone : (t.effect, t.place 2) ∈ [(Effect.arpeggio, 1)] := by
    rw [← htables]
    exact List.mem_map_of_mem ht
  exact ⟨c, hc, ⟨stream, hstream, hselects⟩, t, ht, heffect,
    (Prod.mk.inj (List.mem_singleton.mp hone)).2, hplace⟩

/-- A macro under the second key, where the script leaves the first one free, is not found by its
key. -/
theorem not_pointers_at_key :
    let script : Script :=
      { Script.empty with
        target := some .c64
        macros := [⟨.arpeggio, some 1, ⟨[.int 0, .int 4, .int 7], []⟩, .empty⟩]
        channels := .ofList [("A", [.effect .arpeggio 1 false, .note 0 24])] }
    ∃ c, script.compile .default = .ok c ∧
      (∃ stream ∈ c.output.channels, .effectOn .arpeggio 1 ∈ stream.commands) ∧
      ∃ t ∈ c.output.tables, t.effect = .arpeggio ∧ t.pointers = ["mml_EN1", "mml_EN1_loop"] ∧
        t.pointers[2 * 1]? ≠ some "mml_EN1" := by
  intro script
  have hview : (script.compile .default).toOption.map (fun c =>
      (c.output.channels.map (·.commands.head?),
        c.output.tables.map fun t => (t.effect, t.pointers))) =
      some ([some (.effectOn .arpeggio 1), some .stop, some .stop],
        [(.arpeggio, ["mml_EN1", "mml_EN1_loop"])]) := by
    decide +kernel
  obtain ⟨c, hc, hview⟩ := exists_of_map_toOption hview
  obtain ⟨hcommands, htables⟩ := Prod.mk.inj hview
  obtain ⟨stream, hstream, hfirst⟩ : ∃ stream ∈ c.output.channels,
      stream.commands.head? = some (.effectOn .arpeggio 1) := by
    rw [← List.mem_map, hcommands]
    exact List.mem_cons_self
  obtain ⟨t, ht, hpointers⟩ : ∃ t ∈ c.output.tables,
      (t.effect, t.pointers) = (.arpeggio, ["mml_EN1", "mml_EN1_loop"]) := by
    rw [← List.mem_map, htables]
    exact List.mem_cons_self
  obtain ⟨heffect, hpointers⟩ := Prod.mk.inj hpointers
  refine ⟨c, hc, ⟨stream, hstream, List.mem_of_head? hfirst⟩, t, ht, heffect, hpointers, ?_⟩
  rw [hpointers]
  decide

end Chiptune
