import Chiptune.Proofs.Provenance

/-!
# The file links

Every block of an assembly file has its own label, and every label in a table is that of a block.
The label of a channel is its name, and that of a macro is the label of its effect and its key,
without anything between them.  The labels are distinct since names have no underscores, which stand
between the parts of a label, and labels of effects have no digits.

## Main definitions

* `Label`, `Label.text` — the labels of a file, and how they are written.
* `Block.symbols` — the labels that stand in a block.
* `Output.Distinct` — channels differ in their names, tables in their effects and macros in their
  keys.

## Main results

* `Label.text_injective` — two labels are not written alike.
* `Output.nodup_labels` — no label is defined twice.
* `Output.table_resolved` — the labels in a table are defined.
* `compile_links` — the file of a compilation links.
-/

namespace Chiptune

/-! ### Labels -/

/-- A label of a file. -/
inductive Label where
  /-- The table of the channels. -/
  | channels
  /-- A channel. -/
  | channel (name : String)
  /-- The loop of a channel. -/
  | channelLoop (name : String)
  /-- The table of an effect. -/
  | table (effect : Effect)
  /-- The first part of a macro. -/
  | entry (effect : Effect) (key : Nat)
  /-- The loop part of a macro. -/
  | entryLoop (effect : Effect) (key : Nat)
  deriving DecidableEq

namespace Text

/-- Text that can be part of a label, in a list between commas. -/
def Word (s : String) : Prop := '_' ∉ s.toList ∧ ',' ∉ s.toList

instance (s : String) : Decidable (Word s) :=
  inferInstanceAs (Decidable ('_' ∉ s.toList ∧ ',' ∉ s.toList))

theorem word_append {s t : String} (hs : Word s) (ht : Word t) : Word (s ++ t) := by
  unfold Word
  rw [String.toList_append]
  simp [hs.1, hs.2, ht.1, ht.2]

theorem word_toString (n : Nat) : Word (toString n) := by
  constructor
  · intro h
    cases isDigit_of_mem_toString h
  · intro h
    cases isDigit_of_mem_toString h

theorem toString_nat_injective {m n : Nat} (h : toString m = toString n) : m = n := by
  have hdigits : Nat.toDigits 10 m = Nat.toDigits 10 n := by
    rw [← Nat.toList_repr, ← Nat.toList_repr]
    exact congrArg String.toList h
  calc
    m = Nat.ofDigitChars 10 (Nat.toDigits 10 m) 0 := Nat.ofDigitChars_ten_toDigits.symm
    _ = Nat.ofDigitChars 10 (Nat.toDigits 10 n) 0 := by rw [hdigits]
    _ = n := Nat.ofDigitChars_ten_toDigits

/-- A text without digits and a number after it can be told apart. -/
theorem append_number_injective {s t : String} {m n : Nat} (hs : ∀ c ∈ s.toList, !c.isDigit)
    (ht : ∀ c ∈ t.toList, !c.isDigit) (h : s ++ toString m = t ++ toString n) :
    s = t ∧ m = n := by
  have hletters : ∀ {u : String} (k : Nat), (∀ c ∈ u.toList, !c.isDigit) →
      (u ++ toString k).toList.takeWhile (!·.isDigit) = u.toList := by
    intro u k hu
    have hnone : (toString k).toList.takeWhile (!·.isDigit) = [] := by
      cases hk : (toString k).toList with
      | nil => rfl
      | cons c cs =>
        have hc : c.isDigit = true :=
          isDigit_of_mem_toString (n := k) (by rw [hk]; exact List.mem_cons_self)
        simp [hc]
    rw [String.toList_append, List.takeWhile_append_of_pos hu, hnone, List.append_nil]
  have hst : s = t := by
    apply String.toList_injective
    rw [← hletters m hs, h, hletters n ht]
  subst hst
  exact ⟨rfl, toString_nat_injective (String.append_right_inj s |>.mp h)⟩

end Text

namespace Effect

theorem label_letters (e : Effect) : ∀ c ∈ e.label.toList, !c.isDigit := by
  have hall : e.label.toList.all (!·.isDigit) = true := by cases e <;> rfl
  exact List.all_eq_true.mp hall

theorem word_label (e : Effect) : Text.Word e.label := by
  cases e <;> decide

theorem label_injective {e e' : Effect} (h : e.label = e'.label) : e = e' := by
  have hnodup : (all.map label).Nodup := by decide
  exact List.inj_on_of_nodup_map hnodup e.mem_all e'.mem_all h

theorem label_ne_channel (e : Effect) : e.label ≠ "channel" := by
  cases e <;> decide

/-- The label of an effect with a key after it tells both, also where one effect's label is the
beginning of another's. -/
theorem label_number_injective {e e' : Effect} {key key' : Nat}
    (h : e.label ++ toString key = e'.label ++ toString key') : e = e' ∧ key = key' := by
  obtain ⟨hlabel, hkey⟩ := Text.append_number_injective e.label_letters e'.label_letters h
  exact ⟨label_injective hlabel, hkey⟩

theorem label_number_ne (e : Effect) (key : Nat) {s : String} (hs : ∀ c ∈ s.toList, !c.isDigit) :
    e.label ++ toString key ≠ s := by
  rintro rfl
  obtain ⟨c, hc⟩ : ∃ c, c ∈ (toString key).toList := by
    apply List.exists_mem_of_ne_nil
    change key.repr.toList ≠ []
    rw [Nat.toList_repr]
    exact Nat.toDigits_ne_nil
  have hdigit := hs c (by rw [String.toList_append]; exact List.mem_append_right _ hc)
  rw [Text.isDigit_of_mem_toString hc] at hdigit
  cases hdigit

end Effect

namespace Label

/-- What stands between the underscores of a label. -/
def parts : Label → List String
  | channels => ["mml", "channel", "table"]
  | channel name => ["mml", "channel", name]
  | channelLoop name => ["mml", "channel", name, "loop"]
  | table e => ["mml", e.label, "table"]
  | entry e key => ["mml", e.label ++ toString key]
  | entryLoop e key => ["mml", e.label ++ toString key, "loop"]

/-- How a label is written. -/
def text (l : Label) : String := String.intercalate "_" l.parts

/-- A label that is not of a channel, or of one whose name can be part of a label. -/
def Regular : Label → Prop
  | channel name | channelLoop name => Text.Word name ∧ name ≠ "table"
  | channels | table _ | entry _ _ | entryLoop _ _ => True

theorem parts_injective {l l' : Label} (hl : l.Regular) (hl' : l'.Regular)
    (h : l.parts = l'.parts) : l = l' := by
  have hnumber (e : Effect) (key : Nat) : e.label ++ toString key ≠ "channel" :=
    e.label_number_ne key (List.all_eq_true.mp rfl)
  -- labels of two kinds differ in the number of their parts, or where one has a fixed part
  cases l <;> cases l' <;> simp only [parts, List.cons.injEq, true_and, and_true, reduceCtorEq,
    and_false] at h <;> grind [Regular, Effect.label_injective, Effect.label_ne_channel,
    Effect.label_number_injective]

theorem word_of_mem_parts {l : Label} (h : l.Regular) : ∀ part ∈ l.parts, Text.Word part := by
  have hmml : Text.Word "mml" := by decide
  have hchannel : Text.Word "channel" := by decide
  have htable : Text.Word "table" := by decide
  have hloop : Text.Word "loop" := by decide
  have hnumber (e : Effect) (key : Nat) : Text.Word (e.label ++ toString key) :=
    Text.word_append e.word_label (Text.word_toString key)
  cases l with
  | channels => simp [parts, hmml, hchannel, htable]
  | channel name => simp [parts, hmml, hchannel, h.1]
  | channelLoop name => simp [parts, hmml, hchannel, h.1, hloop]
  | table e => simp [parts, hmml, e.word_label, htable]
  | entry e key => simpa [parts, hmml] using hnumber e key
  | entryLoop e key => simpa [parts, hmml, hloop] using hnumber e key

/-- **Two labels are not written alike.** -/
theorem text_injective {l l' : Label} (hl : l.Regular) (hl' : l'.Regular)
    (h : l.text = l'.text) : l = l' := by
  -- the parts are read back between the underscores
  have hsplit : ∀ {l : Label}, l.Regular →
      l.text.toList.splitOn '_' = l.parts.map String.toList := by
    intro l hl
    have hne : l.parts.map String.toList ≠ [] := by cases l <;> simp [parts]
    rw [text, String.toList_intercalate]
    refine List.splitOn_intercalate '_' ?_ hne
    simpa using fun part hpart => (word_of_mem_parts hl part hpart).1
  refine parts_injective hl hl' ?_
  have hparts : l.parts.map String.toList = l'.parts.map String.toList := by
    rw [← hsplit hl, h, hsplit hl']
  exact List.map_injective_iff.mpr (fun _ _ heq => String.toList_injective heq) hparts

/-- A label can stand in a list between commas. -/
theorem listable_text {l : Label} (h : l.Regular) :
    ',' ∉ l.text.toList ∧ l.text.toList.head? = some 'm' := by
  constructor
  · rw [text, String.toList_intercalate]
    refine Text.not_mem_intercalate (by decide) ?_
    simpa using fun part hpart => (word_of_mem_parts h part hpart).2
  · rw [text, String.toList_intercalate]
    cases l <;> rfl

theorem text_channels : channels.text = "mml_channel_table" := rfl

theorem text_channel (name : String) : (channel name).text = channelLabel name := by
  apply String.toList_injective
  simp [text, parts, channelLabel]

theorem text_channelLoop (name : String) :
    (channelLoop name).text = loopLabel (channelLabel name) := by
  apply String.toList_injective
  simp [text, parts, channelLabel, loopLabel]

theorem text_table (e : Effect) : (table e).text = tableLabel e := by
  apply String.toList_injective
  simp [text, parts, tableLabel]

theorem text_entry (e : Effect) (key : Nat) : (entry e key).text = macroLabel e key := by
  apply String.toList_injective
  simp [text, parts, macroLabel]

theorem text_entryLoop (e : Effect) (key : Nat) :
    (entryLoop e key).text = loopLabel (macroLabel e key) := by
  apply String.toList_injective
  simp [text, parts, macroLabel, loopLabel]

/-- The name of the channel to which a label belongs. -/
def name? : Label → Option String
  | channel name | channelLoop name => some name
  | _ => none

/-- The effect to which a label belongs. -/
def effect? : Label → Option Effect
  | table e | entry e _ | entryLoop e _ => some e
  | _ => none

/-- The key of the macro to which a label belongs. -/
def key? : Label → Option Nat
  | entry _ key | entryLoop _ key => some key
  | _ => none

/-- No label belongs to a channel and to an effect. -/
theorem effect?_of_name? {l : Label} {name : String} (h : l.name? = some name) :
    l.effect? = none := by
  cases l with
  | channel | channelLoop => rfl
  | _ => cases h

end Label

/-! ### The labels of an output -/

/-- The labels of a channel. -/
def ChannelStream.labels (ch : ChannelStream) : List Label :=
  match ch.loopOffset with
  | none => [.channel ch.name]
  | some _ => [.channel ch.name, .channelLoop ch.name]

/-- The labels of the macros of an effect. -/
def MacroTable.entryLabels (t : MacroTable) : List Label :=
  t.entries.flatMap fun e => [.entry t.effect e.key, .entryLoop t.effect e.key]

/-- The labels of a table and of its macros. -/
def MacroTable.labels (t : MacroTable) : List Label := .table t.effect :: t.entryLabels

/-- The labels of an output. -/
def Output.labels (o : Output) : List Label :=
  .channels :: o.channels.flatMap (·.labels) ++ o.tables.flatMap (·.labels)

theorem ChannelStream.map_label_blocks (ch : ChannelStream) :
    ch.blocks.map (·.label) = ch.labels.map Label.text := by
  unfold blocks labels
  cases ch.loopOffset <;> simp [Label.text_channel, Label.text_channelLoop]

theorem MacroTable.map_label_blocks (t : MacroTable) :
    t.blocks.map (·.label) = t.labels.map Label.text := by
  simp [blocks, labels, entryLabels, TableEntry.blocks, Block.ofWords, List.map_flatMap,
    Label.text_table, Label.text_entry, Label.text_entryLoop]

/-- The blocks of an output are under its labels. -/
theorem Output.map_label_blocks (o : Output) :
    o.blocks.map (·.label) = o.labels.map Label.text := by
  have hchannels : (o.channels.flatMap (·.blocks)).map (·.label) =
      (o.channels.flatMap (·.labels)).map Label.text := by
    rw [List.map_flatMap, List.map_flatMap]
    exact congrArg (o.channels.flatMap ·) (funext fun ch => ch.map_label_blocks)
  have htables : (o.tables.flatMap (·.blocks)).map (·.label) =
      (o.tables.flatMap (·.labels)).map Label.text := by
    rw [List.map_flatMap, List.map_flatMap]
    exact congrArg (o.tables.flatMap ·) (funext fun t => t.map_label_blocks)
  unfold blocks labels
  rw [List.map_append, List.map_append, List.map_cons, List.map_cons, hchannels, htables,
    Label.text_channels]
  rfl

/-- Channels differ in their names, tables in their effects and macros in their keys, and no name
can be taken for something else. -/
structure Output.Distinct (o : Output) : Prop where
  /-- No two channels have the same name. -/
  names : (o.channels.map (·.name)).Nodup
  /-- Every name can be part of a label. -/
  regular : ∀ name ∈ o.channels.map (·.name), Text.Word name ∧ name ≠ "table"
  /-- No two tables are of the same effect. -/
  effects : (o.tables.map (·.effect)).Nodup
  /-- No two macros of a table have the same key. -/
  keys : ∀ t ∈ o.tables, (t.entries.map (·.key)).Nodup

/-- Lists for members with different keys have no common members, if these tell the key. -/
theorem nodup_flatMap_of_key {α β κ : Type} {f : α → List β} {key : α → κ} (own : β → Option κ)
    {xs : List α} (hkeys : (xs.map key).Nodup) (hf : ∀ x ∈ xs, (f x).Nodup)
    (hown : ∀ x, ∀ b ∈ f x, own b = some (key x)) : (xs.flatMap f).Nodup := by
  rw [List.nodup_flatMap]
  have hne : xs.Pairwise fun x x' => key x ≠ key x' := List.pairwise_map.mp hkeys
  refine ⟨hf, hne.imp ?_⟩
  intro x x' hx b hb hb'
  exact hx (Option.some.inj ((hown x b hb).symm.trans (hown x' b hb')))

namespace ChannelStream

theorem nodup_labels (ch : ChannelStream) : ch.labels.Nodup := by
  unfold labels
  cases ch.loopOffset <;> simp

theorem name?_of_mem_labels {ch : ChannelStream} {l : Label} (h : l ∈ ch.labels) :
    l.name? = some ch.name := by
  unfold labels at h
  cases hloop : ch.loopOffset with
  | none =>
    rw [hloop] at h
    rw [List.mem_singleton.mp h]
    rfl
  | some offset =>
    rw [hloop] at h
    rcases List.mem_pair.mp h with rfl | rfl
    · rfl
    · rfl

end ChannelStream

namespace MacroTable

theorem effect?_of_mem_entryLabels {t : MacroTable} {l : Label} (h : l ∈ t.entryLabels) :
    l.effect? = some t.effect ∧ l.key?.isSome := by
  obtain ⟨e, -, hl⟩ := List.mem_flatMap.mp h
  rcases List.mem_pair.mp hl with rfl | rfl
  · exact ⟨rfl, rfl⟩
  · exact ⟨rfl, rfl⟩

theorem effect?_of_mem_labels {t : MacroTable} {l : Label} (h : l ∈ t.labels) :
    l.effect? = some t.effect := by
  rcases List.mem_cons.mp h with rfl | h
  · rfl
  · exact (effect?_of_mem_entryLabels h).1

theorem nodup_labels {t : MacroTable} (h : (t.entries.map (·.key)).Nodup) : t.labels.Nodup := by
  refine List.nodup_cons.mpr ⟨fun hmem => ?_, ?_⟩
  · -- a table has no key
    cases (effect?_of_mem_entryLabels hmem).2
  · refine nodup_flatMap_of_key Label.key? h (fun e _ => by simp) fun e l hl => ?_
    rcases List.mem_pair.mp hl with rfl | rfl
    · rfl
    · rfl

end MacroTable

namespace Output

variable {o : Output}

theorem mem_labels {l : Label} (h : l ∈ o.labels) :
    l = .channels ∨ (∃ name ∈ o.channels.map (·.name), l.name? = some name) ∨
      ∃ t ∈ o.tables, l.effect? = some t.effect := by
  rcases List.mem_append.mp h with h | h
  · rcases List.mem_cons.mp h with rfl | h
    · exact Or.inl rfl
    · obtain ⟨ch, hch, hl⟩ := List.mem_flatMap.mp h
      exact Or.inr (Or.inl ⟨ch.name, List.mem_map_of_mem hch,
        ChannelStream.name?_of_mem_labels hl⟩)
  · obtain ⟨t, ht, hl⟩ := List.mem_flatMap.mp h
    exact Or.inr (Or.inr ⟨t, ht, MacroTable.effect?_of_mem_labels hl⟩)

theorem regular_of_mem_labels (h : o.Distinct) {l : Label} (hl : l ∈ o.labels) : l.Regular := by
  rcases mem_labels hl with rfl | ⟨name, hname, hl⟩ | ⟨t, -, hl⟩
  · trivial
  · cases l with
    | channel name' | channelLoop name' =>
      cases hl
      exact h.regular name hname
    | _ => trivial
  · cases l with
    | channel | channelLoop => cases hl
    | _ => trivial

theorem nodup_of_distinct (h : o.Distinct) : o.labels.Nodup := by
  have hchannels : (o.channels.flatMap (·.labels)).Nodup :=
    nodup_flatMap_of_key Label.name? h.names (fun ch _ => ch.nodup_labels)
      fun ch l hl => ChannelStream.name?_of_mem_labels hl
  have htables : (o.tables.flatMap (·.labels)).Nodup :=
    nodup_flatMap_of_key Label.effect? h.effects
      (fun t ht => MacroTable.nodup_labels (h.keys t ht))
      fun t l hl => MacroTable.effect?_of_mem_labels hl
  rw [labels, List.cons_append]
  refine List.nodup_cons.mpr ⟨fun hmem => ?_, hchannels.append htables fun l hl hl' => ?_⟩
  · -- the table of the channels belongs to no channel and to no effect
    rcases List.mem_append.mp hmem with hl | hl
    · obtain ⟨ch, -, hl⟩ := List.mem_flatMap.mp hl
      cases ChannelStream.name?_of_mem_labels hl
    · obtain ⟨t, -, hl⟩ := List.mem_flatMap.mp hl
      cases MacroTable.effect?_of_mem_labels hl
  · obtain ⟨ch, -, hl⟩ := List.mem_flatMap.mp hl
    obtain ⟨t, -, hl'⟩ := List.mem_flatMap.mp hl'
    have hnone := Label.effect?_of_name? (ChannelStream.name?_of_mem_labels hl)
    rw [MacroTable.effect?_of_mem_labels hl'] at hnone
    cases hnone

/-- **No label is defined twice.** -/
theorem nodup_labels (h : o.Distinct) : (o.blocks.map (·.label)).Nodup := by
  rw [o.map_label_blocks]
  refine (nodup_of_distinct h).map_on fun l hl l' hl' heq => ?_
  exact Label.text_injective (regular_of_mem_labels h hl) (regular_of_mem_labels h hl') heq

end Output

/-! ### Tables of labels -/

/-- The symbols that stand in a file: the operands of word directives, without the blanks before
them. -/
def Item.symbols : Item → List String
  | .byte _ => []
  | .words operands => operands.map fun s => String.ofList (s.toList.dropWhile (· == ' '))

/-- The symbols in a block. -/
def Block.symbols (b : Block) : List String := b.items.flatMap (·.symbols)

theorem map_dropWhile_splitOn {ws : List (List Char)} (hne : ws ≠ []) (h : ∀ w ∈ ws, ',' ∉ w) :
    (([',', ' '].intercalate ws).splitOn ',').map (·.dropWhile (· == ' ')) =
      ws.map (·.dropWhile (· == ' ')) := by
  induction ws with
  | nil => exact absurd rfl hne
  | cons w ws ih =>
    obtain ⟨hw, hws⟩ := List.forall_mem_cons.mp h
    cases ws with
    | nil =>
      rw [List.intercalate_singleton, List.splitOn_eq_singleton hw]
    | cons w' ws =>
      have hrest := ih (by simp) hws
      rw [List.intercalate_cons_cons, List.append_assoc]
      change ((w ++ ',' :: ' ' :: _).splitOn ',').map _ = _
      rw [List.splitOn_append_cons_self_of_not_mem hw, List.map_cons, List.map_cons, ← hrest,
        List.splitOn_cons_eq_if_modifyHead]
      -- the blank after the comma is dropped again
      cases hsplit : ([',', ' '].intercalate (w' :: ws)).splitOn ',' with
      | nil => exact absurd hsplit (List.splitOn_ne_nil _ _)
      | cons first others => simp [hsplit]

theorem Item.symbols_intercalate {ws : List String} (hne : ws ≠ [])
    (h : ∀ w ∈ ws, ',' ∉ w.toList ∧ w.toList.head? = some 'm') :
    (Item.words (Text.operands (String.intercalate ", " ws))).symbols = ws := by
  have hsplit : (([',', ' '].intercalate (ws.map String.toList)).splitOn ',').map
      (·.dropWhile (· == ' ')) = (ws.map String.toList).map (·.dropWhile (· == ' ')) :=
    map_dropWhile_splitOn (by simpa using hne) (by simpa using fun w hw => (h w hw).1)
  have hword : ∀ w ∈ ws, String.ofList (w.toList.dropWhile (· == ' ')) = w := by
    intro w hw
    obtain ⟨cs, hcs⟩ := List.head?_eq_some_iff.mp (h w hw).2
    have hdrop : w.toList.dropWhile (· == ' ') = w.toList := by
      rw [hcs]
      rfl
    rw [hdrop, String.ofList_toList]
  calc (Item.words (Text.operands (String.intercalate ", " ws))).symbols
      = ((((String.intercalate ", " ws).toList).splitOn ',').map
          (·.dropWhile (· == ' '))).map String.ofList := by
        rw [symbols, Text.operands, List.map_map, List.map_map]
        simp [Function.comp_def]
    _ = ((ws.map String.toList).map (·.dropWhile (· == ' '))).map String.ofList := by
        rw [String.toList_intercalate]
        exact congrArg _ hsplit
    _ = ws.map id := by
        rw [List.map_map, List.map_map]
        exact List.map_congr_left hword
    _ = ws := List.map_id ws

/-- **The symbols in a table of words are the words**, however many lines it has. -/
theorem Block.symbols_ofWords (label : String) {ws : List String}
    (h : ∀ w ∈ ws, ',' ∉ w.toList ∧ w.toList.head? = some 'm') :
    (Block.ofWords label ws).symbols = ws := by
  have hline : ∀ part ∈ chunks wordsPerLine ws,
      (Item.words (Text.operands (String.intercalate ", " part))).symbols = part := by
    intro part hpart
    obtain ⟨hne, -, hsub⟩ := of_mem_chunks hpart
    exact Item.symbols_intercalate hne fun w hw => h w (hsub w hw)
  calc (Block.ofWords label ws).symbols
      = (chunks wordsPerLine ws).flatMap fun part =>
          (Item.words (Text.operands (String.intercalate ", " part))).symbols := List.flatMap_map ..
    _ = (chunks wordsPerLine ws).flatMap id := List.flatMap_congr hline
    _ = ws := by rw [List.flatMap_id, flatten_chunks (by decide)]

/-- Every symbol in the block is the label of one of some blocks. -/
def Block.Resolved (blocks : List Block) (b : Block) : Prop :=
  ∀ name ∈ b.symbols, name ∈ blocks.map (·.label)

namespace Output

variable {o : Output}

theorem resolved_of_labels (h : o.Distinct) {label : String} {ls : List Label}
    (hls : ∀ l ∈ ls, l ∈ o.labels) :
    (Block.ofWords label (ls.map Label.text)).symbols = ls.map Label.text ∧
      (Block.ofWords label (ls.map Label.text)).Resolved o.blocks := by
  have hsymbols : (Block.ofWords label (ls.map Label.text)).symbols = ls.map Label.text := by
    refine Block.symbols_ofWords label fun w hw => ?_
    obtain ⟨l, hl, rfl⟩ := List.mem_map.mp hw
    exact Label.listable_text (regular_of_mem_labels h (hls l hl))
  refine ⟨hsymbols, fun name hname => ?_⟩
  rw [hsymbols] at hname
  obtain ⟨l, hl, rfl⟩ := List.mem_map.mp hname
  rw [o.map_label_blocks]
  exact List.mem_map_of_mem (hls l hl)

/-- **The labels in the table of the channels are defined.** -/
theorem channelTable_resolved (h : o.Distinct) :
    ∃ b ∈ o.blocks, b.label = "mml_channel_table" ∧
      b.symbols = o.channels.map (fun ch => channelLabel ch.name) ∧ b.Resolved o.blocks := by
  have hlabels : o.channels.map (fun ch => channelLabel ch.name) =
      (o.channels.map fun ch => Label.channel ch.name).map Label.text := by
    rw [List.map_map]
    exact List.map_congr_left fun ch _ => (Label.text_channel ch.name).symm
  have hmem : ∀ l ∈ o.channels.map fun ch => Label.channel ch.name, l ∈ o.labels := by
    intro l hl
    obtain ⟨ch, hch, rfl⟩ := List.mem_map.mp hl
    have hfirst : Label.channel ch.name ∈ ch.labels := by
      unfold ChannelStream.labels
      cases ch.loopOffset <;> exact List.mem_cons_self
    exact List.mem_append_left _ (List.mem_cons_of_mem _ (List.mem_flatMap.mpr ⟨ch, hch, hfirst⟩))
  rw [hlabels]
  obtain ⟨hsymbols, hresolved⟩ := resolved_of_labels h hmem
  refine ⟨.ofWords "mml_channel_table" _, ?_, rfl, hsymbols, hresolved⟩
  unfold blocks
  rw [hlabels]
  exact List.mem_append_left _ List.mem_cons_self

/-- **The labels in the table of an effect are defined.** -/
theorem table_resolved (h : o.Distinct) {t : MacroTable} (ht : t ∈ o.tables) :
    ∃ b ∈ o.blocks, b.label = tableLabel t.effect ∧ b.symbols = t.pointers ∧
      b.Resolved o.blocks := by
  have hlabels : t.pointers = t.entryLabels.map Label.text := by
    simp [MacroTable.pointers, MacroTable.entryLabels, List.map_flatMap, Label.text_entry,
      Label.text_entryLoop]
  have hmem : ∀ l ∈ t.entryLabels, l ∈ o.labels := fun l hl =>
    List.mem_append_right _ (List.mem_flatMap.mpr ⟨t, ht, List.mem_cons_of_mem _ hl⟩)
  rw [hlabels]
  obtain ⟨hsymbols, hresolved⟩ := resolved_of_labels h hmem
  refine ⟨.ofWords (tableLabel t.effect) _, ?_, rfl, hsymbols, hresolved⟩
  refine List.mem_append_right _ (List.mem_flatMap.mpr ⟨t, ht, ?_⟩)
  rw [MacroTable.blocks, hlabels]
  exact List.mem_cons_self

end Output

/-! ### Compilations -/

theorem Platform.regular_names (p : Platform) :
    ∀ name ∈ Song.patternName :: p.voices.map (·.1),
      Text.Unbroken name ∧ Text.Word name ∧ name ≠ "table" := by
  cases p <;> decide

/-- The names, the effects and the keys in the output of a compilation are distinct, and it has a
place in a file if the symbols of the script have. -/
theorem Script.compileIn_distinct {script : Script} {o : Options} {output : Output}
    {session : Session} (h : script.compileIn (.new o) = .ok output session) :
    output.Distinct ∧
      ((∀ d ∈ script.macros, ∀ text, .text text ∈ d.seq.toList → Text.Unbroken text) →
        output.Plain) := by
  obtain ⟨hnodup, hnames, hwords⟩ := compileIn_provenance h
  obtain ⟨-, htidy, -⟩ := compileIn_references h
  obtain ⟨s₁, song, -, -, hbuild⟩ := compileIn_eq_ok h
  obtain ⟨heffects, hkeys⟩ := Output.tables_of_build hbuild htidy
  have hregular := fun name hname =>
    (script.platform o).regular_names name (hnames name hname)
  constructor
  · exact ⟨hnodup, fun name hname => (hregular name hname).2, heffects,
      fun t ht => (hkeys t ht).imp Nat.ne_of_lt⟩
  · intro htexts
    exact Output.plain_of_build hbuild (fun name hname => (hregular name hname).1)
      (hwords Text.Unbroken htexts)

/-- **The file of a compilation links.**  If no symbol of a script has a line feed, an assembler
reads the file as the blocks of the output.  No two blocks have the same label.  There is a table
with the labels of the channels and one for each effect with the labels of its macros, and all of
these labels are defined in the file. -/
theorem compile_links {script : Script} {options : Options} {c : Compilation}
    (h : script.compile options = .ok c)
    (htexts : ∀ d ∈ script.macros, ∀ text, .text text ∈ d.seq.toList → Text.Unbroken text) :
    c.output.dialect.assemble? c.output.asm = some c.output.blocks ∧
      (c.output.blocks.map (·.label)).Nodup ∧
      (∃ b ∈ c.output.blocks, b.label = "mml_channel_table" ∧
        b.symbols = c.output.channels.map (fun ch => channelLabel ch.name) ∧
        b.Resolved c.output.blocks) ∧
      ∀ t ∈ c.output.tables, ∃ b ∈ c.output.blocks, b.label = tableLabel t.effect ∧
        b.symbols = t.pointers ∧ b.Resolved c.output.blocks := by
  obtain ⟨session, hrun⟩ := Script.compile_eq_ok h
  obtain ⟨hdistinct, hplain⟩ := Script.compileIn_distinct hrun
  exact ⟨Output.assemble?_asm (hplain htexts), Output.nodup_labels hdistinct,
    Output.channelTable_resolved hdistinct, fun t ht => Output.table_resolved hdistinct ht⟩

/-- A voice that loops, patterns, and two effects of which the label of one is the beginning of that
of the other, with a symbol that looks like a list. -/
theorem compile_links_waveforms :
    let script : Script :=
      { Script.empty with
        target := some .c64
        macros :=
          [⟨.waveform, some 1, ⟨[.int 1], [.text "mml_WTM1, x"]⟩, .empty⟩,
            ⟨.waveformMacro, some 1, ⟨[.int 0], []⟩, .empty⟩,
            ⟨.waveform, some 11, ⟨[.int 2], []⟩, .empty⟩]
        channels := .ofList [("A", [.loopPoint, .note 0 24])]
        pattern := [.note 0 24] }
    ∃ c, script.compile .default = .ok c ∧
      c.output.dialect.assemble? c.output.asm = some c.output.blocks ∧
      c.output.blocks.map (·.label) =
        ["mml_channel_table", "mml_channel_A", "mml_channel_A_loop", "mml_channel_B",
          "mml_channel_C", "mml_channel_pattern", "mml_WT_table", "mml_WT1", "mml_WT1_loop",
          "mml_WT11", "mml_WT11_loop", "mml_WTM_table", "mml_WTM1", "mml_WTM1_loop"] ∧
      ∃ b ∈ c.output.blocks, b.label = "mml_WT_table" ∧
        b.symbols = ["mml_WT1", "mml_WT1_loop", "mml_WT11", "mml_WT11_loop"] ∧
        b.Resolved c.output.blocks := by
  intro script
  have htexts : ∀ d ∈ script.macros, ∀ text, .text text ∈ d.seq.toList → Text.Unbroken text := by
    simp [script, ParamSeq.toList, Text.Unbroken]
  have hview : (script.compile .default).toOption.map (fun c =>
      (c.output.blocks.map (·.label),
        c.output.tables.map fun t => (tableLabel t.effect, t.pointers))) =
      some (["mml_channel_table", "mml_channel_A", "mml_channel_A_loop", "mml_channel_B",
          "mml_channel_C", "mml_channel_pattern", "mml_WT_table", "mml_WT1", "mml_WT1_loop",
          "mml_WT11", "mml_WT11_loop", "mml_WTM_table", "mml_WTM1", "mml_WTM1_loop"],
        [("mml_WT_table", ["mml_WT1", "mml_WT1_loop", "mml_WT11", "mml_WT11_loop"]),
          ("mml_WTM_table", ["mml_WTM1", "mml_WTM1_loop"])]) := by
    decide +kernel
  obtain ⟨c, hc, hview⟩ := exists_of_map_toOption hview
  obtain ⟨hlabels, htables⟩ := Prod.mk.inj hview
  obtain ⟨hread, -, -, hresolved⟩ := compile_links hc htexts
  -- the first table is the one of the waveforms
  obtain ⟨t, ht, hpointers⟩ : ∃ t ∈ c.output.tables, (tableLabel t.effect, t.pointers) =
      ("mml_WT_table", ["mml_WT1", "mml_WT1_loop", "mml_WT11", "mml_WT11_loop"]) := by
    rw [← List.mem_map, htables]
    exact List.mem_cons_self
  rw [Prod.mk.injEq] at hpointers
  have hblock := hresolved t ht
  rw [hpointers.1, hpointers.2] at hblock
  exact ⟨c, hc, hread, hlabels, hblock⟩

end Chiptune
