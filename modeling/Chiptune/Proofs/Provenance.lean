import Chiptune.Proofs.Assembler
import Chiptune.Proofs.Independence
import Chiptune.Proofs.References

/-!
# Where names and symbols come from

A channel keeps the name and the voice that its platform gave it.  A macro keeps the parameters with
which it was defined, whatever is entered on the channels, until they are packed, and what is packed
has no symbols that were not there before.  So the names in an output are those of the platform, and
the symbols in it are those of the script.

## Main definitions

* `Registry.seqs`, `Session.seqs` — the parameters of the macros by key.
* `Registry.AllTexts` — a property of all symbols in a registry.
* `Song.seats` — the names and the voices of the channels.
* `Encoding.Steady` — an operation that keeps the seat of the channel and all parameters.

## Main results

* `composeSong_steady` — the seats of the channels stay, and so do all parameters until they are
  packed.
* `Output.plain_of_build` — when an output has a place in a file.
* `Script.compileIn_provenance` — the names and the symbols of a compilation.
-/

namespace Chiptune

/-! ### Parameters of macros -/

namespace Registry

/-- The parameters of the macros by key. -/
def seqs (r : Registry) : List (Nat × ParamSeq) := r.entries.toList.map fun e => (e.1, e.2.seq)

/-- Every symbol among the parameters has a property. -/
def AllTexts (Q : String → Prop) (r : Registry) : Prop :=
  ∀ s ∈ r.seqs, ∀ text, .text text ∈ s.2.toList → Q text

theorem seqs_modify (r : Registry) (key : Nat) {f : Macro → Macro} (hf : ∀ m, (f m).seq = m.seq) :
    ({ r with entries := r.entries.modify key f } : Registry).seqs = r.seqs := by
  simp only [seqs, Keyed.modify, List.map_map]
  refine List.map_congr_left fun e _ => ?_
  by_cases h : e.1 = key <;> simp [h, hf]

variable {Q : String → Prop}

theorem AllTexts.congr {r r' : Registry} (h : r.AllTexts Q) (hseqs : r'.seqs = r.seqs) :
    r'.AllTexts Q := by
  unfold AllTexts
  rw [hseqs]
  exact h

theorem allTexts_new (e : Effect) : (new e).AllTexts Q := by
  intro s hs
  cases hs

theorem define_keeps_allTexts (key : Nat) {s : ParamSeq}
    (hs : ∀ text, .text text ∈ s.toList → Q text) : Keeps (AllTexts Q) (define key s) := by
  intro r h
  unfold define
  split
  · exact h
  · intro x hx
    obtain ⟨e, he, rfl⟩ := List.mem_map.mp hx
    rcases Keyed.mem_insertInto he with rfl | he
    · -- a macro that was there before has the new parameters too
      cases r.get? key <;> exact hs
    · exact h _ (List.mem_map_of_mem he)

theorem register_keeps_allTexts {s : ParamSeq} (hs : ∀ text, .text text ∈ s.toList → Q text) :
    Keeps (AllTexts Q) (register s) := by
  intro r h
  unfold register
  split
  · exact h
  · exact define_keeps_allTexts r.nextKey hs r h

theorem setExtra_keeps_allTexts (key : Nat) (name : String) (value : Param) :
    Keeps (AllTexts Q) (setExtra key name value) := by
  intro r h
  unfold setExtra update
  split
  · exact h.congr (r.seqs_modify key fun _ => rfl)
  · exact h

/-- A form without symbols of its own. -/
def AddsNoText (f : ParamSeq → Except Error ParamSeq) : Prop :=
  ∀ s s', f s = .ok s' → ∀ text, .text text ∈ s'.toList → .text text ∈ s.toList

theorem pack_keeps_allTexts {f : ParamSeq → Except Error ParamSeq} (hf : AddsNoText f) :
    Keeps (AllTexts Q) (pack f) := by
  intro r h
  have hpacked : ∀ x ∈ (packEntries f r.entries.toList).2, ∀ text,
      .text text ∈ x.2.seq.toList → Q text := by
    intro x hx text htext
    obtain ⟨m, hm, hxm⟩ := exists_of_mem_packEntries hx
    have hwords : ∀ text, .text text ∈ m.seq.toList → Q text := h _ (List.mem_map_of_mem hm)
    rcases hxm with rfl | ⟨s, hs, hxm⟩
    · exact hwords text htext
    · rw [hxm] at htext
      exact hwords text (hf _ _ hs text htext)
  rcases state_pack f r with ⟨packed, hstate⟩ | hstate
  · rw [hstate]
    intro s hs
    obtain ⟨x, hx, rfl⟩ := List.mem_map.mp hs
    exact hpacked x hx
  · rw [hstate]
    exact h

end Registry

theorem Record.packSeq_addsNoText (chip : Chip) (record : Record) :
    Registry.AddsNoText (packSeq chip record) := by
  intro s s' h text htext
  unfold packSeq at h
  split at h
  · -- a packed record is made of bytes
    obtain ⟨bytes, -, h⟩ := exceptBind_eq_ok h
    cases h
    simp [ParamSeq.toList] at htext
  · obtain ⟨n, -, h⟩ := exceptBind_eq_ok h
    cases h

theorem checkWaveform_addsNoText (chip : Chip) : Registry.AddsNoText (checkWaveform chip) := by
  intro s s' h text htext
  unfold checkWaveform at h
  split at h
  · obtain ⟨samples, -, h⟩ := exceptBind_eq_ok h
    cases h
    exact htext
  · cases h

theorem Platform.addsNoText_of_mem_packings {p : Platform}
    {packing : Effect × (ParamSeq → Except Error ParamSeq)} (h : packing ∈ p.packings) :
    Registry.AddsNoText packing.2 := by
  cases p with
  | nes | cpc => cases h
  | sms | c64 =>
    rw [List.mem_singleton.mp h]
    exact Record.packSeq_addsNoText _ _
  | genesis | x68000 =>
    rcases List.mem_pair.mp h with rfl | rfl
    · exact Record.packSeq_addsNoText _ _
    · exact Record.packSeq_addsNoText _ _
  | pce =>
    rw [List.mem_singleton.mp h]
    exact checkWaveform_addsNoText _

namespace Session

variable {Q : String → Prop}

/-- The parameters of the macros of each effect. -/
def seqs (s : Session) (e : Effect) : List (Nat × ParamSeq) := (s.macros.get e).seqs

theorem seqs_refer (s : Session) (e : Effect) (key : Nat) : (s.refer e key).seqs = s.seqs := by
  funext e'
  rw [seqs, get_refer]
  by_cases h : e = e'
  · rw [if_pos h]
    exact Registry.seqs_modify _ key fun _ => rfl
  · rw [if_neg h]
    rfl

theorem seqs_grantAll (s : Session) (qs : List Appeal) : (s.grantAll qs).seqs = s.seqs := by
  induction qs generalizing s with
  | nil => rfl
  | cons q qs ih =>
    rw [grantAll_cons, ih]
    cases q with
    | warn w => rfl
    | refer e key => exact seqs_refer s e key

theorem defineMacros_keeps_allTexts {ds : List MacroDef}
    (h : ∀ d ∈ ds, ∀ text, .text text ∈ d.seq.toList → Q text) :
    Keeps (fun s : Session => ∀ e, (s.macros.get e).AllTexts Q) (defineMacros ds) :=
  defineMacros_keeps (P := fun _ => Registry.AllTexts Q)
    (fun d hd key => Registry.define_keeps_allTexts key (h d hd))
    (fun d hd => Registry.register_keeps_allTexts (h d hd))
    (fun _ => Registry.setExtra_keeps_allTexts)

end Session

theorem Platform.packMacros_keeps_allTexts {Q : String → Prop} (p : Platform) :
    Keeps (fun s : Session => ∀ e, (s.macros.get e).AllTexts Q) p.packMacros :=
  packMacros_keeps (P := fun _ => Registry.AllTexts Q) fun _ hpacking =>
    Registry.pack_keeps_allTexts (addsNoText_of_mem_packings hpacking)

/-! ### Operations on channels -/

namespace Encoding

/-- The operation keeps the name and the voice of the channel and the parameters of all macros. -/
def Steady (act : Encoding Unit) : Prop :=
  ∀ {d d' : Desk}, act d = .ok () d' →
    d'.channel.seat = d.channel.seat ∧ d'.session.seqs = d.session.seqs

theorem ConsultsAt.seqs_eq {α : Type} {act : Encoding α} {ch : Channel} {s : Session}
    {refs : List (Effect × Nat)} {a : α} {d : Desk} (h : act.ConsultsAt ch refs)
    (hok : act ⟨ch, s⟩ = .ok a d) : d.session.seqs = s.seqs := by
  obtain ⟨t, -, hrun⟩ := h
  rw [hrun] at hok
  rw [(Dialogue.run_eq_ok hok).1, Session.seqs_grantAll]

end Encoding

theorem Event.apply_steady (e : Event) : e.apply.Steady := by
  intro d d' h
  have hseat := (e.apply_extends d).1
  rw [h] at hseat
  exact ⟨hseat, (e.apply_consults d.channel).seqs_eq h⟩

theorem applyEvents_steady (events : List Event) : (applyEvents events).Steady := by
  induction events with
  | nil =>
    intro d d' h
    cases h
    exact ⟨rfl, rfl⟩
  | cons e events ih =>
    intro d d' h
    obtain ⟨d₁, hfirst, hrest⟩ := forM_cons_eq_ok h
    obtain ⟨hseat, hseqs⟩ := e.apply_steady hfirst
    obtain ⟨hseat', hseqs'⟩ := ih hrest
    exact ⟨hseat'.trans hseat, hseqs'.trans hseqs⟩

theorem Encoding.finish_steady : finish.Steady := by
  intro d d' h
  refine ⟨?_, (finish_consults d.channel).seqs_eq h⟩
  cases hopen : d.channel.finished with
  | true =>
    simp only [finish, channel_bind, hopen, if_true] at h
    cases h
    rfl
  | false =>
    obtain ⟨ws, ch, last, hf, -, -, -, rfl⟩ := finish_cases hopen h
    exact hf.seat_eq

/-! ### Operations on songs -/

namespace Song

/-- The names and the voices of all channels. -/
def seats (song : Song) : List (String × Voice) := song.all.map (·.seat)

theorem names_eq_seats (song : Song) : song.names = song.seats.map (·.1) := by
  rw [seats, List.map_map]
  rfl

variable {song song' : Song} {s s' : Session} {act : Encoding Unit}

theorem onChannel?_steady {name : String} (hact : act.Steady)
    (h : song.onChannel? name act s = some (.ok () (song', s'))) :
    song'.seats = song.seats ∧ s'.seqs = s.seqs := by
  rw [onChannel?_eq] at h
  obtain ⟨ch, hch, hrun⟩ := Option.map_eq_some_iff.mp h
  obtain ⟨d, hd, hstate⟩ := EStateM.Result.mapState_eq_ok hrun
  cases hstate
  obtain ⟨hseat, hseqs⟩ := hact hd
  obtain ⟨before, after, hall, hput⟩ := exists_put hch
  refine ⟨?_, hseqs⟩
  rw [seats, hput, seats, hall]
  simp [hseat]

theorem onPattern_steady (hact : act.Steady) (h : onPattern act (song, s) = .ok () (song', s')) :
    song'.seats = song.seats ∧ s'.seqs = s.seqs := by
  rw [onPattern_eq] at h
  obtain ⟨d, hd, hstate⟩ := EStateM.Result.mapState_eq_ok h
  cases hstate
  obtain ⟨hseat, hseqs⟩ := hact hd
  exact ⟨congrArg (· :: _) hseat, hseqs⟩

theorem onEach_steady (hact : act.Steady) : ∀ {chs chs' : List Channel} {s s' : Session},
    onEach act s chs = .ok () (chs', s') →
      chs'.map (·.seat) = chs.map (·.seat) ∧ s'.seqs = s.seqs := by
  intro chs
  induction chs with
  | nil =>
    intro chs' s s' h
    cases h
    exact ⟨rfl, rfl⟩
  | cons ch chs ih =>
    intro chs' s s' h
    rw [onEach_cons] at h
    obtain ⟨⟨⟩, d, hfirst, h⟩ := EStateM.Result.next_eq_ok h
    obtain ⟨p, hrest, hstate⟩ := EStateM.Result.mapState_eq_ok h
    cases hstate
    obtain ⟨hseat, hseqs⟩ := hact hfirst
    obtain ⟨hseats, hseqs'⟩ := ih hrest
    exact ⟨by rw [List.map_cons, List.map_cons, hseat, hseats], hseqs'.trans hseqs⟩

theorem finish_steady (h : finish (song, s) = .ok () (song', s')) :
    song'.seats = song.seats ∧ s'.seqs = s.seqs := by
  obtain ⟨⟨⟩, ⟨song₁, s₁⟩, hvoices, h⟩ := bind_eq_ok h
  obtain ⟨⟨⟩, ⟨song₂, s₂⟩, hpattern, hreport⟩ := bind_eq_ok h
  rw [onVoices_eq] at hvoices
  obtain ⟨p, heach, hstate⟩ := EStateM.Result.mapState_eq_ok hvoices
  cases hstate
  obtain ⟨hvoices, hseqs⟩ := onEach_steady Encoding.finish_steady heach
  obtain ⟨hseats, hseqs'⟩ := onPattern_steady Encoding.finish_steady hpattern
  -- reports change neither
  have hkept := reportLengths_keeps (song₂, s₂) ⟨rfl, rfl, rfl⟩
  rw [hreport] at hkept
  obtain ⟨hsong, -, hmacros⟩ := hkept
  replace hsong : song' = song₂ := hsong
  replace hmacros : s'.macros = s₂.macros := hmacros
  have hseqs'' : s'.seqs = s₂.seqs := by
    funext e
    rw [Session.seqs, hmacros, Session.seqs]
  refine ⟨?_, hseqs''.trans (hseqs'.trans hseqs)⟩
  rw [hsong, hseats]
  exact congrArg (_ :: ·) hvoices

end Song

theorem enterChannels_steady {target : Platform} {channels : List (String × List Event)}
    {song song' : Song} {s s' : Session}
    (h : enterChannels target channels (song, s) = .ok () (song', s')) :
    song'.seats = song.seats ∧ s'.seqs = s.seqs := by
  refine enterChannels_related
    (R := fun p p' => p'.1.seats = p.1.seats ∧ p'.2.seqs = p.2.seqs) ?_ ?_ ?_ h
  · exact fun p => ⟨rfl, rfl⟩
  · exact fun hfirst hrest => ⟨hrest.1.trans hfirst.1, hrest.2.trans hfirst.2⟩
  · rintro name events song s ⟨song', s'⟩ hrun
    exact Song.onChannel?_steady (applyEvents_steady events) hrun

/-- **A song keeps the names and the voices of its channels.**  Its macros keep their parameters
too, until they are packed at the end. -/
theorem composeSong_steady {target : Platform} {script : Script} {song song' : Song}
    {s s' : Session} (h : composeSong target script (song, s) = .ok () (song', s')) :
    song'.seats = song.seats ∧ ∃ s₁, s₁.seqs = s.seqs ∧ target.packMacros s₁ = .ok () s' := by
  obtain ⟨⟨⟩, ⟨song₁, s₁⟩, henter, h⟩ := bind_eq_ok h
  obtain ⟨⟨⟩, ⟨song₂, s₂⟩, hpattern, h⟩ := bind_eq_ok h
  obtain ⟨⟨⟩, ⟨song₃, s₃⟩, hfinish, hpack⟩ := bind_eq_ok h
  obtain ⟨hseats₁, hseqs₁⟩ := enterChannels_steady henter
  obtain ⟨hseats₂, hseqs₂⟩ := Song.onPattern_steady (applyEvents_steady script.pattern) hpattern
  obtain ⟨hseats₃, hseqs₃⟩ := Song.finish_steady hfinish
  rw [Song.onSession_eq] at hpack
  obtain ⟨s₄, hpacked, hstate⟩ := EStateM.Result.mapState_eq_ok hpack
  cases hstate
  exact ⟨hseats₃.trans (hseats₂.trans hseats₁), s₃, hseqs₃.trans (hseqs₂.trans hseqs₁), hpacked⟩

/-- No symbol comes into the macros of a song. -/
theorem composeSong_keeps_allTexts {target : Platform} {script : Script} {song song' : Song}
    {s s' : Session} (h : composeSong target script (song, s) = .ok () (song', s'))
    {Q : String → Prop} (hwords : ∀ e, (s.macros.get e).AllTexts Q) :
    ∀ e, (s'.macros.get e).AllTexts Q := by
  obtain ⟨-, s₁, hseqs, hpacked⟩ := composeSong_steady h
  have hwords₁ : ∀ e, (s₁.macros.get e).AllTexts Q := fun e =>
    (hwords e).congr (congrFun hseqs e)
  have hkept := target.packMacros_keeps_allTexts s₁ hwords₁
  rw [hpacked] at hkept
  exact hkept

/-! ### Outputs -/

theorem ChannelStream.name_of_ofChannel {ch : Channel} {stream : ChannelStream}
    (h : ofChannel ch = .ok stream) : stream.name = ch.name := by
  obtain ⟨cs, -, h⟩ := exceptBind_eq_ok h
  cases h
  rfl

namespace TableEntry

variable {effect : Effect} {key : Nat}

/-- A part has not too many elements, and its symbols are those of the parameters. -/
theorem part_spec {params : List Param} {cells : List Cell}
    (h : part effect key params = .ok cells) :
    cells.length ≤ maxCells ∧ ∀ name, .symbol name ∈ cells → .text name ∈ params := by
  unfold part at h
  split at h
  · cases h
  · next hle =>
    have hlength : cells.length = params.length := by
      have hmap : cells.map (fun _ => ()) = params.map fun _ => () :=
        map_of_mapM h fun _ _ _ _ => rfl
      simpa using congrArg List.length hmap
    refine ⟨by omega, fun name hname => ?_⟩
    obtain ⟨param, hparam, hcell⟩ := (exists_of_mapM h).2 _ hname
    cases param with
    | text t =>
      cases hcell
      exact hparam
    | int n =>
      simp only [Cell.ofParam] at hcell
      split at hcell
      · cases hcell
      · cases hcell

theorem ofMacro_spec {m : Macro} {entry : TableEntry} (h : ofMacro effect m = .ok entry) :
    (entry.main.length ≤ maxCells ∧ entry.loop.length ≤ maxCells) ∧
      ∀ name, .symbol name ∈ entry.main ++ entry.loop → .text name ∈ m.seq.toList := by
  obtain ⟨main, hmain, h⟩ := exceptBind_eq_ok h
  obtain ⟨loop, hloop, h⟩ := exceptBind_eq_ok h
  cases h
  obtain ⟨hmainLength, hmainSymbols⟩ := part_spec hmain
  obtain ⟨hloopLength, hloopSymbols⟩ := part_spec hloop
  refine ⟨⟨hmainLength, hloopLength⟩, fun name hname => ?_⟩
  rcases List.mem_append.mp hname with hname | hname
  · exact List.mem_append_left _ (hmainSymbols name hname)
  · exact List.mem_append_right _ (hloopSymbols name hname)

end TableEntry

theorem MacroTable.exists_of_mem_entries {skip : Bool} {r : Registry} {t : MacroTable}
    (h : ofRegistry skip r = .ok t) {entry : TableEntry} (hentry : entry ∈ t.entries) :
    ∃ x ∈ r.entries.toList, TableEntry.ofMacro r.effect x.2 = .ok entry := by
  obtain ⟨entries, hentries, h⟩ := exceptBind_eq_ok h
  cases h
  obtain ⟨x, hx, hmacro⟩ := (exists_of_mapM hentries).2 entry hentry
  exact ⟨x, (List.mem_filter.mp hx).1, hmacro⟩

namespace Song

/-- The channels of the output have the names of channels of the song, each only once. -/
theorem outputChannels_names {song : Song} (h : song.names.Nodup) :
    (song.outputChannels.map (·.name)).Nodup ∧
      ∀ name ∈ song.outputChannels.map (·.name), name ∈ song.names := by
  unfold outputChannels
  split
  · exact ⟨(List.nodup_cons.mp h).2, fun name hname => List.mem_cons_of_mem _ hname⟩
  · rw [List.map_append]
    have hperm : (song.channels.map (·.name) ++ [song.pattern].map (·.name)).Perm song.names :=
      List.perm_append_comm
    exact ⟨hperm.nodup_iff.mpr h, fun name hname => hperm.mem_iff.mp hname⟩

end Song

namespace Output

variable {p : Platform} {song : Song} {s : Session} {o : Output}

theorem names_of_build (h : build p song s = .ok o) :
    o.channels.map (·.name) = song.outputChannels.map (·.name) :=
  map_of_mapM (build_eq_ok h).1 fun _ _ _ hstream => ChannelStream.name_of_ofChannel hstream

/-- **An output has a place in a file** if no name of a channel and no symbol among the parameters
of the macros has a line feed. -/
theorem plain_of_build (h : build p song s = .ok o)
    (hnames : ∀ name ∈ o.channels.map (·.name), Text.Unbroken name)
    (hwords : ∀ e, (s.macros.get e).AllTexts Text.Unbroken) : o.Plain := by
  have hentry : ∀ t ∈ o.tables, ∀ entry ∈ t.entries,
      (entry.main.length ≤ maxCells ∧ entry.loop.length ≤ maxCells) ∧
        ∀ name, .symbol name ∈ entry.main ++ entry.loop → Text.Unbroken name := by
    intro t ht entry he
    obtain ⟨r, hr, hrt⟩ := (exists_of_mapM (build_eq_ok h).2).2 t ht
    obtain ⟨e, rfl⟩ := MacroBank.mem_toList.mp (List.mem_filter.mp hr).1
    obtain ⟨x, hx, hmacro⟩ := MacroTable.exists_of_mem_entries hrt he
    obtain ⟨hlengths, hsymbols⟩ := TableEntry.ofMacro_spec hmacro
    exact ⟨hlengths, fun name hname => hwords e _ (List.mem_map_of_mem hx) name
      (hsymbols name hname)⟩
  refine ⟨fun ch hch => hnames _ (List.mem_map_of_mem hch), ?_, ?_⟩
  · exact fun t ht entry he => (hentry t ht entry he).2
  · exact fun t ht entry he => (hentry t ht entry he).1

/-- There is at most one table for each effect, and its macros are in the order of their keys. -/
theorem tables_of_build (h : build p song s = .ok o) (htidy : s.Tidy) :
    (o.tables.map (·.effect)).Nodup ∧ ∀ t ∈ o.tables, (t.entries.map (·.key)).Pairwise (· < ·) := by
  have htables := (build_eq_ok h).2
  constructor
  · have heffects : o.tables.map (·.effect) =
        (s.macros.toList.filter fun r => !r.entries.isEmpty).map (·.effect) :=
      map_of_mapM htables fun r _ t ht => MacroTable.effect_of_ofRegistry ht
    have hall : s.macros.toList.map (·.effect) = Effect.all := by
      rw [MacroBank.toList_eq, List.map_map]
      exact (List.map_congr_left fun e _ => (htidy e).effect).trans (List.map_id _)
    have hnodup : (s.macros.toList.map (·.effect)).Nodup := by
      rw [hall]
      decide
    rw [heffects]
    exact hnodup.sublist (List.filter_sublist.map _)
  · intro t ht
    obtain ⟨r, hr, hrt⟩ := (exists_of_mapM htables).2 t ht
    obtain ⟨e, rfl⟩ := MacroBank.mem_toList.mp (List.mem_filter.mp hr).1
    rw [MacroTable.keys_of_ofRegistry hrt (htidy e)]
    exact (htidy e).ordered.sublist (List.filter_sublist.map _)

end Output

/-! ### Compilations -/

theorem Script.compile_eq_ok {script : Script} {options : Options} {c : Compilation}
    (h : script.compile options = .ok c) :
    ∃ session, script.compileIn (.new (script.options.merge options)) = .ok c.output session := by
  unfold compile at h
  cases hrun : script.compileIn (.new (script.options.merge options)) with
  | error e s =>
    rw [hrun] at h
    cases h
  | ok output session =>
    rw [hrun] at h
    cases h
    exact ⟨session, rfl⟩

/-- **The names in an output are those of the platform, and the symbols those of the script.** -/
theorem Script.compileIn_provenance {script : Script} {o : Options} {output : Output}
    {session : Session} (h : script.compileIn (.new o) = .ok output session) :
    (output.channels.map (·.name)).Nodup ∧
      (∀ name ∈ output.channels.map (·.name),
        name ∈ Song.patternName :: (script.platform o).voices.map (·.1)) ∧
      ∀ Q : String → Prop, (∀ d ∈ script.macros, ∀ text, .text text ∈ d.seq.toList → Q text) →
        ∀ e, (session.macros.get e).AllTexts Q := by
  obtain ⟨s₁, song, hdefine, hcompose, hbuild⟩ := compileIn_eq_ok h
  have hnames := congrArg (List.map Prod.fst) (composeSong_steady hcompose).1
  rw [← Song.names_eq_seats, ← Song.names_eq_seats] at hnames
  have hnodup := Song.nodup_names_new (script.platform (Session.new o).options)
    (s₁.options.clock (script.platform (Session.new o).options)) script.tempo
  rw [← hnames] at hnodup
  obtain ⟨houtput, hmem⟩ := Song.outputChannels_names hnodup
  rw [Output.names_of_build hbuild]
  refine ⟨houtput, fun name hname => ?_, fun Q hQ => composeSong_keeps_allTexts hcompose ?_⟩
  · have hname := hmem name hname
    rw [hnames] at hname
    simpa [Song.names, Song.new, Channel.new, Session.new] using hname
  · have hnew : ∀ e, ((Session.new o).macros.get e).AllTexts Q := by
      intro e
      rw [Session.new, MacroBank.get_new]
      exact Registry.allTexts_new e
    have hkept := Session.defineMacros_keeps_allTexts hQ (.new o) hnew
    rw [hdefine] at hkept
    exact hkept

end Chiptune
