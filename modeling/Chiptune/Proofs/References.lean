import Chiptune.Playback.Player
import Chiptune.Proofs.Selection

/-!
# References to macros are exact

A compilation counts the references to each macro, and macros without references can be left out of
the output.  The count is that of the commands in the output which select the macro.  So what is
left out is what no channel needs, and a channel can always be played with the macros that there
are.

## Main definitions

* `Song.selections`, `Output.selections` — the macros that the channels of a song or of an output
  select.
* `Encoding.Balanced` — an operation that counts a reference for each macro that it selects.

## Main results

* `composeSong_balances` — a song is composed with a reference for each selection.
* `Output.selections_of_build` — the output selects what the song selects.
* `MacroBank.exists_table` — which macros are in the table of an effect.
* `Player.exists_performAll` — a channel that selects only macros that are there can be played.
* `compile_references` — references are exact.
-/

namespace Chiptune

/-! ### Songs -/

namespace Song

/-- All channels of a song. -/
def all (song : Song) : List Channel := song.pattern :: song.channels

/-- The macros that the channels select. -/
def selections (song : Song) : List (Effect × Nat) := song.all.flatMap (·.selections)

/-- No channel of the song has ended. -/
def Open (song : Song) : Prop := ∀ ch ∈ song.all, ch.Open

theorem exists_replaceFirst {name : String} {ch : Channel} : ∀ {chs : List Channel},
    chs.find? (·.name == name) = some ch → ∃ before after, chs = before ++ ch :: after ∧
      ∀ ch', replaceFirst name ch' chs = before ++ ch' :: after := by
  intro chs
  induction chs with
  | nil => intro h; cases h
  | cons c chs ih =>
    intro h
    rw [List.find?_cons] at h
    cases hname : c.name == name with
    | true =>
      rw [hname] at h
      cases h
      exact ⟨[], chs, rfl, fun ch' => by simp [replaceFirst, hname]⟩
    | false =>
      rw [hname] at h
      obtain ⟨before, after, rfl, hreplace⟩ := ih h
      exact ⟨c :: before, after, rfl, fun ch' => by simp [replaceFirst, hname, hreplace]⟩

/-- The channel of a name has a place among all channels, and what is put under the name comes to
this place. -/
theorem exists_put {song : Song} {name : String} {ch : Channel}
    (h : song.named? name = some ch) : ∃ before after, song.all = before ++ ch :: after ∧
      ∀ ch', (song.put name ch').all = before ++ ch' :: after := by
  unfold named? at h
  unfold put
  cases hname : song.pattern.name == name with
  | true =>
    rw [hname, if_pos rfl] at h
    cases h
    exact ⟨[], song.channels, rfl, fun _ => rfl⟩
  | false =>
    rw [hname, if_neg (by simp)] at h
    obtain ⟨before, after, hall, hreplace⟩ := exists_replaceFirst h
    refine ⟨song.pattern :: before, after, by simp [all, hall], fun ch' => ?_⟩
    simp [all, hreplace]

end Song

/-- An operation that counts a reference for each macro that it selects. -/
def Encoding.Balanced (act : Encoding Unit) : Prop :=
  ∀ {d d' : Desk}, act d = .ok () d' → d.channel.Open → d.session.Tidy →
    d'.channel.Open ∧ d.session.Balances d.channel.selections d'.session d'.channel.selections

theorem applyEvents_balanced (events : List Event) : (applyEvents events).Balanced :=
  applyEvents_balances

namespace Song

variable {song song' : Song} {s s' : Session}

/-- A channel takes the place of another one, and the others stay as they are. -/
theorem replace_balances {before after : List Channel} {ch ch' : Channel}
    (hall : song.all = before ++ ch :: after) (hall' : song'.all = before ++ ch' :: after)
    (hopen : song.Open) (hopen' : ch'.Open) (h : s.Balances ch.selections s' ch'.selections) :
    song'.Open ∧ s.Balances song.selections s' song'.selections := by
  constructor
  · intro c hc
    rw [hall'] at hc
    rcases List.mem_append.mp hc with hc | hc
    · exact hopen c (by rw [hall]; exact List.mem_append_left _ hc)
    · rcases List.mem_cons.mp hc with rfl | hc
      · exact hopen'
      · exact hopen c (by rw [hall]; exact List.mem_append_right _ (List.mem_cons_of_mem _ hc))
  · rw [selections, selections, hall, hall', List.flatMap_append, List.flatMap_append,
      List.flatMap_cons, List.flatMap_cons]
    exact (Session.Balances.refl s _).append (h.append (.refl s' _))

theorem onChannel?_balances {name : String} {act : Encoding Unit} (hact : act.Balanced)
    (h : song.onChannel? name act s = some (.ok () (song', s'))) (hopen : song.Open)
    (htidy : s.Tidy) : song'.Open ∧ s.Balances song.selections s' song'.selections := by
  rw [onChannel?_eq] at h
  obtain ⟨ch, hch, hrun⟩ := Option.map_eq_some_iff.mp h
  obtain ⟨d, hd, hstate⟩ := EStateM.Result.mapState_eq_ok hrun
  cases hstate
  obtain ⟨before, after, hall, hput⟩ := exists_put hch
  have hmem : ch ∈ song.all := by
    rw [hall]
    exact List.mem_append_right _ List.mem_cons_self
  obtain ⟨hopen', hbalances⟩ := hact hd (hopen ch hmem) htidy
  exact replace_balances hall (hput _) hopen hopen' hbalances

theorem onPattern_balances {act : Encoding Unit} (hact : act.Balanced)
    (h : onPattern act (song, s) = .ok () (song', s')) (hopen : song.Open) (htidy : s.Tidy) :
    song'.Open ∧ s.Balances song.selections s' song'.selections := by
  rw [onPattern_eq] at h
  obtain ⟨d, hd, hstate⟩ := EStateM.Result.mapState_eq_ok h
  cases hstate
  obtain ⟨hopen', hbalances⟩ := hact hd (hopen _ List.mem_cons_self) htidy
  have hall : song.all = [] ++ song.pattern :: song.channels := rfl
  exact replace_balances hall rfl hopen hopen' hbalances

end Song

/-- Events on one channel after the other: what they do to the song and the session is what some
events on one channel can do, step by step. -/
theorem enterChannels_related {target : Platform} {R : Song × Session → Song × Session → Prop}
    (hrefl : ∀ p, R p p) (htrans : ∀ {p p' p''}, R p p' → R p' p'' → R p p'')
    (hstep : ∀ {name : String} {events : List Event} {song : Song} {s : Session}
      {p : Song × Session}, song.onChannel? name (applyEvents events) s = some (.ok () p) →
        R (song, s) p) : ∀ {channels : List (String × List Event)} {p p' : Song × Session},
    enterChannels target channels p = .ok () p' → R p p' := by
  intro channels
  induction channels with
  | nil =>
    intro p p' h
    cases h
    exact hrefl p
  | cons channel channels ih =>
    rintro ⟨song, s⟩ p' h
    obtain ⟨p₁, hfirst, hrest⟩ := forM_cons_eq_ok h
    cases hrun : song.onChannel? channel.1 (applyEvents channel.2) s with
    | none => simp [hrun] at hfirst
    | some r =>
      simp only [hrun] at hfirst
      subst hfirst
      exact htrans (hstep hrun) (ih hrest)

theorem enterChannels_balances {target : Platform} {channels : List (String × List Event)}
    {song song' : Song} {s s' : Session}
    (h : enterChannels target channels (song, s) = .ok () (song', s')) :
    song.Open → s.Tidy → song'.Open ∧ s.Balances song.selections s' song'.selections := by
  refine enterChannels_related (R := fun p p' => p.1.Open → p.2.Tidy →
    p'.1.Open ∧ p.2.Balances p.1.selections p'.2 p'.1.selections) ?_ ?_ ?_ h
  · intro p hopen _
    exact ⟨hopen, .refl _ _⟩
  · intro p p' p'' hfirst hrest hopen htidy
    obtain ⟨hopen', hbalances⟩ := hfirst hopen htidy
    obtain ⟨hopen'', hbalances'⟩ := hrest hopen' (hbalances.tidy htidy)
    exact ⟨hopen'', hbalances.trans hbalances'⟩
  · rintro name events song s ⟨song', s'⟩ hrun hopen htidy
    exact Song.onChannel?_balances (applyEvents_balanced events) hrun hopen htidy

/-! ### The end of a song -/

namespace Song

theorem onEach_finish_balances : ∀ {chs chs' : List Channel} {s s' : Session},
    onEach Encoding.finish s chs = .ok () (chs', s') → (∀ ch ∈ chs, ch.Open) →
      (∀ ch ∈ chs', ch.tuplet = none) ∧
        s.Balances (chs.flatMap (·.selections)) s' (chs'.flatMap (·.selections)) := by
  intro chs
  induction chs with
  | nil =>
    intro chs' s s' h _
    cases h
    exact ⟨by simp, .refl _ _⟩
  | cons ch chs ih =>
    intro chs' s s' h hopen
    obtain ⟨hch, hchs⟩ := List.forall_mem_cons.mp hopen
    rw [onEach_cons] at h
    obtain ⟨⟨⟩, d, hfirst, h⟩ := EStateM.Result.next_eq_ok h
    obtain ⟨p, hrest, hstate⟩ := EStateM.Result.mapState_eq_ok h
    cases hstate
    obtain ⟨htuplet, hbalances⟩ := Encoding.finish_balances hfirst hch
    obtain ⟨htuplets, hbalances'⟩ := ih hrest hchs
    exact ⟨List.forall_mem_cons.mpr ⟨htuplet, htuplets⟩, hbalances.append hbalances'⟩

/-- Reports change neither the song nor its macros. -/
theorem reportLengths_keeps {song : Song} {o : Options} {bank : MacroBank} :
    Keeps (fun p : Song × Session => p.1 = song ∧ p.2.options = o ∧ p.2.macros = bank)
      reportLengths := by
  rintro ⟨song₁, s₁⟩ hp
  refine Keeps.forM
    (P := fun p : Song × Session => p.1 = song ∧ p.2.options = o ∧ p.2.macros = bank)
    (song₁.channels.filter (·.hasNotes)) (fun ch _ => ?_) (song₁, s₁) hp
  rintro ⟨song₂, s₂⟩ hp₂
  split
  · exact hp₂
  · simp only [onSession, Session.warn_apply]
    cases s₂.journal.strict <;> exact hp₂

theorem reportLengths_balances {song song' : Song} {s s' : Session}
    (h : reportLengths (song, s) = .ok () (song', s')) (sel : List (Effect × Nat)) :
    song' = song ∧ s.Balances sel s' sel := by
  have hkept := reportLengths_keeps (song, s) ⟨rfl, rfl, rfl⟩
  rw [h] at hkept
  obtain ⟨hsong, hoptions, hmacros⟩ := hkept
  replace hmacros : s'.macros = s.macros := hmacros
  refine ⟨hsong, hoptions, fun htidy e => ?_, fun e key => ?_⟩
  · rw [hmacros]
    exact htidy e
  · rw [Session.refCount, hmacros]
    rfl

/-- A song ends without selecting anything more, and no marker is waiting after it. -/
theorem finish_balances {song song' : Song} {s s' : Session}
    (h : finish (song, s) = .ok () (song', s')) (hopen : song.Open) :
    (∀ ch ∈ song'.all, ch.tuplet = none) ∧ s.Balances song.selections s' song'.selections := by
  obtain ⟨⟨⟩, ⟨song₁, s₁⟩, hvoices, h⟩ := bind_eq_ok h
  obtain ⟨⟨⟩, ⟨song₂, s₂⟩, hpattern, hreport⟩ := bind_eq_ok h
  obtain ⟨hopenPattern, hopenVoices⟩ := List.forall_mem_cons.mp hopen
  -- first the voices
  rw [onVoices_eq] at hvoices
  obtain ⟨p, heach, hstate⟩ := EStateM.Result.mapState_eq_ok hvoices
  cases hstate
  obtain ⟨htuplets, hbalances⟩ := onEach_finish_balances heach hopenVoices
  -- then the patterns
  rw [onPattern_eq] at hpattern
  obtain ⟨d, hd, hstate⟩ := EStateM.Result.mapState_eq_ok hpattern
  cases hstate
  obtain ⟨htuplet, hbalances'⟩ := Encoding.finish_balances hd hopenPattern
  -- and the reports
  obtain ⟨rfl, hbalances''⟩ := reportLengths_balances hreport _
  refine ⟨List.forall_mem_cons.mpr ⟨htuplet, htuplets⟩, ?_⟩
  exact (hbalances.append hbalances').swap.trans hbalances''

end Song

/-- Packing selects nothing and counts nothing. -/
theorem Platform.packMacros_balances {p : Platform} {s s' : Session}
    (h : p.packMacros s = .ok () s') (sel : List (Effect × Nat)) : s.Balances sel s' sel := by
  have hrest := p.packMacros_keeps_rest s ⟨rfl, rfl⟩
  have htidy := p.packMacros_keeps_tidy s
  have hcount : (p.packMacros s).state.refCount = s.refCount := p.packMacros_keeps_refCount s rfl
  rw [h] at hrest htidy hcount
  refine ⟨hrest.1, htidy, fun e key => ?_⟩
  rw [← hcount]
  rfl

/-- **A song is composed with a reference for each selection.** -/
theorem composeSong_balances {target : Platform} {script : Script} {song song' : Song}
    {s s' : Session} (h : composeSong target script (song, s) = .ok () (song', s'))
    (hopen : song.Open) (htidy : s.Tidy) :
    (∀ ch ∈ song'.all, ch.tuplet = none) ∧ s.Balances song.selections s' song'.selections := by
  obtain ⟨⟨⟩, ⟨song₁, s₁⟩, henter, h⟩ := bind_eq_ok h
  obtain ⟨⟨⟩, ⟨song₂, s₂⟩, hpattern, h⟩ := bind_eq_ok h
  obtain ⟨⟨⟩, ⟨song₃, s₃⟩, hfinish, hpack⟩ := bind_eq_ok h
  obtain ⟨hopen₁, hbalances₁⟩ := enterChannels_balances henter hopen htidy
  obtain ⟨hopen₂, hbalances₂⟩ := Song.onPattern_balances (applyEvents_balanced script.pattern)
    hpattern hopen₁ (hbalances₁.tidy htidy)
  obtain ⟨htuplets, hbalances₃⟩ := Song.finish_balances hfinish hopen₂
  rw [Song.onSession_eq] at hpack
  obtain ⟨s₄, hpacked, hstate⟩ := EStateM.Result.mapState_eq_ok hpack
  cases hstate
  have hbalances₄ := Platform.packMacros_balances hpacked song'.selections
  exact ⟨htuplets, ((hbalances₁.trans hbalances₂).trans hbalances₃).trans hbalances₄⟩

/-! ### Outputs -/

theorem exceptBind_eq_ok {ε α β : Type} {x : Except ε α} {f : α → Except ε β} {b : β}
    (h : x >>= f = .ok b) : ∃ a, x = .ok a ∧ f a = .ok b := by
  cases x with
  | error e => cases h
  | ok a => exact ⟨a, rfl, h⟩

theorem exists_of_map_toOption {ε α β : Type} {x : Except ε α} {f : α → β} {b : β}
    (h : x.toOption.map f = some b) : ∃ a, x = .ok a ∧ f a = b := by
  cases x with
  | error e => cases h
  | ok a => exact ⟨a, rfl, Option.some.inj h⟩

/-- What is true of each result of a traversal that succeeds, by the member that it comes from. -/
theorem map_of_mapM {ε α β γ : Type} {f : α → Except ε β} {g : β → γ} {g' : α → γ} :
    ∀ {xs : List α} {ys : List β}, xs.mapM f = .ok ys →
      (∀ x ∈ xs, ∀ y, f x = .ok y → g y = g' x) → ys.map g = xs.map g' := by
  intro xs
  induction xs with
  | nil =>
    intro ys h _
    cases h
    rfl
  | cons x xs ih =>
    intro ys h hg
    obtain ⟨hx, hxs⟩ := List.forall_mem_cons.mp hg
    rw [List.mapM_cons] at h
    obtain ⟨y, hfirst, h⟩ := exceptBind_eq_ok h
    obtain ⟨ys', hrest, h⟩ := exceptBind_eq_ok h
    cases h
    rw [List.map_cons, List.map_cons, hx y hfirst, ih hrest hxs]

/-- The results of a traversal that succeeds are those of the members. -/
theorem exists_of_mapM {ε α β : Type} {f : α → Except ε β} {xs : List α} {ys : List β}
    (h : xs.mapM f = .ok ys) :
    (∀ x ∈ xs, ∃ y ∈ ys, f x = .ok y) ∧ ∀ y ∈ ys, ∃ x ∈ xs, f x = .ok y := by
  have hmap : ys.map .ok = xs.map f := map_of_mapM h fun x _ y hy => hy.symm
  constructor
  · intro x hx
    have hmem : f x ∈ xs.map f := List.mem_map_of_mem hx
    rw [← hmap] at hmem
    obtain ⟨y, hy, hxy⟩ := List.mem_map.mp hmem
    exact ⟨y, hy, hxy.symm⟩
  · intro y hy
    have hmem : (.ok y : Except ε β) ∈ ys.map .ok := List.mem_map_of_mem hy
    rw [hmap] at hmem
    exact List.mem_map.mp hmem

theorem ChannelStream.ofChannel_spec {ch : Channel} {stream : ChannelStream}
    (h : ofChannel ch = .ok stream) :
    decodeCommands stream.data = .ok stream.commands ∧ ch.commands = stream.commands := by
  obtain ⟨cs, hdecode, h⟩ := exceptBind_eq_ok h
  cases h
  exact ⟨hdecode, by rw [Channel.commands, hdecode]⟩

namespace Output

/-- The macros that the channels of an output select. -/
def selections (o : Output) : List (Effect × Nat) :=
  o.channels.flatMap fun stream => stream.commands.filterMap Command.selection?

theorem build_eq_ok {p : Platform} {song : Song} {s : Session} {o : Output}
    (h : build p song s = .ok o) :
    song.outputChannels.mapM ChannelStream.ofChannel = .ok o.channels ∧
      (s.macros.toList.filter fun r => !r.entries.isEmpty).mapM
        (MacroTable.ofRegistry s.options.skipUnreferenced) = .ok o.tables := by
  obtain ⟨channels, hchannels, h⟩ := exceptBind_eq_ok h
  obtain ⟨tables, htables, h⟩ := exceptBind_eq_ok h
  cases h
  exact ⟨hchannels, htables⟩

end Output

/-- A channel that only ends selects nothing. -/
theorem Channel.selections_of_stop {ch : Channel} (hdata : ch.data = #[0xFF])
    (ht : ch.tuplet = none) : ch.selections = [] := by
  have hread := @Reader.readAll_ofBytes ch.clock [] .stop ch.data.toList (by rw [hdata]; rfl)
    (by simp) trivial rfl
  rw [selections, commands, decodeCommands, hread, marked_of_none ht]
  rfl

/-- The patterns are left out of an output only if they select nothing. -/
theorem Song.count_outputChannels {song : Song} (h : ∀ ch ∈ song.all, ch.tuplet = none)
    (r : Effect × Nat) :
    (song.outputChannels.flatMap (·.selections)).count r = song.selections.count r := by
  have hall : song.selections = song.pattern.selections ++ song.channels.flatMap (·.selections) :=
    List.flatMap_cons
  rw [hall]
  unfold outputChannels
  split
  · next hdata =>
    rw [Channel.selections_of_stop hdata (h _ List.mem_cons_self)]
    rfl
  · rw [List.flatMap_append, List.count_append, List.count_append, Nat.add_comm]
    simp

/-- **The output selects what the song selects.** -/
theorem Output.selections_of_build {p : Platform} {song : Song} {s : Session} {o : Output}
    (h : build p song s = .ok o) (htuplets : ∀ ch ∈ song.all, ch.tuplet = none)
    (r : Effect × Nat) : o.selections.count r = song.selections.count r := by
  have hsub : ∀ ch ∈ song.outputChannels, ch ∈ song.all := by
    intro ch hch
    unfold Song.outputChannels at hch
    split at hch
    · exact List.mem_cons_of_mem _ hch
    · rcases List.mem_append.mp hch with hch | hch
      · exact List.mem_cons_of_mem _ hch
      · rw [List.mem_singleton.mp hch]
        exact List.mem_cons_self
  have hstreams : o.channels.map (fun stream => stream.commands.filterMap Command.selection?) =
      song.outputChannels.map (·.selections) := by
    refine map_of_mapM (build_eq_ok h).1 fun ch hch stream hstream => ?_
    rw [Channel.selections, (ChannelStream.ofChannel_spec hstream).2,
      Channel.marked_of_none (htuplets ch (hsub ch hch)), List.append_nil]
  rw [← song.count_outputChannels htuplets, selections, List.flatMap_def, hstreams,
    ← List.flatMap_def]

/-! ### Tables -/

/-- The registries are those of the effects, in the driver's numbering. -/
theorem MacroBank.toList_eq (b : MacroBank) : b.toList = Effect.all.map b.get := by
  have hindex : ∀ i : Fin 14, (Effect.all[i]).index = i := by decide
  refine List.ext_getElem (by simp [toList, Effect.all]) fun i hi hi' => ?_
  have hi14 : i < 14 := by simpa [toList] using hi
  have hget := congrArg Fin.val (hindex ⟨i, hi14⟩)
  simp only [Fin.getElem_fin] at hget
  simp [toList, get, hget]

theorem MacroBank.mem_toList {b : MacroBank} {r : Registry} :
    r ∈ b.toList ↔ ∃ e, b.get e = r := by
  rw [toList_eq, List.mem_map]
  exact ⟨fun ⟨e, _, he⟩ => ⟨e, he⟩, fun ⟨e, he⟩ => ⟨e, e.mem_all, he⟩⟩

theorem TableEntry.key_of_ofMacro {effect : Effect} {m : Macro} {entry : TableEntry}
    (h : ofMacro effect m = .ok entry) : entry.key = m.key := by
  obtain ⟨main, -, h⟩ := exceptBind_eq_ok h
  obtain ⟨loop, -, h⟩ := exceptBind_eq_ok h
  cases h
  rfl

/-- A table belongs to the effect of its registry. -/
theorem MacroTable.effect_of_ofRegistry {skip : Bool} {r : Registry} {t : MacroTable}
    (h : ofRegistry skip r = .ok t) : t.effect = r.effect := by
  obtain ⟨entries, -, h⟩ := exceptBind_eq_ok h
  cases h
  rfl

/-- The keys in a table are those under which the macros are stored that are not left out. -/
theorem MacroTable.keys_of_ofRegistry {skip : Bool} {e : Effect} {r : Registry} {t : MacroTable}
    (h : ofRegistry skip r = .ok t) (htidy : r.Tidy e) :
    t.entries.map (·.key) =
      (r.entries.toList.filter fun x => !(skip && x.2.refCount == 0)).map (·.1) := by
  obtain ⟨entries, hentries, h⟩ := exceptBind_eq_ok h
  cases h
  refine map_of_mapM hentries fun x hx entry hentry => ?_
  exact (TableEntry.key_of_ofMacro hentry).trans (htidy.own_key x (List.mem_filter.mp hx).1)

/-- A macro is left out of the table of its registry only if that is wanted and no reference to it
was counted. -/
theorem MacroTable.mem_keys_iff {skip : Bool} {e : Effect} {r : Registry} {t : MacroTable}
    (h : ofRegistry skip r = .ok t) (htidy : r.Tidy e) {key : Nat} :
    key ∈ t.entries.map (·.key) ↔
      ∃ m, r.get? key = some m ∧ (skip = true → m.refCount ≠ 0) := by
  rw [keys_of_ofRegistry h htidy]
  constructor
  · intro hkey
    obtain ⟨⟨key', m⟩, hm, rfl⟩ := List.mem_map.mp hkey
    obtain ⟨hm, hcount⟩ := List.mem_filter.mp hm
    refine ⟨m, (Keyed.mem_toList_iff htidy.ordered).mp hm, fun hskip => ?_⟩
    simpa [hskip] using hcount
  · rintro ⟨m, hm, hcount⟩
    have hmem : (key, m) ∈ r.entries.toList := (Keyed.mem_toList_iff htidy.ordered).mpr hm
    refine List.mem_map.mpr ⟨(key, m), List.mem_filter.mpr ⟨hmem, ?_⟩, rfl⟩
    cases skip with
    | false => rfl
    | true => simpa using hcount rfl

/-- The registry of an effect with macros has a table, and no other table is of the effect. -/
theorem MacroBank.exists_ofRegistry {bank : MacroBank} {skip : Bool} {tables : List MacroTable}
    (htidy : ∀ e, (bank.get e).Tidy e)
    (h : (bank.toList.filter fun r => !r.entries.isEmpty).mapM (MacroTable.ofRegistry skip) =
      .ok tables)
    {e : Effect} {key : Nat} {m : Macro} (hm : (bank.get e).get? key = some m) :
    ∃ t ∈ tables, MacroTable.ofRegistry skip (bank.get e) = .ok t ∧ t.effect = e ∧
      ∀ t' ∈ tables, t'.effect = e → t' = t := by
  obtain ⟨htable, hregistry⟩ := exists_of_mapM h
  have hmem : (key, m) ∈ (bank.get e).entries.toList :=
    (Keyed.mem_toList_iff (htidy e).ordered).mpr hm
  -- the registry is not empty, so it has a table
  have hdefined : bank.get e ∈ bank.toList.filter fun r => !r.entries.isEmpty := by
    refine List.mem_filter.mpr ⟨mem_toList.mpr ⟨e, rfl⟩, ?_⟩
    cases hentries : (bank.get e).entries.toList with
    | nil => rw [hentries] at hmem; cases hmem
    | cons x xs => simp [Keyed.isEmpty, hentries]
  obtain ⟨t, htables, ht⟩ := htable _ hdefined
  have heffect := MacroTable.effect_of_ofRegistry ht
  refine ⟨t, htables, ht, heffect.trans (htidy e).effect, fun t' ht' heffect' => ?_⟩
  -- another table of the effect would come from the same registry
  obtain ⟨r, hr, hrt'⟩ := hregistry t' ht'
  obtain ⟨e', rfl⟩ := mem_toList.mp (List.mem_filter.mp hr).1
  have he' : e' = e := by
    rw [← heffect', MacroTable.effect_of_ofRegistry hrt', (htidy e').effect]
  subst he'
  exact Except.ok.inj (hrt'.symm.trans ht)

/-- **Every macro has its place in one table**, and is left out of it only if that is wanted and no
reference to it was counted. -/
theorem MacroBank.exists_table {bank : MacroBank} {skip : Bool} {tables : List MacroTable}
    (htidy : ∀ e, (bank.get e).Tidy e)
    (h : (bank.toList.filter fun r => !r.entries.isEmpty).mapM (MacroTable.ofRegistry skip) =
      .ok tables)
    {e : Effect} {key : Nat} {m : Macro} (hm : (bank.get e).get? key = some m) :
    ∃ t ∈ tables, t.effect = e ∧ (∀ t' ∈ tables, t'.effect = e → t' = t) ∧
      (key ∈ t.entries.map (·.key) ↔ (skip = true → m.refCount ≠ 0)) := by
  obtain ⟨t, htables, ht, heffect, hunique⟩ := exists_ofRegistry htidy h hm
  refine ⟨t, htables, heffect, hunique, ?_⟩
  rw [MacroTable.mem_keys_iff ht (htidy e)]
  constructor
  · rintro ⟨m', hm', hcount⟩
    cases hm'.symm.trans hm
    exact hcount
  · exact fun hcount => ⟨m, hm, hcount⟩

/-! ### Playing -/

/-- **A channel can be played** if every macro that it selects is there. -/
theorem Player.exists_performAll {bank : MacroBank} : ∀ {cs : List Command},
    (∀ c ∈ cs, ∀ e key, c.selection? = some (e, key) → ∃ m, (bank.get e).get? key = some m) →
      ∀ p : Player, ∃ p', p.performAll bank cs = .ok p' := by
  intro cs
  induction cs with
  | nil => exact fun _ p => ⟨p, rfl⟩
  | cons c cs ih =>
    intro h p
    obtain ⟨hc, hcs⟩ := List.forall_mem_cons.mp h
    unfold performAll
    split
    · exact ⟨p, rfl⟩
    · -- only a command that selects a macro can fail
      have hperform : ∃ p', p.perform bank c = .ok p' := by
        cases c with
        | effectOn e operand =>
          obtain ⟨m, hm⟩ := hc e _ rfl
          exact ⟨p.enable e operand m, by simp only [perform, hm]⟩
        | _ => exact ⟨_, rfl⟩
      obtain ⟨p', hp'⟩ := hperform
      rw [hp']
      exact ih hcs p'

/-! ### Compilations -/

theorem Song.open_new (p : Platform) (clock : FrameClock) (tempo : Nat) :
    (new p clock tempo).Open ∧ (new p clock tempo).selections = [] := by
  have hnew : ∀ ch ∈ (new p clock tempo).all, ∃ name voice, ch = .new name voice clock tempo := by
    intro ch hch
    rcases List.mem_cons.mp hch with rfl | hch
    · exact ⟨_, _, rfl⟩
    · obtain ⟨v, -, rfl⟩ := List.mem_map.mp hch
      exact ⟨_, _, rfl⟩
  refine ⟨fun ch hch => ?_, List.flatMap_eq_nil_iff.mpr fun ch hch => ?_⟩
  · obtain ⟨name, voice, rfl⟩ := hnew ch hch
    exact Channel.open_new name voice clock tempo
  · obtain ⟨name, voice, rfl⟩ := hnew ch hch
    exact Channel.selections_new name voice clock tempo

theorem Script.compileIn_eq_ok {script : Script} {s s' : Session} {o : Output}
    (h : script.compileIn s = .ok o s') :
    ∃ s₁ song, Session.defineMacros script.macros s = .ok () s₁ ∧
      composeSong (script.platform s.options) script
        (Song.new (script.platform s.options) (s₁.options.clock (script.platform s.options))
          script.tempo, s₁) = .ok () (song, s') ∧
      Output.build (script.platform s.options) song s' = .ok o := by
  rw [compileIn_eq] at h
  split at h
  · cases h
  · obtain ⟨⟨⟩, s₁, hdefine, h⟩ := EStateM.Result.next_eq_ok h
    obtain ⟨⟨⟩, ⟨song, s₂⟩, hcompose, h⟩ := EStateM.Result.next_eq_ok h
    cases hbuild : Output.build (script.platform s.options) song s₂ with
    | error e => simp [hbuild] at h
    | ok output =>
      simp only [hbuild] at h
      cases h
      exact ⟨s₁, song, hdefine, hcompose, hbuild⟩

theorem Registry.exists_of_refCount_pos {r : Registry} {key : Nat} (h : 0 < r.refCount key) :
    ∃ m, r.get? key = some m := by
  unfold refCount at h
  cases hm : r.get? key with
  | none => simp [hm] at h
  | some m => exact ⟨m, rfl⟩

/-- A compilation that succeeds has counted as many references to each macro as there are commands
in the output that select it. -/
theorem Script.compileIn_references {script : Script} {o : Options} {output : Output}
    {session : Session} (h : script.compileIn (.new o) = .ok output session) :
    session.options = o ∧ session.Tidy ∧
      ∀ e key, session.refCount e key = output.selections.count (e, key) := by
  obtain ⟨s₁, song, hdefine, hcompose, hbuild⟩ := compileIn_eq_ok h
  -- definitions count nothing
  have hrest := Session.defineMacros_keeps_rest script.macros (.new o) ⟨rfl, rfl⟩
  have htidy := Session.defineMacros_keeps_tidy script.macros (.new o) (Session.tidy_new o)
  have hcount : (Session.defineMacros script.macros (.new o)).state.refCount =
      (Session.new o).refCount :=
    Session.defineMacros_keeps_refCount script.macros (.new o) rfl
  rw [hdefine] at hrest htidy hcount
  replace hcount : s₁.refCount = (Session.new o).refCount := hcount
  -- the song counts what it selects, and the output selects the same
  obtain ⟨hopen, hnone⟩ := Song.open_new (script.platform (Session.new o).options)
    (s₁.options.clock (script.platform (Session.new o).options)) script.tempo
  obtain ⟨htuplets, hbalances⟩ := composeSong_balances hcompose hopen htidy
  refine ⟨hbalances.options.trans hrest.1, hbalances.tidy htidy, fun e key => ?_⟩
  have hkey := hbalances.refCount e key
  rw [hnone, List.count_nil, Nat.add_zero, hcount, Session.refCount_new, Nat.zero_add] at hkey
  rw [hkey, Output.selections_of_build hbuild htuplets]

/-- **References to macros are exact.**  In a compilation that succeeds, the count of a macro is the
number of commands in the output that select it, and every macro that is selected is there.  So a
macro that is there is left out of the table of its effect exactly if this is wanted and no channel
selects it, and every channel of the output can be played with the macros of the compilation. -/
theorem compile_references {script : Script} {options : Options} {c : Compilation}
    (h : script.compile options = .ok c) :
    ∃ session, script.compileIn (.new (script.options.merge options)) = .ok c.output session ∧
      (∀ stream ∈ c.output.channels, decodeCommands stream.data = .ok stream.commands) ∧
      (∀ e key, session.refCount e key = c.output.selections.count (e, key)) ∧
      (∀ e key, (e, key) ∈ c.output.selections → ∃ m, (session.macros.get e).get? key = some m) ∧
      (∀ e key m, (session.macros.get e).get? key = some m →
        ∃ t ∈ c.output.tables, t.effect = e ∧ (∀ t' ∈ c.output.tables, t'.effect = e → t' = t) ∧
          (key ∈ t.entries.map (·.key) ↔
            ((script.options.merge options).skipUnreferenced = true →
              (e, key) ∈ c.output.selections))) ∧
      ∀ stream ∈ c.output.channels, ∀ scale octave,
        ∃ log, play session.macros scale octave stream.commands = .ok log := by
  unfold Script.compile at h
  cases hrun : script.compileIn (.new (script.options.merge options)) with
  | error e s => simp [hrun] at h
  | ok output session =>
    simp only [hrun] at h
    cases h
    obtain ⟨hoptions, htidy, hcount⟩ := Script.compileIn_references hrun
    obtain ⟨s₁, song, -, -, hbuild⟩ := Script.compileIn_eq_ok hrun
    obtain ⟨hstreams, htables⟩ := Output.build_eq_ok hbuild
    have hdefined : ∀ e key, (e, key) ∈ output.selections →
        ∃ m, (session.macros.get e).get? key = some m := by
      intro e key hmem
      refine Registry.exists_of_refCount_pos ?_
      rw [show (session.macros.get e).refCount key = session.refCount e key from rfl, hcount]
      exact List.count_pos_iff.mpr hmem
    refine ⟨session, rfl, ?_, hcount, hdefined, fun e key m hm => ?_, ?_⟩
    · intro stream hstream
      obtain ⟨ch, -, hch⟩ := (exists_of_mapM hstreams).2 stream hstream
      exact (ChannelStream.ofChannel_spec hch).1
    · obtain ⟨t, ht, heffect, hunique, hkeys⟩ := MacroBank.exists_table htidy htables hm
      refine ⟨t, ht, heffect, hunique, ?_⟩
      have hm' : m.refCount = output.selections.count (e, key) := by
        rw [← hcount, Session.refCount, Registry.refCount, hm]
        rfl
      rw [hkeys, hoptions, hm', ne_eq, List.count_eq_zero, not_not]
    · intro stream hstream scale octave
      have hselected : ∀ c ∈ stream.commands, ∀ e key, c.selection? = some (e, key) →
          ∃ m, (session.macros.get e).get? key = some m := fun c hc e key hsel =>
        hdefined e key (List.mem_flatMap.mpr
          ⟨stream, hstream, List.mem_filterMap.mpr ⟨c, hc, hsel⟩⟩)
      obtain ⟨p, hp⟩ := Player.exists_performAll hselected (.new scale octave)
      exact ⟨p.log, by rw [play, hp]; rfl⟩

/-- A macro is selected on a voice and in the patterns, one inside of a tuplet, and one nowhere. -/
theorem compile_references_tuplet :
    let script : Script :=
      { Script.empty with
        target := some .c64
        options := { Options.default with skipUnreferenced := true }
        macros :=
          [⟨.adsr, some 3, ⟨[.int 1, .int 2, .int 3, .int 4], []⟩, .empty⟩,
            ⟨.adsr, some 5, ⟨[.int 0, .int 0, .int 0, .int 0], []⟩, .empty⟩,
            ⟨.duty, none, ⟨[.int 2], [.int 4]⟩, .empty⟩]
        channels := .ofList
          [("A", [.effect .adsr 3 false, .tupletStart, .effect .duty 0 true, .note 0 0,
            .tupletEnd 24, .note 4 24])]
        pattern := [.effect .adsr 3 true] }
    ∃ c session, script.compile .default = .ok c ∧
      script.compileIn (.new (script.options.merge .default)) = .ok c.output session ∧
      session.refCount .adsr 3 = 2 ∧ session.refCount .adsr 5 = 0 ∧
      session.refCount .duty 0 = 1 ∧
      c.output.tables.map (fun t => (t.effect, t.entries.map (·.key))) =
        [(.duty, [0]), (.adsr, [3])] := by
  intro script
  have hview : (match script.compile .default with
      | .ok c => some (c.output.selections,
          c.output.tables.map fun t => (t.effect, t.entries.map (·.key)))
      | .error _ => none) =
      some ([(.adsr, 3), (.duty, 0), (.adsr, 3)], [(.duty, [0]), (.adsr, [3])]) := by
    decide +kernel
  cases hc : script.compile .default with
  | error e =>
    rw [hc] at hview
    cases hview
  | ok c =>
    rw [hc, Option.some.injEq, Prod.mk.injEq] at hview
    obtain ⟨hselections, htables⟩ := hview
    obtain ⟨session, hrun, -, hcount, -⟩ := compile_references hc
    rw [hselections] at hcount
    exact ⟨c, session, rfl, hrun, hcount .adsr 3, hcount .adsr 5, hcount .duty 0, htables⟩

end Chiptune
