import TransportSystem.CatalogueInvariant
import TransportSystem.Library.Runs

namespace TransportSystem.TransportCatalogue

open Library.UniqueKeys
open Library.Lists
open Library.Runs

/-- `db'` has the stops of `db` followed by placeholders for the unknown names
among `stops`. -/
def AddsPlaceholders (db db' : TransportCatalogue) (stops : List Str) : Prop :=
  ∃ added : List Str, db'.allStops = db.allStops ++ added.map placeholder ∧
    ∀ s, s ∈ added ↔ s ∈ stops ∧ s ∉ db.names

namespace AddsPlaceholders

variable {db db' db'' : TransportCatalogue} {stops stops' : List Str}

theorem refl (db : TransportCatalogue) (hstops : ∀ s ∈ stops, s ∈ db.names) :
    AddsPlaceholders db db stops := by
  refine ⟨[], by simp, ?_⟩
  intro s
  simp only [List.not_mem_nil, false_iff, not_and, not_not]
  exact hstops s

theorem names_eq (h : AddsPlaceholders db db' stops) :
    ∃ added : List Str, db'.names = db.names ++ added ∧
      ∀ s, s ∈ added ↔ s ∈ stops ∧ s ∉ db.names := by
  obtain ⟨added, hall, hadded⟩ := h
  refine ⟨added, ?_, hadded⟩
  simp [names, hall, placeholder, Function.comp_def]

theorem prefix_names (h : AddsPlaceholders db db' stops) : db.names <+: db'.names := by
  obtain ⟨added, hnames, -⟩ := h.names_eq
  exact hnames ▸ List.prefix_append _ _

theorem mem_names_iff (h : AddsPlaceholders db db' stops) (s : Str) :
    s ∈ db'.names ↔ s ∈ db.names ∨ s ∈ stops := by
  obtain ⟨added, hnames, hadded⟩ := h.names_eq
  rw [hnames, List.mem_append, hadded]
  tauto

theorem trans (h : AddsPlaceholders db db' stops) (h' : AddsPlaceholders db' db'' stops') :
    AddsPlaceholders db db'' (stops ++ stops') := by
  have hmem := h.mem_names_iff
  obtain ⟨added, hall, hadded⟩ := h
  obtain ⟨added', hall', hadded'⟩ := h'
  refine ⟨added ++ added', by simp [hall, hall'], ?_⟩
  intro s
  rw [List.mem_append, List.mem_append, hadded, hadded', hmem]
  tauto

theorem stop_coordinates (h : AddsPlaceholders db db' stops) {p : StopPtr}
    (hp : p < db.allStops.length) : db'.stop p = db.stop p := by
  obtain ⟨added, hall, -⟩ := h
  rw [stop, stop, hall, List.getD_append _ _ _ _ hp]

end AddsPlaceholders

/-- The effect of the loop of `AddBus`. -/
structure BusStopsAdded (name : Str) (stops : List Str) (db db' : TransportCatalogue)
    (ptrs : List StopPtr) : Prop where
  inv : StoreInv db'
  buses : db'.buses = db.buses
  allBuses : db'.allBuses = db.allBuses
  lengths : db'.lengthBetweenStops = db.lengthBetweenStops
  added : AddsPlaceholders db db' stops
  lt : ∀ p ∈ ptrs, p < db'.allStops.length
  names : db'.stopNames ptrs = stops
  index : ∀ s, db'.busesOf s =
    if s ∈ stops ∧ name ∉ db.busesOf s then db.busesOf s ++ [name] else db.busesOf s

theorem busStopsAdded_known (name : Str) {stop : Str} {db : TransportCatalogue} {p : StopPtr}
    (h : StoreInv db) (hp : db.stops.lookup stop = some p) :
    BusStopsAdded name [stop] db
      { db with
        busesInStop := db.busesInStop.assign stop
          (if name ∈ db.busesOf stop then db.busesOf stop else db.busesOf stop ++ [name]) }
      [p] where
  inv := ⟨h.stops, h.buses, h.busNames, h.busStops, h.lengths⟩
  buses := rfl
  allBuses := rfl
  lengths := rfl
  added := by
    refine AddsPlaceholders.refl db ?_
    intro s hs
    cases List.mem_singleton.mp hs
    exact (h.mem_stops_iff stop).mp (UnorderedMap.mem_iff_lookup.mpr ⟨p, hp⟩)
  lt := by
    intro q hq
    cases List.mem_singleton.mp hq
    simpa using (List.getElem?_eq_some_iff.mp ((h.stops stop p).mp hp)).1
  names := by
    exact congrArg (fun n => [n]) (stop_name_of_names ((h.stops stop p).mp hp))
  index := by
    intro s
    by_cases hs : s = stop
    · subst hs
      simp only [busesOf, UnorderedMap.lookup_assign, if_true, Option.getD_some,
        List.mem_singleton, true_and]
      split <;> simp_all
    · simp [busesOf, UnorderedMap.lookup_assign, hs]

theorem addStop_placeholder {db : TransportCatalogue} {stop : Str} (h : StoreInv db)
    (hstop : stop ∉ db.names) : AddsPlaceholders db (db.addStop stop) [stop] := by
  refine ⟨[stop], (addStop_of_not_mem _ h hstop).2, ?_⟩
  intro s
  constructor
  · intro hs
    cases List.mem_singleton.mp hs
    exact ⟨by simp, hstop⟩
  · rintro ⟨hs, -⟩
    exact hs

theorem BusStopsAdded.trans {name : Str} {stops stops' : List Str}
    {db db' db'' : TransportCatalogue} {ptrs ptrs' : List StopPtr}
    (h : BusStopsAdded name stops db db' ptrs)
    (h' : BusStopsAdded name stops' db' db'' ptrs') :
    BusStopsAdded name (stops ++ stops') db db'' (ptrs ++ ptrs') where
  inv := h'.inv
  buses := h'.buses.trans h.buses
  allBuses := h'.allBuses.trans h.allBuses
  lengths := h'.lengths.trans h.lengths
  added := h.added.trans h'.added
  lt := by
    intro p hp
    rcases List.mem_append.mp hp with hp | hp
    · exact (h.lt p hp).trans_le (length_le_of_extends h'.added.prefix_names)
    · exact h'.lt p hp
  names := by
    have hnames := stopNames_of_extends h'.added.prefix_names h.lt
    rw [stopNames, List.map_append]
    exact congrArg₂ (· ++ ·) (hnames.trans h.names) h'.names
  index := by
    intro s
    rw [h'.index, h.index]
    by_cases hs : s ∈ stops <;> by_cases hs' : s ∈ stops' <;>
      by_cases hname : name ∈ db.busesOf s <;> simp [hs, hs', hname]

theorem BusStopsAdded.of_addStop {name stop : Str} {db db' : TransportCatalogue}
    {ptrs : List StopPtr} (h : StoreInv db) (hstop : stop ∉ db.names)
    (h' : BusStopsAdded name [stop] (db.addStop stop) db' ptrs) :
    BusStopsAdded name [stop] db db' ptrs where
  inv := h'.inv
  buses := by simpa using h'.buses
  allBuses := by simpa using h'.allBuses
  lengths := by simpa using h'.lengths
  added := by
    obtain ⟨added, hall, hadded⟩ := (addStop_placeholder h hstop).trans h'.added
    exact ⟨added, hall, fun s => by rw [hadded]; simp⟩
  lt := h'.lt
  names := h'.names
  index := by simpa using h'.index

theorem addBusStops_spec (name : Str) (stops : List Str) {db : TransportCatalogue}
    (deqStops : List StopPtr) (h : StoreInv db) (hbus : name ∈ db.buses) :
    ∃ db' ptrs, addBusStops name stops db deqStops = .ok (db', deqStops ++ ptrs) ∧
      BusStopsAdded name stops db db' ptrs := by
  induction stops generalizing db deqStops with
  | nil =>
      refine ⟨db, [], by simp [addBusStops], h, rfl, rfl, rfl, ?_, by simp, rfl, by simp⟩
      exact AddsPlaceholders.refl db (by simp)
  | cons stop stops ih =>
      -- the catalogue once the stop is known
      obtain ⟨db₁, hdb₁, hbuses₁, hmem₁, hround⟩ : ∃ db₁,
          (if stop ∈ db.stops then db else db.addStop stop) = db₁ ∧ db₁.buses = db.buses ∧
          (StoreInv db₁ ∧ stop ∈ db₁.names) ∧
          ∀ db' ptrs, BusStopsAdded name [stop] db₁ db' ptrs →
            BusStopsAdded name [stop] db db' ptrs := by
        by_cases hstop : stop ∈ db.stops
        · exact ⟨db, by rw [if_pos hstop], rfl, ⟨h, (h.mem_stops_iff stop).mp hstop⟩,
            fun _ _ h' => h'⟩
        · have hnames : stop ∉ db.names := fun hmem => hstop ((h.mem_stops_iff stop).mpr hmem)
          refine ⟨db.addStop stop, by rw [if_neg hstop], by simp,
            ⟨addStop_storeInv _ h, ?_⟩, fun _ _ h' => h'.of_addStop h hnames⟩
          rw [addStop_names _ h, if_neg hnames]
          simp
      obtain ⟨hinv₁, hnames₁⟩ := hmem₁
      obtain ⟨p, hp, -, hpname⟩ := hinv₁.lookup_of_mem hnames₁
      obtain ⟨b, hb⟩ := UnorderedMap.mem_iff_lookup.mp (hbuses₁ ▸ hbus)
      have hbname := (hinv₁.bus_mem hb).2
      have hadded := hround _ _ (busStopsAdded_known name hinv₁ hp)
      obtain ⟨db', ptrs, heq, hrest⟩ := ih (deqStops ++ [p]) hadded.inv (hadded.buses ▸ hbus)
      refine ⟨db', [p] ++ ptrs, ?_, hadded.trans hrest⟩
      rw [addBusStops]
      simp only [hdb₁, mapAt_of_lookup hp, mapAt_of_lookup hb, hpname, hbname, bind, Except.bind]
      rw [← List.append_assoc]
      exact heq

structure BusAdded (db : TransportCatalogue) (name : Str) (stops : List Str) (isLoop : Bool)
    (db' : TransportCatalogue) : Prop where
  inv : StoreInv db'
  buses : ∀ n, db'.buses.lookup n =
    if n = name then some db.allBuses.length else db.buses.lookup n
  allBuses : ∃ ptrs, db'.allBuses = db.allBuses ++ [⟨name, ptrs, isLoop⟩] ∧
    db'.stopNames ptrs = stops
  lengths : db'.lengthBetweenStops = db.lengthBetweenStops
  added : AddsPlaceholders db db' stops
  index : ∀ s, db'.busesOf s =
    if s ∈ stops ∧ name ∉ db.busesOf s then db.busesOf s ++ [name] else db.busesOf s

/-- The catalogue in which the loop of `AddBus` starts. -/
theorem pushBus_storeInv {db : TransportCatalogue} (h : StoreInv db) (name : Str)
    (isLoop : Bool) :
    StoreInv { db with
      allBuses := db.allBuses ++ [⟨name, [], isLoop⟩]
      buses := db.buses.assign name db.allBuses.length } where
  stops := h.stops
  buses := by
    intro n p hp
    rw [UnorderedMap.lookup_assign] at hp
    simp only [getElem?_append_singleton]
    split at hp
    · rename_i hn
      cases hp
      exact ⟨_, if_pos rfl, hn.symm⟩
    · obtain ⟨bus, hbus, hname⟩ := h.buses n p hp
      have hlt := (List.getElem?_eq_some_iff.mp hbus).1
      exact ⟨bus, by rw [if_neg (by omega)]; exact hbus, hname⟩
  busNames := by
    intro bus hbus
    rw [UnorderedMap.mem_assign]
    rcases List.mem_append.mp hbus with hbus | hbus
    · exact Or.inr (h.busNames bus hbus)
    · cases List.mem_singleton.mp hbus
      exact Or.inl rfl
  busStops := by
    intro bus hbus p hp
    rcases List.mem_append.mp hbus with hbus | hbus
    · exact h.busStops bus hbus p hp
    · cases List.mem_singleton.mp hbus
      simp at hp
  lengths := h.lengths

theorem addBus_spec {db : TransportCatalogue} (h : StoreInv db) (name : Str)
    (stops : List Str) (isLoop : Bool) :
    ∃ db', db.addBus name stops isLoop = .ok db' ∧ BusAdded db name stops isLoop db' := by
  have hpush := pushBus_storeInv h name isLoop
  obtain ⟨db₁, ptrs, heq, hadded⟩ := addBusStops_spec name stops [] hpush (by simp)
  have hlookup : ∀ n, db₁.buses.lookup n =
      if n = name then some db.allBuses.length else db.buses.lookup n := by
    intro n
    rw [hadded.buses]
    exact UnorderedMap.lookup_assign _ _ _ _
  have hall : db₁.allBuses.modify db.allBuses.length (fun bus => { bus with stops := ptrs }) =
      db.allBuses ++ [⟨name, ptrs, isLoop⟩] := by
    rw [hadded.allBuses]
    exact modify_append_singleton _ _ _
  refine ⟨{ db₁ with allBuses := db.allBuses ++ [⟨name, ptrs, isLoop⟩] }, ?_, ?_⟩
  · unfold addBus
    dsimp only
    rw [heq, List.nil_append]
    have hname := hlookup name
    rw [if_pos rfl] at hname
    simp only [bind, Except.bind, mapAt_of_lookup hname, pure, Except.pure, hall]
  · refine ⟨⟨hadded.inv.stops, ?_, ?_, ?_, hadded.inv.lengths⟩, hlookup,
      ⟨ptrs, rfl, hadded.names⟩, hadded.lengths, hadded.added, hadded.index⟩
    · intro n p hp
      obtain ⟨bus, hbus, hname⟩ := hadded.inv.buses n p hp
      rw [hadded.allBuses] at hbus
      simp only [getElem?_append_singleton] at hbus ⊢
      split at hbus
      · rename_i hlast
        cases hbus
        exact ⟨_, if_pos hlast, hname⟩
      · rename_i hlast
        exact ⟨bus, by rw [if_neg hlast]; exact hbus, hname⟩
    · intro bus hbus
      rcases List.mem_append.mp hbus with hbus | hbus
      · exact hadded.inv.busNames bus (hadded.allBuses ▸ List.mem_append_left _ hbus)
      · cases List.mem_singleton.mp hbus
        exact UnorderedMap.mem_iff_lookup.mpr ⟨_, (hlookup name).trans (if_pos rfl)⟩
    · intro bus hbus
      rcases List.mem_append.mp hbus with hbus | hbus
      · exact hadded.inv.busStops bus (hadded.allBuses ▸ List.mem_append_left _ hbus)
      · cases List.mem_singleton.mp hbus
        exact hadded.lt

theorem BusAdded.indexInv {db db' : TransportCatalogue} {name : Str} {stops : List Str}
    {isLoop : Bool} (h : Inv db) (h' : BusAdded db name stops isLoop db') : IndexInv db' := by
  obtain ⟨ptrs, hall, hptrs⟩ := h'.allBuses
  have hold : ∀ bus ∈ db.allBuses, db'.stopNames bus.stops = db.stopNames bus.stops :=
    fun bus hbus => stopNames_of_extends h'.added.prefix_names (h.busStops bus hbus)
  constructor
  · intro s n
    have hsplit : (∃ bus ∈ db'.allBuses, bus.name = n ∧ s ∈ db'.stopNames bus.stops) ↔
        n ∈ db.busesOf s ∨ (name = n ∧ s ∈ stops) := by
      rw [hall, h.mem]
      simp only [List.mem_append, List.mem_singleton, or_and_right, exists_or, exists_eq_left,
        hptrs]
      refine or_congr_left (exists_congr fun bus => and_congr_right fun hbus => ?_)
      rw [hold bus hbus]
    rw [hsplit, h'.index]
    split
    · rename_i hnew
      rw [List.mem_append, List.mem_singleton]
      constructor
      · rintro (hn | rfl)
        · exact Or.inl hn
        · exact Or.inr ⟨rfl, hnew.1⟩
      · rintro (hn | ⟨rfl, -⟩)
        · exact Or.inl hn
        · exact Or.inr rfl
    · rename_i hold'
      constructor
      · exact Or.inl
      · rintro (hn | ⟨rfl, hs⟩)
        · exact hn
        · by_contra hn
          exact hold' ⟨hs, hn⟩
  · intro s
    rw [h'.index]
    split
    · rename_i hnew
      exact List.nodup_append.mpr ⟨h.nodup s, List.nodup_singleton _, by
        intro a ha b hb
        cases List.mem_singleton.mp hb
        rintro rfl
        exact hnew.2 ha⟩
    · exact h.nodup s

theorem BusAdded.toInv {db db' : TransportCatalogue} {name : Str} {stops : List Str}
    {isLoop : Bool} (h : Inv db) (h' : BusAdded db name stops isLoop db') : Inv db' :=
  ⟨h'.inv, h'.indexInv h⟩

/-- The effect of a call of `AddLenghtBetweenStops` that returns. -/
structure LenghtAdded (db : TransportCatalogue) (pairStops : Str × Str) (lenght : UInt32)
    (db' : TransportCatalogue) : Prop where
  inv : StoreInv db'
  buses : db'.buses = db.buses
  allBuses : db'.allBuses = db.allBuses
  added : AddsPlaceholders db db' [pairStops.2]
  lengths : ∃ p q, db'.stops.lookup pairStops.1 = some p ∧
    db'.stops.lookup pairStops.2 = some q ∧
    db'.lengthBetweenStops = db.lengthBetweenStops.emplace (p, q) lenght
  index : ∀ s, db'.busesOf s = db.busesOf s

theorem addLenghtBetweenStops_spec {db : TransportCatalogue} (h : StoreInv db)
    (pairStops : Str × Str) (lenght : UInt32) :
    if pairStops.1 ∈ db.names then
      ∃ db', db.addLenghtBetweenStops pairStops lenght = .ok db' ∧
        LenghtAdded db pairStops lenght db'
    else db.addLenghtBetweenStops pairStops lenght = .error .outOfRange := by
  split
  · rename_i hfirst
    obtain ⟨p, hp, -, -⟩ := h.lookup_of_mem hfirst
    -- the catalogue once the second stop is known
    obtain ⟨db₁, hdb₁, hinv₁, hframe, hadded⟩ : ∃ db₁,
        (if pairStops.2 ∈ db.stops then db else db.addStop pairStops.2) = db₁ ∧ StoreInv db₁ ∧
        (db₁.buses = db.buses ∧ db₁.allBuses = db.allBuses ∧
          db₁.lengthBetweenStops = db.lengthBetweenStops ∧ db₁.busesInStop = db.busesInStop) ∧
        AddsPlaceholders db db₁ [pairStops.2] := by
      by_cases hsecond : pairStops.2 ∈ db.stops
      · refine ⟨db, by rw [if_pos hsecond], h, ⟨rfl, rfl, rfl, rfl⟩,
          AddsPlaceholders.refl db ?_⟩
        intro s hs
        cases List.mem_singleton.mp hs
        exact (h.mem_stops_iff _).mp hsecond
      · have hnames : pairStops.2 ∉ db.names :=
          fun hmem => hsecond ((h.mem_stops_iff _).mpr hmem)
        exact ⟨db.addStop pairStops.2, by rw [if_neg hsecond], addStop_storeInv _ h,
          by simp, addStop_placeholder h hnames⟩
    obtain ⟨hbuses, hallBuses, hlengths, hbusesInStop⟩ := hframe
    have hp₁ : db₁.stops.lookup pairStops.1 = some p := by
      rw [hinv₁.stops]
      obtain ⟨rest, hrest⟩ := hadded.prefix_names
      have hold := (h.stops _ _).mp hp
      rw [← hrest, List.getElem?_append_left (List.getElem?_eq_some_iff.mp hold).1, hold]
    obtain ⟨q, hq, hqlt, -⟩ := hinv₁.lookup_of_mem
      ((hadded.mem_names_iff pairStops.2).mpr (Or.inr (by simp)))
    have hplt : p < db₁.allStops.length := by
      simpa using (List.getElem?_eq_some_iff.mp ((hinv₁.stops _ _).mp hp₁)).1
    refine ⟨{ db₁ with
      lengthBetweenStops := db₁.lengthBetweenStops.emplace (p, q) lenght }, ?_, ?_⟩
    · unfold addLenghtBetweenStops
      rw [mapAt_of_lookup hp]
      simp only [bind, Except.bind, hdb₁, mapAt_of_lookup hq, pure, Except.pure]
    · refine ⟨⟨hinv₁.stops, hinv₁.buses, hinv₁.busNames, hinv₁.busStops, ?_⟩, hbuses, hallBuses,
        hadded, ⟨p, q, hp₁, hq, by rw [hlengths]⟩, fun s => by simp [busesOf, hbusesInStop]⟩
      intro p' q' l hl
      simp only [UnorderedMap.lookup_emplace] at hl
      split at hl
      · rename_i hnew
        cases hnew.1
        exact ⟨hplt, hqlt⟩
      · exact hinv₁.lengths p' q' l hl
  · rename_i hfirst
    have hnone : db.stops.lookup pairStops.1 = none := by
      rw [UnorderedMap.lookup_eq_none, h.mem_stops_iff]
      exact hfirst
    simp [addLenghtBetweenStops, mapAt, hnone, bind, Except.bind]

theorem LenghtAdded.toInv {db db' : TransportCatalogue} {pairStops : Str × Str}
    {lenght : UInt32} (h : Inv db) (h' : LenghtAdded db pairStops lenght db') : Inv db' := by
  refine ⟨h'.inv, ?_, fun s => h'.index s ▸ h.nodup s⟩
  intro s n
  rw [h'.index, h.mem, h'.allBuses]
  refine exists_congr fun bus => and_congr_right fun hbus => ?_
  rw [stopNames_of_extends h'.added.prefix_names (h.busStops bus hbus)]

theorem step_inv {db : TransportCatalogue} (h : Inv db) (c : Call) : Inv (db.step c) := by
  cases c with
  | addBus name stops isLoop =>
      obtain ⟨db', heq, hadded⟩ := addBus_spec h.toStoreInv name stops isLoop
      simpa only [step, call, heq] using hadded.toInv h
  | addStop name location => exact addStop_inv location h
  | addLenghtBetweenStops pairStops lenght =>
      have hspec := addLenghtBetweenStops_spec h.toStoreInv pairStops lenght
      split at hspec
      · obtain ⟨db', heq, hadded⟩ := hspec
        simpa only [step, call, heq] using hadded.toInv h
      · simpa only [step, call, hspec] using h

theorem run_inv (calls : List Call) : Inv (run calls) :=
  invariant_foldl step Inv (fun _ c h => step_inv h c) empty_inv calls

end TransportSystem.TransportCatalogue
