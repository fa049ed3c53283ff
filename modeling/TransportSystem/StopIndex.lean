import TransportSystem.CatalogueCalls

/-!
The index from stops to buses against the buses themselves. `AddBus` under a
name already in use repoints `buses_` but leaves the old entries of
`buses_in_stop_` in place.
-/

namespace TransportSystem.TransportCatalogue

open Library.UniqueKeys
open Library.Lists
open Library.Runs

/-- `GetInfoStop` lists, strictly increasing, the names of the buses found
under those names that visit the stop. -/
def IndexAgrees (db : TransportCatalogue) : Prop :=
  ∀ stop ∈ db.names, (db.getInfoStop stop).buses.Pairwise (· < ·) ∧
    ∀ name, name ∈ (db.getInfoStop stop).buses ↔
      ∃ bus, db.findBus name = .ok bus ∧ stop ∈ db.stopNames bus.stops

/-- The call does not drop a stop from a bus that is in use: a bus added under
a known name visits every stop of the bus it replaces. -/
def KeepsStops (db : TransportCatalogue) : Call → Prop
  | .addBus name stops _ =>
      ∀ bus, db.findBus name = .ok bus → ∀ stop ∈ db.stopNames bus.stops, stop ∈ stops
  | .addStop _ _ => True
  | .addLenghtBetweenStops _ _ => True

/-- The bus found under the name visits the stop. -/
def Visits (db : TransportCatalogue) (name stop : Str) : Prop :=
  ∃ bus, db.findBus name = .ok bus ∧ stop ∈ db.stopNames bus.stops

theorem findBus_eq_ok_iff {db : TransportCatalogue} {name : Str} {bus : Bus} :
    db.findBus name = .ok bus ↔ ∃ p, db.buses.lookup name = some p ∧ db.bus p = bus := by
  unfold findBus
  rw [bind_eq_ok_iff]
  simp only [mapAt_eq_ok_iff, pure, Except.pure, Except.ok.injEq]

theorem visits_iff {db : TransportCatalogue} {name stop : Str} :
    Visits db name stop ↔
      ∃ p, db.buses.lookup name = some p ∧ stop ∈ db.stopNames (db.bus p).stops := by
  simp only [Visits, findBus_eq_ok_iff]
  constructor
  · rintro ⟨_, ⟨p, hp, rfl⟩, hstop⟩
    exact ⟨p, hp, hstop⟩
  · rintro ⟨p, hp, hstop⟩
    exact ⟨_, ⟨p, hp, rfl⟩, hstop⟩

theorem StoreInv.mem_names_of_visits {db : TransportCatalogue} (h : StoreInv db)
    {bus : Bus} (hbus : bus ∈ db.allBuses) {stop : Str} (hstop : stop ∈ db.stopNames bus.stops) :
    stop ∈ db.names := by
  obtain ⟨p, hp, rfl⟩ := List.mem_map.mp hstop
  exact List.mem_of_getElem? (names_getElem?_of_lt (h.busStops bus hbus p hp))

theorem getInfoStop_buses {db : TransportCatalogue} (h : StoreInv db) {stop : Str}
    (hstop : stop ∈ db.names) :
    (db.getInfoStop stop).buses = (db.busesOf stop).insertionSort (· ≤ ·) := by
  have hmem : stop ∈ db.stops := (h.mem_stops_iff stop).mpr hstop
  unfold getInfoStop busesOf
  cases db.busesInStop.lookup stop <;> simp [stopAvailability, hmem]

/-- Under the invariant the agreement is one about the index alone. -/
theorem indexAgrees_iff {db : TransportCatalogue} (h : Inv db) :
    IndexAgrees db ↔ ∀ stop name, name ∈ db.busesOf stop ↔ Visits db name stop := by
  constructor
  · intro hagree stop name
    by_cases hstop : stop ∈ db.names
    · rw [← (List.perm_insertionSort (· ≤ ·) _).mem_iff, ← getInfoStop_buses h.toStoreInv hstop]
      exact (hagree stop hstop).2 name
    · -- a stop nobody added is visited by no bus
      constructor
      · intro hname
        obtain ⟨bus, hbus, -, hvisit⟩ := (h.mem stop name).mp hname
        exact absurd (h.mem_names_of_visits hbus hvisit) hstop
      · intro hvisit
        obtain ⟨p, hp, hvisit⟩ := visits_iff.mp hvisit
        exact absurd (h.mem_names_of_visits (h.bus_mem hp).1 hvisit) hstop
  · intro hagree stop hstop
    rw [getInfoStop_buses h.toStoreInv hstop]
    refine ⟨pairwise_lt_insertionSort (h.nodup stop), fun name => ?_⟩
    rw [(List.perm_insertionSort (· ≤ ·) _).mem_iff]
    exact hagree stop name

/-- Calls that leave the buses alone leave their visits alone. -/
theorem visits_congr {db db' : TransportCatalogue} (h : StoreInv db)
    (hbuses : db'.buses = db.buses) (hall : db'.allBuses = db.allBuses)
    (hnames : db.names <+: db'.names) (name stop : Str) :
    Visits db' name stop ↔ Visits db name stop := by
  rw [visits_iff, visits_iff, hbuses]
  refine exists_congr fun p => and_congr_right fun hp => ?_
  have hbus : db'.bus p = db.bus p := by simp [bus, hall]
  rw [hbus, stopNames_of_extends hnames (h.busStops _ (h.bus_mem hp).1)]

theorem BusAdded.visits_iff {db db' : TransportCatalogue} {name : Str} {stops : List Str}
    {isLoop : Bool} (h : StoreInv db) (h' : BusAdded db name stops isLoop db')
    (n stop : Str) :
    Visits db' n stop ↔ if n = name then stop ∈ stops else Visits db n stop := by
  obtain ⟨ptrs, hall, hptrs⟩ := h'.allBuses
  rw [TransportCatalogue.visits_iff]
  simp only [h'.buses]
  split
  · have hbus : db'.bus db.allBuses.length = ⟨name, ptrs, isLoop⟩ :=
      bus_of_getElem? (by rw [hall, getElem?_append_singleton, if_pos rfl])
    simp [hbus, hptrs]
  · rw [TransportCatalogue.visits_iff]
    refine exists_congr fun p => and_congr_right fun hp => ?_
    obtain ⟨bus, hp', -⟩ := h.buses n p hp
    have hlt := (List.getElem?_eq_some_iff.mp hp').1
    have hbus : db'.bus p = db.bus p := by
      rw [bus_of_getElem? hp']
      exact bus_of_getElem? (by rw [hall, getElem?_append_singleton, if_neg (by omega), hp'])
    rw [hbus, stopNames_of_extends h'.added.prefix_names (h.busStops _ (h.bus_mem hp).1)]

theorem step_indexAgrees_iff {db : TransportCatalogue} (h : Inv db) (hagree : IndexAgrees db)
    (c : Call) : IndexAgrees (db.step c) ↔ KeepsStops db c := by
  rw [indexAgrees_iff (step_inv h c)]
  rw [indexAgrees_iff h] at hagree
  cases c with
  | addBus name stops isLoop =>
      obtain ⟨db', heq, hadded⟩ := addBus_spec h.toStoreInv name stops isLoop
      have hstep : db.step (.addBus name stops isLoop) = db' := by simp only [step, call, heq]
      rw [hstep]
      simp only [hadded.visits_iff h.toStoreInv, hadded.index]
      constructor
      · intro hnew bus hbus stop hstop
        have hname := (hagree stop name).mpr ⟨bus, hbus, hstop⟩
        have := (hnew stop name).mp (by simp [hname])
        simpa using this
      · intro hkeeps stop n
        by_cases hn : n = name
        · subst hn
          rw [if_pos rfl]
          by_cases hname : n ∈ db.busesOf stop
          · obtain ⟨bus, hbus, hstop⟩ := (hagree stop n).mp hname
            simp [hname, hkeeps bus hbus stop hstop]
          · by_cases hstop : stop ∈ stops <;> simp [hname, hstop]
        · rw [if_neg hn, ← hagree stop n]
          split
          · simp [hn]
          · rfl
  | addStop name location =>
      simp only [KeepsStops, iff_true]
      intro stop n
      change n ∈ (db.addStop name location).busesOf stop ↔
        Visits (db.addStop name location) n stop
      rw [visits_congr h.toStoreInv (by simp) (by simp)
        (prefix_addStop_names location h.toStoreInv), addStop_busesOf]
      exact hagree stop n
  | addLenghtBetweenStops pairStops lenght =>
      simp only [KeepsStops, iff_true]
      intro stop n
      have hspec := addLenghtBetweenStops_spec h.toStoreInv pairStops lenght
      split at hspec
      · obtain ⟨db', heq, hadded⟩ := hspec
        simp only [step, call, heq]
        rw [hadded.index, visits_congr h.toStoreInv hadded.buses hadded.allBuses
          hadded.added.prefix_names]
        exact hagree stop n
      · simp only [step, call, hspec]
        exact hagree stop n

theorem empty_indexAgrees : IndexAgrees empty := by
  intro stop hstop
  simp [empty, names] at hstop

/-- Along every sequence of calls the index agrees with the buses in every
state reached, exactly when no call drops a stop from a bus in use. -/
theorem indexAgrees_run_iff (calls : List Call) :
    (∀ pre, pre <+: calls → IndexAgrees (run pre)) ↔
      ∀ pre c, pre ++ [c] <+: calls → KeepsStops (run pre) c :=
  good_prefixes_iff step Inv IndexAgrees KeepsStops (fun _ c h => step_inv h c)
    (fun _ c h hagree => step_indexAgrees_iff h hagree c) empty_inv empty_indexAgrees calls

/-- Bus `1` is moved from stop `A` to stop `B` and stays listed at `A`. -/
theorem not_indexAgrees_readded_bus :
    ¬ IndexAgrees (run [.addBus ['1'] [['A']] true, .addBus ['1'] [['B']] true]) := by
  intro h
  have hlisted := (h ['A'] (by decide)).2 ['1']
  obtain ⟨bus, hbus, hvisit⟩ := hlisted.mp (by decide)
  have hfound : (run [.addBus ['1'] [['A']] true, .addBus ['1'] [['B']] true]).findBus ['1'] =
      .ok ⟨['1'], [1], true⟩ := by rfl
  rw [hfound] at hbus
  cases hbus
  revert hvisit
  decide

end TransportSystem.TransportCatalogue
