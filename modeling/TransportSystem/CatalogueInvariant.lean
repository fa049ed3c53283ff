import TransportSystem.Library.Lists
import TransportSystem.TransportCatalogue

/-!
What every sequence of calls keeps true of a catalogue, and what each call
does, in terms of the names of stops instead of their places in the deque.
-/

namespace TransportSystem.TransportCatalogue

open Library.UniqueKeys
open Library.Lists

/-- The names of all stops, in the order of the deque. -/
def names (db : TransportCatalogue) : List Str := db.allStops.map Stop.name

/-- The names of the stops that a list of pointers visits. -/
def stopNames (db : TransportCatalogue) (ptrs : List StopPtr) : List Str :=
  ptrs.map fun p => (db.stop p).name

/-- The entry of the index for a stop, empty when there is none. -/
def busesOf (db : TransportCatalogue) (stop : Str) : List Str :=
  (db.busesInStop.lookup stop).getD []

/-- A stop known by its name only. -/
def placeholder (name : Str) : Stop := ⟨name, ⟨0, 0⟩⟩

/-- The maps of the catalogue refer to elements of its two deques. -/
structure StoreInv (db : TransportCatalogue) : Prop where
  stops : ∀ name p, db.stops.lookup name = some p ↔ db.names[p]? = some name
  buses : ∀ name p, db.buses.lookup name = some p →
    ∃ bus, db.allBuses[p]? = some bus ∧ bus.name = name
  busNames : ∀ bus ∈ db.allBuses, bus.name ∈ db.buses
  busStops : ∀ bus ∈ db.allBuses, ∀ p ∈ bus.stops, p < db.allStops.length
  lengths : ∀ p q l, db.lengthBetweenStops.lookup (p, q) = some l →
    p < db.allStops.length ∧ q < db.allStops.length

/-- The index lists a bus name under a stop exactly when some bus added under
that name visits the stop. -/
structure IndexInv (db : TransportCatalogue) : Prop where
  mem : ∀ stop name, name ∈ db.busesOf stop ↔
    ∃ bus ∈ db.allBuses, bus.name = name ∧ stop ∈ db.stopNames bus.stops
  nodup : ∀ stop, (db.busesOf stop).Nodup

structure Inv (db : TransportCatalogue) : Prop extends StoreInv db, IndexInv db

@[simp] theorem length_names (db : TransportCatalogue) :
    db.names.length = db.allStops.length := by
  simp [names]

theorem stop_of_getElem? {db : TransportCatalogue} {p : StopPtr} {s : Stop}
    (h : db.allStops[p]? = some s) : db.stop p = s := by
  simp [stop, List.getD_eq_getElem?_getD, h]

theorem bus_of_getElem? {db : TransportCatalogue} {p : BusPtr} {b : Bus}
    (h : db.allBuses[p]? = some b) : db.bus p = b := by
  simp [bus, List.getD_eq_getElem?_getD, h]

theorem stop_name_of_names {db : TransportCatalogue} {p : StopPtr} {name : Str}
    (h : db.names[p]? = some name) : (db.stop p).name = name := by
  simp only [names, List.getElem?_map, Option.map_eq_some_iff] at h
  obtain ⟨s, hs, rfl⟩ := h
  rw [stop_of_getElem? hs]

theorem names_getElem?_of_lt {db : TransportCatalogue} {p : StopPtr}
    (h : p < db.allStops.length) : db.names[p]? = some (db.stop p).name := by
  simp [names, stop, List.getD_eq_getElem?_getD, h]

/-- Calls only append stop names, so pointers keep their names. -/
theorem stop_name_of_extends {db db' : TransportCatalogue} (h : db.names <+: db'.names)
    {p : StopPtr} (hp : p < db.allStops.length) : (db'.stop p).name = (db.stop p).name := by
  apply stop_name_of_names
  obtain ⟨rest, hrest⟩ := h
  rw [← hrest, List.getElem?_append_left (by simpa using hp), names_getElem?_of_lt hp]

theorem stopNames_of_extends {db db' : TransportCatalogue} (h : db.names <+: db'.names)
    {ptrs : List StopPtr} (hptrs : ∀ p ∈ ptrs, p < db.allStops.length) :
    db'.stopNames ptrs = db.stopNames ptrs :=
  List.map_congr_left fun p hp => stop_name_of_extends h (hptrs p hp)

theorem length_le_of_extends {db db' : TransportCatalogue} (h : db.names <+: db'.names) :
    db.allStops.length ≤ db'.allStops.length := by
  simpa using h.length_le

namespace StoreInv

variable {db : TransportCatalogue}

theorem mem_stops_iff (h : StoreInv db) (name : Str) : name ∈ db.stops ↔ name ∈ db.names := by
  rw [UnorderedMap.mem_iff_lookup, List.mem_iff_getElem?]
  simp [h.stops]

theorem names_nodup (h : StoreInv db) : db.names.Nodup := by
  rw [List.nodup_iff_getElem?_ne_getElem?]
  intro i j hij hj heq
  have hname := List.getElem?_eq_getElem hj
  have hi := (h.stops _ i).mpr (heq.trans hname)
  have hj := (h.stops _ j).mpr hname
  rw [hi] at hj
  cases hj
  exact lt_irrefl _ hij

theorem lookup_of_mem (h : StoreInv db) {name : Str} (hmem : name ∈ db.names) :
    ∃ p, db.stops.lookup name = some p ∧ p < db.allStops.length ∧ (db.stop p).name = name := by
  obtain ⟨p, hp⟩ := List.mem_iff_getElem?.mp hmem
  refine ⟨p, (h.stops name p).mpr hp, ?_, stop_name_of_names hp⟩
  simpa using (List.getElem?_eq_some_iff.mp hp).1

theorem lookup_stop_name (h : StoreInv db) {p : StopPtr} (hp : p < db.allStops.length) :
    db.stops.lookup (db.stop p).name = some p :=
  (h.stops _ p).mpr (names_getElem?_of_lt hp)

theorem stop_name_injective (h : StoreInv db) {p q : StopPtr} (hp : p < db.allStops.length)
    (hq : q < db.allStops.length) (hname : (db.stop p).name = (db.stop q).name) : p = q := by
  have hlookup := h.lookup_stop_name hp
  rw [hname, h.lookup_stop_name hq] at hlookup
  exact (Option.some.inj hlookup).symm

theorem bus_mem (h : StoreInv db) {name : Str} {p : BusPtr}
    (hp : db.buses.lookup name = some p) : db.bus p ∈ db.allBuses ∧ (db.bus p).name = name := by
  obtain ⟨bus, hbus, hname⟩ := h.buses name p hp
  rw [bus_of_getElem? hbus]
  exact ⟨List.mem_of_getElem? hbus, hname⟩

end StoreInv

theorem empty_inv : Inv empty where
  stops := by simp [empty, names]
  buses := by simp [empty]
  busNames := by simp [empty]
  busStops := by simp [empty]
  lengths := by simp [empty]
  mem := by simp [empty, busesOf]
  nodup := by simp [empty, busesOf]

section AddStop

variable (db : TransportCatalogue) (name : Str) (location : Coordinates)

@[simp] theorem addStop_buses : (db.addStop name location).buses = db.buses := by
  unfold addStop
  cases db.stops.lookup name with
  | none => rfl
  | some p =>
      dsimp only
      split <;> rfl

@[simp] theorem addStop_allBuses : (db.addStop name location).allBuses = db.allBuses := by
  unfold addStop
  cases db.stops.lookup name with
  | none => rfl
  | some p =>
      dsimp only
      split <;> rfl

@[simp] theorem addStop_busesInStop :
    (db.addStop name location).busesInStop = db.busesInStop := by
  unfold addStop
  cases db.stops.lookup name with
  | none => rfl
  | some p =>
      dsimp only
      split <;> rfl

@[simp] theorem addStop_lengthBetweenStops :
    (db.addStop name location).lengthBetweenStops = db.lengthBetweenStops := by
  unfold addStop
  cases db.stops.lookup name with
  | none => rfl
  | some p =>
      dsimp only
      split <;> rfl

@[simp] theorem addStop_busesOf (stop : Str) :
    (db.addStop name location).busesOf stop = db.busesOf stop := by
  simp [busesOf]

variable {db name}

/-- On a known name `AddStop` at most changes the coordinates stored there. -/
theorem addStop_of_mem (h : StoreInv db) (hmem : name ∈ db.names) :
    ∃ p, db.stops.lookup name = some p ∧
      (db.addStop name location).stops = db.stops ∧
      (db.addStop name location).allStops = db.allStops.set p
        ⟨name, if (db.stop p).coordinates = ⟨0, 0⟩ then location
          else (db.stop p).coordinates⟩ := by
  obtain ⟨p, hp, hlt, hname⟩ := h.lookup_of_mem hmem
  refine ⟨p, hp, ?_⟩
  unfold addStop
  rw [hp]
  dsimp only
  by_cases hzero : (db.stop p).coordinates = ⟨0, 0⟩
  · simp [hzero]
  · have hne : ¬ ((db.stop p).coordinates.lat = 0 ∧ (db.stop p).coordinates.lng = 0) := by
      rintro ⟨hlat, hlng⟩
      exact hzero (by cases hc : (db.stop p).coordinates; simp_all)
    rw [if_neg hne, if_neg hzero]
    refine ⟨rfl, ?_⟩
    have hset : (⟨name, (db.stop p).coordinates⟩ : Stop) = db.allStops[p] := by
      rw [← hname, stop, List.getD_eq_getElem _ _ hlt]
    rw [hset, List.set_getElem_self]

theorem addStop_of_not_mem (h : StoreInv db) (hmem : name ∉ db.names) :
    (db.addStop name location).stops = db.stops.assign name db.allStops.length ∧
      (db.addStop name location).allStops = db.allStops ++ [⟨name, location⟩] := by
  have hnone : db.stops.lookup name = none := by
    rw [UnorderedMap.lookup_eq_none, h.mem_stops_iff]
    exact hmem
  simp [addStop, hnone]

theorem addStop_names (h : StoreInv db) :
    (db.addStop name location).names =
      if name ∈ db.names then db.names else db.names ++ [name] := by
  by_cases hmem : name ∈ db.names
  · obtain ⟨p, hp, -, hall⟩ := addStop_of_mem location h hmem
    rw [if_pos hmem, names, hall, List.map_set]
    exact set_of_getElem?_eq ((h.stops name p).mp hp)
  · rw [if_neg hmem, names, (addStop_of_not_mem location h hmem).2]
    simp [names]

theorem prefix_addStop_names (h : StoreInv db) :
    db.names <+: (db.addStop name location).names := by
  rw [addStop_names location h]
  split
  · exact List.prefix_rfl
  · exact List.prefix_append _ _

theorem addStop_storeInv (h : StoreInv db) : StoreInv (db.addStop name location) := by
  have hprefix : db.names <+: (db.addStop name location).names := prefix_addStop_names location h
  have hle := length_le_of_extends hprefix
  refine ⟨?_, by simpa using h.buses, by simpa using h.busNames, ?_, ?_⟩
  · intro n p
    by_cases hmem : name ∈ db.names
    · obtain ⟨q, -, hstops, -⟩ := addStop_of_mem location h hmem
      rw [hstops, addStop_names location h, if_pos hmem]
      exact h.stops n p
    · rw [(addStop_of_not_mem location h hmem).1, addStop_names location h, if_neg hmem,
        UnorderedMap.lookup_assign, getElem?_append_singleton, length_names]
      by_cases hn : n = name
      · subst hn
        have hfresh : db.names[p]? ≠ some n := fun hp => hmem (List.mem_of_getElem? hp)
        by_cases hp : p = db.allStops.length
        · simp [hp]
        · simp [hp, hfresh, Ne.symm hp]
      · rw [if_neg hn, h.stops]
        by_cases hp : p = db.allStops.length
        · subst hp
          simp [Ne.symm hn, names]
        · rw [if_neg hp]
  · intro bus hbus p hp
    exact (h.busStops bus (by simpa using hbus) p hp).trans_le hle
  · intro p q l hl
    obtain ⟨hp, hq⟩ := h.lengths p q l (by simpa using hl)
    exact ⟨hp.trans_le hle, hq.trans_le hle⟩

theorem addStop_indexInv (h : Inv db) : IndexInv (db.addStop name location) := by
  have hprefix : db.names <+: (db.addStop name location).names :=
    prefix_addStop_names location h.toStoreInv
  refine ⟨?_, by simpa using h.nodup⟩
  intro stop busName
  rw [addStop_busesOf, h.mem, addStop_allBuses]
  apply exists_congr
  intro bus
  apply and_congr_right
  intro hbus
  rw [stopNames_of_extends hprefix (h.busStops bus hbus)]

theorem addStop_inv (h : Inv db) : Inv (db.addStop name location) :=
  ⟨addStop_storeInv location h.toStoreInv, addStop_indexInv location h⟩

end AddStop

def HasLenght (db : TransportCatalogue) (p q : StopPtr) : Prop :=
  ∃ lenght, db.getLenghtBetweenStops (db.stop p).name (db.stop q).name = .ok lenght

section Lenght

variable {db : TransportCatalogue} {p q : StopPtr}

theorem getLenghtBetweenStops_of_lt (h : StoreInv db) (hp : p < db.allStops.length)
    (hq : q < db.allStops.length) :
    db.getLenghtBetweenStops (db.stop p).name (db.stop q).name =
      match db.lengthBetweenStops.lookup (p, q) with
      | some lenght => .ok lenght
      | none =>
          match db.lengthBetweenStops.lookup (q, p) with
          | some lenght => .ok lenght
          | none =>
              if p = q then .ok 0
              else .error (.logicError "Not found Lenght between this stops") := by
  have hname : (db.stop p).name = (db.stop q).name ↔ p = q :=
    ⟨h.stop_name_injective hp hq, fun heq => heq ▸ rfl⟩
  unfold getLenghtBetweenStops
  simp only [mapAt_of_lookup (h.lookup_stop_name hp), mapAt_of_lookup (h.lookup_stop_name hq),
    bind, Except.bind, hname]
  rfl

theorem hasLenght_iff (h : StoreInv db) (hp : p < db.allStops.length)
    (hq : q < db.allStops.length) :
    HasLenght db p q ↔ (p, q) ∈ db.lengthBetweenStops ∨ (q, p) ∈ db.lengthBetweenStops ∨ p = q := by
  rw [HasLenght, getLenghtBetweenStops_of_lt h hp hq, UnorderedMap.mem_iff_lookup,
    UnorderedMap.mem_iff_lookup]
  cases db.lengthBetweenStops.lookup (p, q) <;>
    cases db.lengthBetweenStops.lookup (q, p) <;>
    by_cases heq : p = q <;> simp [heq]

theorem hasLenght_comm (h : StoreInv db) (hp : p < db.allStops.length)
    (hq : q < db.allStops.length) : HasLenght db p q ↔ HasLenght db q p := by
  rw [hasLenght_iff h hp hq, hasLenght_iff h hq hp, eq_comm (a := p)]
  tauto

theorem getLenghtBetweenStops_of_not_hasLenght (h : StoreInv db) (hp : p < db.allStops.length)
    (hq : q < db.allStops.length) (hnot : ¬ HasLenght db p q) :
    db.getLenghtBetweenStops (db.stop p).name (db.stop q).name =
      .error (.logicError "Not found Lenght between this stops") := by
  rw [HasLenght, getLenghtBetweenStops_of_lt h hp hq] at hnot
  rw [getLenghtBetweenStops_of_lt h hp hq]
  cases hpq : db.lengthBetweenStops.lookup (p, q) <;>
    cases hqp : db.lengthBetweenStops.lookup (q, p) <;>
    by_cases heq : p = q <;> simp_all

end Lenght

end TransportSystem.TransportCatalogue
