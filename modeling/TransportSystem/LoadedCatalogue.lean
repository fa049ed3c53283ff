import TransportSystem.CatalogueProto

/-!
`DeserializeTransportCatalogue` on any message. It reads out of bounds exactly
on a message with an index that is no stop of the message; every other message
gives the catalogue of its stops and buses.
-/

namespace TransportSystem.TransportCatalogue

open TransportCatalogueSerialize (Distance)

def BusInBounds (proto : TransportCatalogueSerialize.TransportCatalogue)
    (bus : TransportCatalogueSerialize.Bus) : Prop :=
  ∀ stop ∈ bus.stops, stop.toNat < proto.stops.length

def LenghtInBounds (proto : TransportCatalogueSerialize.TransportCatalogue) (dist : Distance) :
    Prop :=
  dist.source.toNat < proto.stops.length ∧ dist.target.toNat < proto.stops.length

/-- All indices of the message are stops of the message. -/
structure InBounds (proto : TransportCatalogueSerialize.TransportCatalogue) : Prop where
  buses : ∀ bus ∈ proto.buses, BusInBounds proto bus
  lenghts : ∀ dist ∈ proto.lenghtBetweenStops, LenghtInBounds proto dist

/-- A catalogue with the stops of the message and with the buses among `buses`. -/
structure Loaded (proto : TransportCatalogueSerialize.TransportCatalogue)
    (buses : List TransportCatalogueSerialize.Bus) (db : TransportCatalogue) : Prop where
  inv : Inv db
  lastBus : LastBus db
  names : ∀ n, n ∈ db.names ↔ n ∈ proto.stops.map fun stop => stop.name
  buses : db.allBuses.map (fun bus => (bus.name, bus.stops.length)) =
    buses.map fun bus => (bus.name, bus.stops.length)

variable {proto : TransportCatalogueSerialize.TransportCatalogue}
  {buses : List TransportCatalogueSerialize.Bus} {db : TransportCatalogue}

theorem repeatedAt_of_lt {A : Type} {field : List A} {index : UInt32}
    (h : index.toNat < field.length) : ∃ a ∈ field, repeatedAt field index = .ok a :=
  ⟨_, List.getElem_mem h, by rw [repeatedAt, List.getElem?_eq_getElem h]⟩

theorem repeatedAt_of_not_lt {A : Type} {field : List A} {index : UInt32}
    (h : ¬ index.toNat < field.length) : repeatedAt field index = .error .undefinedBehaviour := by
  rw [repeatedAt, List.getElem?_eq_none (Nat.not_lt.mp h)]

theorem mem_names_addStop (h : StoreInv db) (name n : Str) (location : Coordinates) :
    n ∈ (db.addStop name location).names ↔ n ∈ db.names ∨ n = name := by
  rw [addStop_names location h]
  split
  · rename_i hmem
    constructor
    · exact Or.inl
    · rintro (hn | rfl)
      · exact hn
      · exact hmem
  · rw [List.mem_append, List.mem_singleton]

theorem loaded_stops : Loaded proto [] (proto.stops.foldl
    (fun db stop => db.addStop stop.name ⟨stop.coordinates.lat, stop.coordinates.lng⟩) empty) := by
  have hfold : ∀ (stops : List TransportCatalogueSerialize.Stop) (db : TransportCatalogue),
      Inv db → LastBus db → db.allBuses = [] →
      ∀ db', stops.foldl (fun db stop =>
          db.addStop stop.name ⟨stop.coordinates.lat, stop.coordinates.lng⟩) db = db' →
        Inv db' ∧ LastBus db' ∧ db'.allBuses = [] ∧
          ∀ n, n ∈ db'.names ↔ n ∈ db.names ∨ n ∈ stops.map fun stop => stop.name := by
    intro stops
    induction stops with
    | nil =>
        rintro db hinv hlast hbuses db' rfl
        exact ⟨hinv, hlast, hbuses, by simp⟩
    | cons stop stops ih =>
        intro db hinv hlast hbuses db' hdb'
        obtain ⟨hinv', hlast', hbuses', hnames'⟩ := ih _ (addStop_inv _ hinv)
          (hlast.congr (addStop_buses _ _ _) (addStop_allBuses _ _ _))
          ((addStop_allBuses _ _ _).trans hbuses) db' hdb'
        refine ⟨hinv', hlast', hbuses', fun n => ?_⟩
        rw [hnames' n, mem_names_addStop hinv.toStoreInv, List.map_cons, List.mem_cons, or_assoc]
  obtain ⟨hinv, hlast, hbuses, hnames⟩ := hfold proto.stops empty empty_inv lastBus_empty rfl _ rfl
  refine ⟨hinv, hlast, fun n => ?_, by rw [hbuses]; rfl⟩
  rw [hnames]
  simp [TransportCatalogue.names, empty]

theorem mapM_repeatedAt {stops : List UInt32}
    (h : ∀ stop ∈ stops, stop.toNat < proto.stops.length) :
    ∃ names, stops.mapM (fun stop => do pure (← repeatedAt proto.stops stop).name) =
        .ok names ∧ names.length = stops.length ∧
      ∀ n ∈ names, n ∈ proto.stops.map fun stop => stop.name := by
  induction stops with
  | nil => exact ⟨[], rfl, rfl, by simp⟩
  | cons stop stops ih =>
      obtain ⟨names, hnames, hlength, hmem⟩ := ih fun s hs => h s (by simp [hs])
      obtain ⟨protoStop, hprotoStop, hstop⟩ := repeatedAt_of_lt (h stop (by simp))
      refine ⟨protoStop.name :: names, ?_, by simp [hlength], ?_⟩
      · rw [List.mapM_cons, hstop, hnames]
        rfl
      · intro n hn
        rcases List.mem_cons.mp hn with rfl | hn
        · exact List.mem_map_of_mem hprotoStop
        · exact hmem n hn

theorem mapM_repeatedAt_of_not {stops : List UInt32}
    (h : ∃ stop ∈ stops, ¬ stop.toNat < proto.stops.length) :
    stops.mapM (fun stop => do pure (← repeatedAt proto.stops stop).name) =
      .error .undefinedBehaviour := by
  induction stops with
  | nil =>
      obtain ⟨stop, hstop, -⟩ := h
      cases hstop
  | cons stop stops ih =>
      rw [List.mapM_cons]
      by_cases hstop : stop.toNat < proto.stops.length
      · obtain ⟨protoStop, -, heq⟩ := repeatedAt_of_lt hstop
        obtain ⟨other, hother, hout⟩ := h
        rw [heq,
          ih ⟨other, (List.mem_cons.mp hother).resolve_left fun h' => hout (h' ▸ hstop), hout⟩]
        rfl
      · rw [repeatedAt_of_not_lt hstop]
        rfl

theorem loadBus_of_inBounds (h : Loaded proto buses db) {bus : TransportCatalogueSerialize.Bus}
    (hbus : BusInBounds proto bus) :
    ∃ db', loadBus proto db bus = .ok db' ∧ Loaded proto (buses ++ [bus]) db' := by
  obtain ⟨names, hnames, hlength, hmem⟩ := mapM_repeatedAt hbus
  obtain ⟨db', heq, hadded⟩ := addBus_spec h.inv.toStoreInv bus.name names bus.isLoop
  refine ⟨db', ?_, hadded.toInv h.inv, h.lastBus.addBus h.inv.toStoreInv hadded, fun n => ?_, ?_⟩
  · rw [loadBus, hnames]
    exact heq
  · rw [hadded.added.mem_names_iff, h.names]
    exact or_iff_left_of_imp (hmem n)
  · obtain ⟨ptrs, hall, hptrs⟩ := hadded.allBuses
    have hptrsLength : ptrs.length = bus.stops.length := by
      rw [← hlength, ← hptrs, stopNames, List.length_map]
    rw [hall, List.map_append, List.map_append, h.buses, List.map_singleton, List.map_singleton,
      hptrsLength]

theorem loadBus_of_not_inBounds {bus : TransportCatalogueSerialize.Bus}
    (hbus : ¬ BusInBounds proto bus) : loadBus proto db bus = .error .undefinedBehaviour := by
  rw [loadBus, mapM_repeatedAt_of_not (by simpa [BusInBounds] using hbus)]
  rfl

theorem loadLenght_of_inBounds (h : Loaded proto buses db) {dist : Distance}
    (hdist : LenghtInBounds proto dist) :
    ∃ db', loadLenght proto db dist = .ok db' ∧ Loaded proto buses db' := by
  obtain ⟨source, hsource, hsourceEq⟩ := repeatedAt_of_lt hdist.1
  obtain ⟨target, htarget, htargetEq⟩ := repeatedAt_of_lt hdist.2
  have hspec := addLenghtBetweenStops_spec h.inv.toStoreInv (source.name, target.name) dist.lenght
  rw [if_pos ((h.names _).mpr (List.mem_map_of_mem hsource))] at hspec
  obtain ⟨db', heq, hadded⟩ := hspec
  refine ⟨db', ?_, hadded.toInv h.inv, h.lastBus.congr hadded.buses hadded.allBuses,
    fun n => ?_, ?_⟩
  · rw [loadLenght, hsourceEq, htargetEq]
    exact heq
  · rw [hadded.added.mem_names_iff, h.names, List.mem_singleton]
    refine or_iff_left_of_imp ?_
    rintro rfl
    exact List.mem_map_of_mem htarget
  · rw [hadded.allBuses, h.buses]

theorem loadLenght_of_not_inBounds {dist : Distance} (hdist : ¬ LenghtInBounds proto dist) :
    loadLenght proto db dist = .error .undefinedBehaviour := by
  rw [LenghtInBounds, not_and] at hdist
  rw [loadLenght]
  by_cases hsource : dist.source.toNat < proto.stops.length
  · obtain ⟨source, -, heq⟩ := repeatedAt_of_lt hsource
    rw [heq, repeatedAt_of_not_lt (hdist hsource)]
    rfl
  · rw [repeatedAt_of_not_lt hsource]
    rfl

/-- A message whose indices are stops of it is loaded. -/
theorem deserialize_of_inBounds (h : InBounds proto) :
    ∃ db, deserializeTransportCatalogue proto = .ok db ∧ Loaded proto proto.buses db := by
  obtain ⟨db₁, heq₁, hloaded₁⟩ := foldlM_of_good (p := Loaded proto)
    (fun _ _ hgood _ _ hp => loadBus_of_inBounds hp hgood) h.buses loaded_stops
  obtain ⟨db₂, heq₂, hloaded₂⟩ := foldlM_of_good (p := fun _ => Loaded proto proto.buses)
    (q := LenghtInBounds proto) (d := [])
    (fun _ _ hgood _ _ hp => loadLenght_of_inBounds hp hgood) h.lenghts hloaded₁
  exact ⟨db₂, bind_eq_ok_iff.mpr ⟨db₁, heq₁, heq₂⟩, hloaded₂⟩

/-- Every other message is read out of bounds. -/
theorem deserialize_of_not_inBounds (h : ¬ InBounds proto) :
    deserializeTransportCatalogue proto = .error .undefinedBehaviour := by
  unfold deserializeTransportCatalogue
  by_cases hbuses : ∀ bus ∈ proto.buses, BusInBounds proto bus
  · obtain ⟨db₁, heq₁, hloaded₁⟩ := foldlM_of_good (p := Loaded proto)
      (fun _ _ hgood _ _ hp => loadBus_of_inBounds hp hgood) hbuses loaded_stops
    have hlenghts : ∃ dist ∈ proto.lenghtBetweenStops, ¬ LenghtInBounds proto dist := by
      by_contra hnone
      push Not at hnone
      exact h ⟨hbuses, hnone⟩
    have heq₂ := foldlM_of_bad (p := fun _ => Loaded proto proto.buses) (q := LenghtInBounds proto)
      (d := []) (fun _ _ hgood _ _ hp => loadLenght_of_inBounds hp hgood)
      (fun _ _ hbad _ _ _ => loadLenght_of_not_inBounds hbad) hlenghts hloaded₁
    simp only [heq₁, ok_bind]
    exact heq₂
  · push Not at hbuses
    have heq₁ := foldlM_of_bad (p := Loaded proto)
      (fun _ _ hgood _ _ hp => loadBus_of_inBounds hp hgood)
      (fun _ _ hbad _ _ _ => loadBus_of_not_inBounds hbad) hbuses loaded_stops
    simp only [heq₁]
    rfl

theorem loaded_of_deserialize (h : deserializeTransportCatalogue proto = .ok db) :
    Loaded proto proto.buses db := by
  by_cases hbounds : InBounds proto
  · obtain ⟨db', heq, hloaded⟩ := deserialize_of_inBounds hbounds
    rw [h] at heq
    cases heq
    exact hloaded
  · rw [deserialize_of_not_inBounds hbounds] at h
    cases h

end TransportSystem.TransportCatalogue
