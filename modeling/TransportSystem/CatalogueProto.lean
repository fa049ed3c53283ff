import TransportSystem.Proto
import TransportSystem.CatalogueView

namespace TransportSystem.TransportCatalogue

open Library.UniqueKeys
open Library.Lists

/-- Write the stops one after the other, with a map from their names to their
numbers. -/
def numberStops {A V : Type} (save : Stop → A) (number : Nat → V) (stops : List Stop) :
    UnorderedMap Str V × List A :=
  stops.foldl
    (fun (result : UnorderedMap Str V × List A) stop =>
      (result.1.assign stop.name (number result.2.length), result.2 ++ [save stop]))
    (∅, [])

def saveStopToProto (stop : Stop) : TransportCatalogueSerialize.Stop :=
  ⟨stop.name, ⟨stop.coordinates.lat, stop.coordinates.lng⟩⟩

def saveBusToProto (db : TransportCatalogue) (stops : UnorderedMap Str Nat) (bus : Bus) :
    Except Failure TransportCatalogueSerialize.Bus := do
  let ids ← bus.stops.mapM fun stop => do
    pure (UInt32.ofNat (← mapAt stops (db.stop stop).name))
  pure ⟨bus.isLoopTrip, bus.name, ids⟩

def saveLenghtToProto (db : TransportCatalogue) (stops : UnorderedMap Str Nat)
    (pairStops : StopPtr × StopPtr) (lenght : UInt32) :
    Except Failure TransportCatalogueSerialize.Distance := do
  let source ← mapAt stops (db.stop pairStops.1).name
  let target ← mapAt stops (db.stop pairStops.2).name
  pure ⟨UInt32.ofNat source, UInt32.ofNat target, lenght⟩

/-- `TransportCatalogue::SaveToProto`, with the order in which it meets the
distances. -/
def saveToProto (it : Iteration (StopPtr × StopPtr) UInt32) (db : TransportCatalogue) :
    Except Failure TransportCatalogueSerialize.TransportCatalogue := do
  let (protoStops, stops) := numberStops saveStopToProto id db.allStops
  let buses ← db.allBuses.mapM (db.saveBusToProto protoStops)
  let lenghts ← (it.order db.lengthBetweenStops).mapM fun e =>
    db.saveLenghtToProto protoStops e.1 e.2
  pure ⟨stops, buses, lenghts⟩

/-- The loop of `DeserializeTransportCatalogue` over the buses. -/
def loadBus (proto : TransportCatalogueSerialize.TransportCatalogue)
    (result : TransportCatalogue) (bus : TransportCatalogueSerialize.Bus) :
    Except Failure TransportCatalogue := do
  let stops ← bus.stops.mapM fun stop => do pure (← repeatedAt proto.stops stop).name
  result.addBus bus.name stops bus.isLoop

/-- The loop of `DeserializeTransportCatalogue` over the distances. -/
def loadLenght (proto : TransportCatalogueSerialize.TransportCatalogue)
    (result : TransportCatalogue) (dist : TransportCatalogueSerialize.Distance) :
    Except Failure TransportCatalogue := do
  let source := (← repeatedAt proto.stops dist.source).name
  let target := (← repeatedAt proto.stops dist.target).name
  result.addLenghtBetweenStops (source, target) dist.lenght

def deserializeTransportCatalogue (proto : TransportCatalogueSerialize.TransportCatalogue) :
    Except Failure TransportCatalogue := do
  let result := proto.stops.foldl
    (fun db stop => db.addStop stop.name ⟨stop.coordinates.lat, stop.coordinates.lng⟩) empty
  let result ← proto.buses.foldlM (loadBus proto) result
  proto.lenghtBetweenStops.foldlM (loadLenght proto) result

/-- A bus name leads to the bus that was added last under it. -/
def LastBus (db : TransportCatalogue) : Prop :=
  ∀ name, (db.buses.lookup name).map db.bus = db.allBuses.reverse.find? fun bus => bus.name = name

section LastBus

variable {db : TransportCatalogue}

theorem lastBus_empty : LastBus empty := by
  intro name
  simp [empty]

theorem LastBus.congr {db' : TransportCatalogue} (h : LastBus db) (hbuses : db'.buses = db.buses)
    (hall : db'.allBuses = db.allBuses) : LastBus db' := by
  intro name
  have hbus : db'.bus = db.bus := by
    funext p
    simp only [bus, hall]
  rw [hbuses, hall, hbus, h name]

theorem LastBus.addBus {db' : TransportCatalogue} {name : Str} {stops : List Str} {isLoop : Bool}
    (hdb : StoreInv db) (h : LastBus db) (h' : BusAdded db name stops isLoop db') :
    LastBus db' := by
  obtain ⟨ptrs, hall, -⟩ := h'.allBuses
  intro n
  rw [h'.buses, hall, List.reverse_append, List.reverse_singleton, List.singleton_append,
    List.find?_cons]
  by_cases hn : n = name
  · have hbus : db'.bus db.allBuses.length = ⟨name, ptrs, isLoop⟩ :=
      bus_of_getElem? (by rw [hall, getElem?_append_singleton, if_pos rfl])
    simp [hn, hbus]
  · have hn' : ¬ name = n := fun heq => hn heq.symm
    simp only [hn, if_false, hn', decide_false]
    rw [← h n]
    cases hp : db.buses.lookup n with
    | none => rfl
    | some p =>
        obtain ⟨b, hb, -⟩ := hdb.buses n p hp
        have hlt := (List.getElem?_eq_some_iff.mp hb).1
        have hb' : db'.allBuses[p]? = some b := by
          rw [hall, getElem?_append_singleton, if_neg (by omega), hb]
        rw [Option.map_some, Option.map_some, bus_of_getElem? hb, bus_of_getElem? hb']

theorem lastBus_step (hdb : StoreInv db) (h : LastBus db) (c : Call) : LastBus (db.step c) := by
  cases c with
  | addBus name stops isLoop =>
      obtain ⟨db', heq, hadded⟩ := addBus_spec hdb name stops isLoop
      simpa only [step, call, heq] using h.addBus hdb hadded
  | addStop name location => exact h.congr (by simp [step, call]) (by simp [step, call])
  | addLenghtBetweenStops pairStops lenght =>
      have hspec := addLenghtBetweenStops_spec hdb pairStops lenght
      split at hspec
      · obtain ⟨db', heq, hadded⟩ := hspec
        simpa only [step, call, heq] using h.congr hadded.buses hadded.allBuses
      · simpa only [step, call, hspec] using h

theorem run_lastBus (calls : List Call) : LastBus (run calls) :=
  (Library.Runs.invariant_foldl step (fun db => Inv db ∧ LastBus db)
    (fun _ c h => ⟨step_inv h.1 c, lastBus_step h.1.toStoreInv h.2 c⟩)
    ⟨empty_inv, lastBus_empty⟩ calls).2

end LastBus

namespace View

variable (v : View)

theorem foldl_addStop (stops : List Stop) (hnodup : (stops.map Stop.name).Nodup)
    (hfresh : ∀ s ∈ stops, v.coordinates s.name = none) :
    stops.foldl (fun v s => v.addStop s.name s.coordinates) v =
      { v with
        coordinates := fun n =>
          ((stops.find? fun s => s.name = n).map Stop.coordinates).or (v.coordinates n) } := by
  induction stops generalizing v with
  | nil => rfl
  | cons s stops ih =>
      rw [List.map_cons, List.nodup_cons] at hnodup
      have hother : ∀ t ∈ stops, t.name ≠ s.name := by
        intro t ht heq
        exact hnodup.1 (heq ▸ List.mem_map_of_mem ht)
      have hfresh' : ∀ t ∈ stops, (v.addStop s.name s.coordinates).coordinates t.name = none := by
        intro t ht
        simp [addStop, hother t ht, hfresh t (by simp [ht])]
      rw [List.foldl_cons, ih _ hnodup.2 hfresh']
      ext1
      · funext n
        by_cases hn : s.name = n
        · subst hn
          have hnone : stops.find? (fun t => t.name = s.name) = none := by
            rw [List.find?_eq_none]
            intro t ht
            simpa using hother t ht
          simp [addStop, hnone, hfresh s (by simp)]
        · have hn' : ¬ n = s.name := fun heq => hn heq.symm
          simp [addStop, hn, hn', locatedAt]
      all_goals rfl

theorem addPlaceholders_coordinates {stops : List Str}
    (hknown : ∀ s ∈ stops, v.coordinates s ≠ none) :
    (v.addPlaceholders stops).coordinates = v.coordinates := by
  funext n
  simp only [addPlaceholders, knownAt]
  rw [if_neg]
  rintro ⟨hmem, hnone⟩
  exact hknown n hmem hnone

/-- Among several buses of a name the last one counts. -/
theorem foldl_addBus (buses : List (Str × List Str × Bool))
    (hknown : ∀ b ∈ buses, ∀ s ∈ b.2.1, v.coordinates s ≠ none) :
    buses.foldl (fun v b => v.addBus b.1 b.2.1 b.2.2) v =
      { v with
        bus := fun n => ((buses.reverse.find? fun b => b.1 = n).map Prod.snd).or (v.bus n)
        allBuses := {b | b ∈ buses} ∪ v.allBuses
        buses := fun s => {n | ∃ b ∈ buses, b.1 = n ∧ s ∈ b.2.1} ∪ v.buses s } := by
  induction buses generalizing v with
  | nil => simp
  | cons b buses ih =>
      have hcoordinates : (v.addBus b.1 b.2.1 b.2.2).coordinates = v.coordinates :=
        v.addPlaceholders_coordinates (hknown b (by simp))
      have hknown' : ∀ c ∈ buses, ∀ s ∈ c.2.1,
          (v.addBus b.1 b.2.1 b.2.2).coordinates s ≠ none := by
        intro c hc s hs
        rw [hcoordinates]
        exact hknown c (by simp [hc]) s hs
      rw [List.foldl_cons, ih _ hknown']
      ext1
      · exact hcoordinates
      · funext n
        simp only [List.reverse_cons, List.find?_append]
        cases hfind : buses.reverse.find? fun c => c.1 = n with
        | some c => simp
        | none =>
            by_cases hn : b.1 = n
            · simp [addBus, hn]
            · have hn' : ¬ n = b.1 := fun heq => hn heq.symm
              simp [addBus, hn, hn']
      · ext c
        simp [addBus, or_assoc]
      · rfl
      · funext s
        ext n
        by_cases hs : s ∈ b.2.1
        · simp [addBus, hs, or_assoc, eq_comm]
        · simp [addBus, hs]

/-- Of several distances between two stops the first one counts. -/
theorem foldl_addLenghtBetweenStops (lenghts : List ((Str × Str) × UInt32))
    (hknown : ∀ l ∈ lenghts, v.coordinates l.1.1 ≠ none ∧ v.coordinates l.1.2 ≠ none) :
    lenghts.foldl (fun v l => v.step (.addLenghtBetweenStops l.1 l.2)) v =
      { v with
        lenght := fun a b =>
          (v.lenght a b).or ((lenghts.find? fun l => l.1 = (a, b)).map Prod.snd) } := by
  induction lenghts generalizing v with
  | nil => simp
  | cons l lenghts ih =>
      have hstep : v.step (.addLenghtBetweenStops l.1 l.2) =
          v.addLenghts l.1.1 [(l.1.2, l.2)] := if_neg (hknown l (by simp)).1
      have hcoordinates : (v.addLenghts l.1.1 [(l.1.2, l.2)]).coordinates = v.coordinates :=
        v.addPlaceholders_coordinates (by simpa using (hknown l (by simp)).2)
      have hknown' : ∀ l' ∈ lenghts,
          (v.addLenghts l.1.1 [(l.1.2, l.2)]).coordinates l'.1.1 ≠ none ∧
            (v.addLenghts l.1.1 [(l.1.2, l.2)]).coordinates l'.1.2 ≠ none := by
        intro l' hl'
        rw [hcoordinates]
        exact hknown l' (by simp [hl'])
      rw [List.foldl_cons, hstep, ih _ hknown']
      ext1
      · exact hcoordinates
      · rfl
      · rfl
      · funext a b
        obtain ⟨⟨c, d⟩, lenght⟩ := l
        by_cases ha : a = c
        · subst ha
          by_cases hb : d = b
          · subst hb
            cases hv : v.lenght a d <;> simp [addLenghts, hv]
          · simp [addLenghts, hb]
        · have ha' : ¬ c = a := fun heq => ha heq.symm
          simp [addLenghts, addPlaceholders, ha, ha']
      · rfl

end View

theorem numberStops_spec {A V : Type} (save : Stop → A) (number : Nat → V) (stops : List Stop)
    (hnodup : (stops.map Stop.name).Nodup) :
    (numberStops save number stops).2 = stops.map save ∧
      ∀ i name, (stops.map Stop.name)[i]? = some name →
        (numberStops save number stops).1.lookup name = some (number i) := by
  induction stops using List.reverseRecOn with
  | nil => simp [numberStops]
  | append_singleton stops s ih =>
      rw [List.map_append, List.nodup_append] at hnodup
      obtain ⟨hsaved, hnumbers⟩ := ih hnodup.1
      have hlength : (numberStops save number stops).2.length = stops.length := by simp [hsaved]
      have happend : numberStops save number (stops ++ [s]) =
          ((numberStops save number stops).1.assign s.name (number stops.length),
            stops.map save ++ [save s]) := by
        rw [← hlength, ← hsaved, numberStops, List.foldl_append]
        rfl
      rw [happend]
      refine ⟨by simp, ?_⟩
      intro i name hi
      rw [List.map_append, List.map_singleton, getElem?_append_singleton, List.length_map] at hi
      rw [UnorderedMap.lookup_assign]
      by_cases hlast : i = stops.length
      · rw [if_pos hlast] at hi
        cases hi
        rw [if_pos rfl, hlast]
      · rw [if_neg hlast] at hi
        have hne : name ≠ s.name := hnodup.2.2 name (List.mem_of_getElem? hi) s.name (by simp)
        rw [if_neg hne]
        exact hnumbers i name hi

section Save

variable {db : TransportCatalogue}

theorem numberStops_lookup {A V : Type} (save : Stop → A) (number : Nat → V) (h : StoreInv db)
    {p : StopPtr} (hp : p < db.allStops.length) :
    (numberStops save number db.allStops).1.lookup (db.stop p).name = some (number p) :=
  (numberStops_spec save number db.allStops h.names_nodup).2 p _ (names_getElem?_of_lt hp)

def protoBus (bus : Bus) : TransportCatalogueSerialize.Bus :=
  ⟨bus.isLoopTrip, bus.name, bus.stops.map UInt32.ofNat⟩

theorem saveBusToProto_spec (h : StoreInv db) {bus : Bus} (hbus : bus ∈ db.allBuses) :
    db.saveBusToProto (numberStops saveStopToProto id db.allStops).1 bus = .ok (protoBus bus) := by
  have hids := mapM_eq_ok (l := bus.stops) (g := UInt32.ofNat)
    (f := fun stop => do
      pure (UInt32.ofNat (← mapAt (numberStops saveStopToProto id db.allStops).1
        (db.stop stop).name)))
    fun p hp => by
      rw [mapAt_of_lookup (numberStops_lookup _ _ h (h.busStops bus hbus p hp))]
      rfl
  unfold saveBusToProto
  rw [hids]
  rfl

def protoDistance (pairStops : StopPtr × StopPtr) (lenght : UInt32) :
    TransportCatalogueSerialize.Distance :=
  ⟨UInt32.ofNat pairStops.1, UInt32.ofNat pairStops.2, lenght⟩

theorem saveLenghtToProto_spec (h : StoreInv db) {pairStops : StopPtr × StopPtr} {lenght : UInt32}
    (hlookup : db.lengthBetweenStops.lookup pairStops = some lenght) :
    db.saveLenghtToProto (numberStops saveStopToProto id db.allStops).1 pairStops lenght =
      .ok (protoDistance pairStops lenght) := by
  obtain ⟨hp, hq⟩ := h.lengths _ _ _ hlookup
  unfold saveLenghtToProto
  rw [mapAt_of_lookup (numberStops_lookup _ _ h hp), mapAt_of_lookup (numberStops_lookup _ _ h hq)]
  rfl

def protoCatalogue (it : Iteration (StopPtr × StopPtr) UInt32) (db : TransportCatalogue) :
    TransportCatalogueSerialize.TransportCatalogue :=
  ⟨db.allStops.map saveStopToProto, db.allBuses.map protoBus,
    (it.order db.lengthBetweenStops).map fun e => protoDistance e.1 e.2⟩

theorem saveToProto_spec (h : StoreInv db) (it : Iteration (StopPtr × StopPtr) UInt32) :
    saveToProto it db = .ok (protoCatalogue it db) := by
  have hbuses := mapM_eq_ok fun (bus : Bus) hbus => saveBusToProto_spec h hbus
  have hlenghts := mapM_eq_ok (l := it.order db.lengthBetweenStops)
    fun e he => saveLenghtToProto_spec h (it.mem_order.mp he)
  unfold saveToProto
  simp only [hbuses, hlenghts, bind, Except.bind,
    (numberStops_spec saveStopToProto id db.allStops h.names_nodup).1]
  rfl

end Save

section Load

variable {db : TransportCatalogue}

theorem call_addBus (h : StoreInv db) (name : Str) (stops : List Str) (isLoop : Bool) :
    db.addBus name stops isLoop = .ok (db.step (.addBus name stops isLoop)) := by
  obtain ⟨db', heq, -⟩ := addBus_spec h name stops isLoop
  simp only [step, call, heq]

theorem names_step_addBus (h : StoreInv db) (name : Str) (stops : List Str) (isLoop : Bool) :
    db.names <+: (db.step (.addBus name stops isLoop)).names := by
  obtain ⟨db', heq, hadded⟩ := addBus_spec h name stops isLoop
  simpa only [step, call, heq] using hadded.added.prefix_names

theorem call_addLenghtBetweenStops (h : StoreInv db) {pairStops : Str × Str}
    (hmem : pairStops.1 ∈ db.names) (lenght : UInt32) :
    db.addLenghtBetweenStops pairStops lenght =
        .ok (db.step (.addLenghtBetweenStops pairStops lenght)) ∧
      db.names <+: (db.step (.addLenghtBetweenStops pairStops lenght)).names := by
  have hspec := addLenghtBetweenStops_spec h pairStops lenght
  rw [if_pos hmem] at hspec
  obtain ⟨db', heq, hadded⟩ := hspec
  simpa only [step, call, heq, true_and] using hadded.added.prefix_names

theorem foldlM_addBus (h : Inv db) (buses : List (Str × List Str × Bool)) :
    buses.foldlM (fun db b => db.addBus b.1 b.2.1 b.2.2) db =
        .ok (buses.foldl (fun db b => db.step (.addBus b.1 b.2.1 b.2.2)) db) ∧
      db.names <+: (buses.foldl (fun db b => db.step (.addBus b.1 b.2.1 b.2.2)) db).names := by
  induction buses generalizing db with
  | nil => exact ⟨rfl, List.prefix_rfl⟩
  | cons b buses ih =>
      obtain ⟨heq, hnames⟩ := ih (step_inv h (.addBus b.1 b.2.1 b.2.2))
      rw [List.foldlM_cons, call_addBus h.toStoreInv, List.foldl_cons]
      exact ⟨heq, (names_step_addBus h.toStoreInv _ _ _).trans hnames⟩

theorem foldlM_addLenghtBetweenStops (h : Inv db) (lenghts : List ((Str × Str) × UInt32))
    (hmem : ∀ l ∈ lenghts, l.1.1 ∈ db.names) :
    lenghts.foldlM (fun db l => db.addLenghtBetweenStops l.1 l.2) db =
      .ok (lenghts.foldl (fun db l => db.step (.addLenghtBetweenStops l.1 l.2)) db) := by
  induction lenghts generalizing db with
  | nil => rfl
  | cons l lenghts ih =>
      obtain ⟨heq, hnames⟩ := call_addLenghtBetweenStops h.toStoreInv (hmem l (by simp)) l.2
      rw [List.foldlM_cons, heq, List.foldl_cons]
      exact ih (step_inv h _) fun l' hl' => hnames.subset (hmem l' (by simp [hl']))

end Load

/-- The calls that rebuild a catalogue. -/
def restoringCalls (it : Iteration (StopPtr × StopPtr) UInt32) (db : TransportCatalogue) :
    List Call :=
  db.allStops.map (fun stop => .addStop stop.name stop.coordinates) ++
    db.allBuses.map (fun bus => .addBus bus.name (db.stopNames bus.stops) bus.isLoopTrip) ++
      (it.order db.lengthBetweenStops).map fun e =>
        .addLenghtBetweenStops ((db.stop e.1.1).name, (db.stop e.1.2).name) e.2

/-- The buses with the names of their stops. -/
def busesByName (db : TransportCatalogue) : List (Str × List Str × Bool) :=
  db.allBuses.map fun bus => (bus.name, db.stopNames bus.stops, bus.isLoopTrip)

/-- The lengths with the names of their stops. -/
def lenghtsByName (it : Iteration (StopPtr × StopPtr) UInt32) (db : TransportCatalogue) :
    List ((Str × Str) × UInt32) :=
  (it.order db.lengthBetweenStops).map fun e =>
    (((db.stop e.1.1).name, (db.stop e.1.2).name), e.2)

section Restore

variable {db : TransportCatalogue} (it : Iteration (StopPtr × StopPtr) UInt32)

theorem mem_lenghtsByName (h : StoreInv db) {l : (Str × Str) × UInt32}
    (hl : l ∈ lenghtsByName it db) : ∃ p q, p < db.allStops.length ∧ q < db.allStops.length ∧
      l.1 = ((db.stop p).name, (db.stop q).name) := by
  obtain ⟨e, he, rfl⟩ := List.mem_map.mp hl
  obtain ⟨hp, hq⟩ := h.lengths _ _ _ (it.mem_order.mp he)
  exact ⟨_, _, hp, hq, rfl⟩

/-- Any way to go through the calls takes the stops, the buses and the lengths. -/
theorem foldl_restoringCalls {S : Type} (step : S → Call → S) (s : S) :
    (restoringCalls it db).foldl step s =
      (lenghtsByName it db).foldl (fun s l => step s (.addLenghtBetweenStops l.1 l.2))
        ((busesByName db).foldl (fun s b => step s (.addBus b.1 b.2.1 b.2.2))
          (db.allStops.foldl (fun s stop => step s (.addStop stop.name stop.coordinates)) s)) := by
  simp only [restoringCalls, busesByName, lenghtsByName, List.foldl_append, List.foldl_map]

theorem repeatedAt_stop {p : StopPtr} (hp : p < db.allStops.length)
    (hcount : db.allStops.length < 2 ^ 32) :
    repeatedAt (protoCatalogue it db).stops (UInt32.ofNat p) =
      .ok (saveStopToProto (db.stop p)) := by
  refine repeatedAt_ofNat (hp.trans hcount) ?_
  rw [protoCatalogue, List.getElem?_map, stop, List.getD_eq_getElem _ _ hp,
    List.getElem?_eq_getElem hp]
  rfl

theorem mem_names_foldl_addStop (stops : List Stop) {db' : TransportCatalogue} (h : Inv db') :
    Inv (stops.foldl (fun db s => db.addStop s.name s.coordinates) db') ∧
      ∀ n, n ∈ db'.names ∨ n ∈ stops.map Stop.name →
        n ∈ (stops.foldl (fun db s => db.addStop s.name s.coordinates) db').names := by
  induction stops generalizing db' with
  | nil => exact ⟨h, by simp⟩
  | cons s stops ih =>
      have h₁ : Inv (db'.addStop s.name s.coordinates) := addStop_inv s.coordinates h
      obtain ⟨hinv, hnames⟩ := ih h₁
      refine ⟨hinv, fun n hn => hnames n ?_⟩
      rw [addStop_names s.coordinates h.toStoreInv]
      rw [List.map_cons, List.mem_cons] at hn
      split
      · rename_i hmem
        rcases hn with hn | rfl | hn
        · exact Or.inl hn
        · exact Or.inl hmem
        · exact Or.inr hn
      · rcases hn with hn | rfl | hn
        · exact Or.inl (List.mem_append_left _ hn)
        · exact Or.inl (by simp)
        · exact Or.inr hn

theorem loadBus_spec (h : StoreInv db) (hcount : db.allStops.length < 2 ^ 32) {bus : Bus}
    (hbus : bus ∈ db.allBuses) (result : TransportCatalogue) :
    loadBus (protoCatalogue it db) result (protoBus bus) =
      result.addBus bus.name (db.stopNames bus.stops) bus.isLoopTrip := by
  have hnames : (bus.stops.map UInt32.ofNat).mapM (fun stop => do
      pure (← repeatedAt (protoCatalogue it db).stops stop).name) =
        .ok (db.stopNames bus.stops) := by
    rw [List.mapM_map]
    refine mapM_eq_ok fun p hp => ?_
    rw [Function.comp_apply, repeatedAt_stop it (h.busStops bus hbus p hp) hcount]
    rfl
  unfold loadBus
  rw [protoBus, hnames]
  rfl

theorem loadLenght_spec (h : StoreInv db) (hcount : db.allStops.length < 2 ^ 32)
    {e : Σ _ : StopPtr × StopPtr, UInt32} (he : e ∈ it.order db.lengthBetweenStops)
    (result : TransportCatalogue) :
    loadLenght (protoCatalogue it db) result (protoDistance e.1 e.2) =
      result.addLenghtBetweenStops ((db.stop e.1.1).name, (db.stop e.1.2).name) e.2 := by
  obtain ⟨hp, hq⟩ := h.lengths _ _ _ (it.mem_order.mp he)
  simp only [loadLenght, protoDistance, repeatedAt_stop it hp hcount, repeatedAt_stop it hq hcount]
  rfl

theorem deserializeTransportCatalogue_spec (h : StoreInv db)
    (hcount : db.allStops.length < 2 ^ 32) :
    deserializeTransportCatalogue (protoCatalogue it db) = .ok (run (restoringCalls it db)) := by
  obtain ⟨hinv₁, hnames₁⟩ := mem_names_foldl_addStop db.allStops empty_inv
  have hstops : (protoCatalogue it db).stops.foldl
      (fun db stop => db.addStop stop.name ⟨stop.coordinates.lat, stop.coordinates.lng⟩) empty =
      db.allStops.foldl (fun db s => db.addStop s.name s.coordinates) empty := List.foldl_map
  have hrun : run (restoringCalls it db) = (lenghtsByName it db).foldl
      (fun db l => db.step (.addLenghtBetweenStops l.1 l.2))
        ((busesByName db).foldl (fun db b => db.step (.addBus b.1 b.2.1 b.2.2))
          (db.allStops.foldl (fun db s => db.addStop s.name s.coordinates) empty)) :=
    foldl_restoringCalls it TransportCatalogue.step empty
  unfold deserializeTransportCatalogue
  rw [hstops, hrun]
  generalize db.allStops.foldl (fun db s => db.addStop s.name s.coordinates) empty = result₁
    at hinv₁ hnames₁
  obtain ⟨hbuses, hnames₂⟩ := foldlM_addBus hinv₁ (busesByName db)
  have hinv₂ : Inv _ := Library.Runs.invariant_foldl
    (fun db (b : Str × List Str × Bool) => db.step (.addBus b.1 b.2.1 b.2.2)) Inv
    (fun _ _ hdb => step_inv hdb _) hinv₁ (busesByName db)
  have hlenghts := foldlM_addLenghtBetweenStops hinv₂ (lenghtsByName it db) (by
    intro l hl
    obtain ⟨p, q, hp, -, heq⟩ := mem_lenghtsByName it h hl
    rw [heq]
    exact hnames₂.subset (hnames₁ _ (Or.inr (List.mem_of_getElem? (names_getElem?_of_lt hp)))))
  rw [busesByName, ← foldlM_map_congr (g := protoBus)
    fun bus hbus => loadBus_spec it h hcount hbus] at hbuses
  rw [lenghtsByName, ← foldlM_map_congr (g := fun e => protoDistance e.1 e.2)
    fun e he => loadLenght_spec it h hcount he] at hlenghts
  exact bind_eq_ok_iff.mpr ⟨_, hbuses, hlenghts⟩

theorem find?_stop (h : StoreInv db) (name : Str) :
    (db.allStops.find? fun s => s.name = name).map Stop.coordinates =
      (view db).coordinates name := by
  cases hfind : db.allStops.find? fun s => s.name = name with
  | none =>
      have hnot : name ∉ db.names := by
        intro hmem
        obtain ⟨s, hs, hname⟩ := List.mem_map.mp hmem
        simpa using List.find?_eq_none.mp hfind s hs (by simpa using hname)
      rw [not_ne_iff.mp (mt (mem_names_iff_coordinates h name).mpr hnot)]
      rfl
  | some s =>
      have hname : s.name = name := by simpa using List.find?_some hfind
      obtain ⟨p, hp⟩ := List.mem_iff_getElem?.mp (List.mem_of_find?_eq_some hfind)
      have hlt := (List.getElem?_eq_some_iff.mp hp).1
      have hstop := stop_of_getElem? hp
      have hplace := h.lookup_stop_name hlt
      rw [hstop, hname] at hplace
      simp [view, hplace, hstop]

theorem find?_lenght (h : StoreInv db) (a b : Str) :
    ((lenghtsByName it db).find? fun l => l.1 = (a, b)).map Prod.snd = (view db).lenght a b := by
  have hview : ∀ e ∈ it.order db.lengthBetweenStops,
      (view db).lenght (db.stop e.1.1).name (db.stop e.1.2).name = some e.2 := by
    intro e he
    have hlookup := it.mem_order.mp he
    obtain ⟨hp, hq⟩ := h.lengths _ _ _ hlookup
    simpa [view, h.lookup_stop_name hp, h.lookup_stop_name hq] using hlookup
  cases hfind : (lenghtsByName it db).find? fun l => l.1 = (a, b) with
  | none =>
      rw [List.find?_eq_none] at hfind
      symm
      rw [Option.map_none, Option.eq_none_iff_forall_ne_some]
      intro l hl
      simp only [view, Option.bind_eq_some_iff] at hl
      obtain ⟨p, hp, q, hq, hlookup⟩ := hl
      refine hfind _ (List.mem_map_of_mem (it.mem_order.mpr hlookup)) ?_
      have hp' := stop_name_of_names ((h.stops a p).mp hp)
      have hq' := stop_name_of_names ((h.stops b q).mp hq)
      simp [hp', hq']
  | some l =>
      obtain ⟨e, he, rfl⟩ := List.mem_map.mp (List.mem_of_find?_eq_some hfind)
      have hnames := List.find?_some hfind
      simp only [Prod.mk.injEq, decide_eq_true_eq] at hnames
      rw [← hnames.1, ← hnames.2, hview e he]
      rfl

theorem find?_bus (h : LastBus db) (name : Str) :
    ((busesByName db).reverse.find? fun b => b.1 = name).map Prod.snd = (view db).bus name := by
  have hlast := congrArg (Option.map fun bus : Bus =>
    (db.stopNames bus.stops, bus.isLoopTrip)) (h name)
  rw [Option.map_map] at hlast
  rw [busesByName, ← List.map_reverse, List.find?_map, Option.map_map]
  exact hlast.symm

/-- The calls rebuild the view of the catalogue. -/
theorem view_run_restoringCalls (h : Inv db) (hlast : LastBus db) :
    view (run (restoringCalls it db)) = view db := by
  have hknown : ∀ p, p < db.allStops.length → (view db).coordinates (db.stop p).name ≠ none := by
    intro p hp
    simp [view, h.lookup_stop_name hp]
  have hstops := View.foldl_addStop View.empty db.allStops h.names_nodup fun _ _ => rfl
  simp only [View.empty, find?_stop h.toStoreInv, Option.or_none] at hstops
  have hbuses := View.foldl_addBus { View.empty with coordinates := (view db).coordinates }
    (busesByName db) (by
      intro b hb s hs
      obtain ⟨bus, hbus, rfl⟩ := List.mem_map.mp hb
      obtain ⟨p, hp, rfl⟩ := List.mem_map.mp hs
      exact hknown p (h.busStops bus hbus p hp))
  simp only [View.empty, find?_bus hlast, Option.or_none, Set.union_empty] at hbuses
  have hlenghts := View.foldl_addLenghtBetweenStops
    { View.empty with
      coordinates := (view db).coordinates
      bus := (view db).bus
      allBuses := (view db).allBuses
      buses := (view db).buses }
    (lenghtsByName it db) (by
      intro l hl
      obtain ⟨p, q, hp, hq, heq⟩ := mem_lenghtsByName it h.toStoreInv hl
      rw [heq]
      exact ⟨hknown _ hp, hknown _ hq⟩)
  simp only [View.empty, find?_lenght it h.toStoreInv, Option.none_or] at hlenghts
  have hallBuses : {b | b ∈ busesByName db} = (view db).allBuses := by
    ext b
    simp [busesByName, view, eq_comm]
  have hindex : (fun s => {n | ∃ b ∈ busesByName db, b.1 = n ∧ s ∈ b.2.1}) = (view db).buses := by
    funext s
    ext n
    simp [busesByName, view, h.mem]
  rw [hallBuses, hindex] at hbuses
  calc
    view (run (restoringCalls it db)) = (lenghtsByName it db).foldl
        (fun v l => v.step (.addLenghtBetweenStops l.1 l.2))
          ((busesByName db).foldl (fun v b => v.addBus b.1 b.2.1 b.2.2)
            (db.allStops.foldl (fun v s => v.addStop s.name s.coordinates) View.empty)) := by
      rw [run, view_foldl empty_inv, view_empty]
      exact foldl_restoringCalls it View.step View.empty
    _ = view db := by
      rw [View.empty, hstops, hbuses, hlenghts]

/-- A catalogue survives being saved and read. -/
theorem deserialize_saveToProto (h : Inv db) (hlast : LastBus db)
    (hcount : db.allStops.length < 2 ^ 32) :
    ∃ proto db', saveToProto it db = .ok proto ∧
      deserializeTransportCatalogue proto = .ok db' ∧ Inv db' ∧ view db' = view db :=
  ⟨_, _, saveToProto_spec h.toStoreInv it,
    deserializeTransportCatalogue_spec it h.toStoreInv hcount,
    run_inv _, view_run_restoringCalls it h hlast⟩

end Restore

end TransportSystem.TransportCatalogue
