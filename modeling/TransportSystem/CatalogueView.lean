import TransportSystem.StopIndex

/-!
What a catalogue knows, by the names of its stops and buses: the abstract
catalogue that the deques, pointers and maps implement.
-/

namespace TransportSystem.TransportCatalogue

open Library.UniqueKeys
open Library.Lists

/-- A catalogue without its representation. The stops with coordinates `⟨0, 0⟩`
include those known by name only. -/
@[ext] structure View where
  coordinates : Str → Option Coordinates
  bus : Str → Option (List Str × Bool)
  allBuses : Set (Str × List Str × Bool)
  lenght : Str → Str → Option UInt32
  buses : Str → Set Str

namespace View

section Coordinates

variable (here there : Prop) [Decidable here] [Decidable there]

/-- The coordinates of a stop that becomes known by name. -/
def knownAt (c : Option Coordinates) : Option Coordinates :=
  if here ∧ c = none then some ⟨0, 0⟩ else c

/-- The coordinates of a stop that gets a location. -/
def locatedAt (location : Coordinates) (c : Option Coordinates) : Option Coordinates :=
  if here ∧ (c = none ∨ c = some ⟨0, 0⟩) then some location else c

@[simp] theorem knownAt_none : knownAt here none = if here then some ⟨0, 0⟩ else none := by
  simp [knownAt]

@[simp] theorem knownAt_some (c : Coordinates) : knownAt here (some c) = some c := by
  simp [knownAt]

@[simp] theorem locatedAt_none (location : Coordinates) :
    locatedAt here location none = if here then some location else none := by
  simp [locatedAt]

@[simp] theorem locatedAt_some (location c : Coordinates) :
    locatedAt here location (some c) = if here ∧ c = ⟨0, 0⟩ then some location else some c := by
  simp [locatedAt]

theorem knownAt_comm (c : Option Coordinates) :
    knownAt here (knownAt there c) = knownAt there (knownAt here c) := by
  cases c with
  | none => by_cases h : here <;> by_cases h' : there <;> simp [h, h']
  | some c => simp

/-- A stop gets its location from its own entry only, before or after the others
make it known by name. -/
theorem knownAt_locatedAt_comm (known known' : Prop) [Decidable known] [Decidable known']
    (hne : ¬ (here ∧ there)) (location location' : Coordinates) (c : Option Coordinates) :
    knownAt known' (locatedAt there location' (knownAt known (locatedAt here location c))) =
      knownAt known (locatedAt here location (knownAt known' (locatedAt there location' c))) := by
  by_cases h : here
  · have h' : ¬ there := fun h' => hne ⟨h, h'⟩
    cases c with
    | none => by_cases hk' : known' <;> simp [h, h', hk']
    | some c => by_cases hzero : c = ⟨0, 0⟩ <;> simp [h, h', hzero]
  · by_cases h' : there
    · cases c with
      | none => by_cases hk : known <;> simp [h, h', hk]
      | some c => by_cases hzero : c = ⟨0, 0⟩ <;> simp [h, h', hzero]
    · cases c with
      | none => by_cases hk : known <;> by_cases hk' : known' <;> simp [h, h', hk, hk']
      | some c => simp [h, h']

end Coordinates

def empty : View where
  coordinates := fun _ => none
  bus := fun _ => none
  allBuses := ∅
  lenght := fun _ _ => none
  buses := fun _ => ∅

/-- Make stops known by name. -/
def addPlaceholders (v : View) (stops : List Str) : View :=
  { v with
    coordinates := fun n => knownAt (n ∈ stops) (v.coordinates n) }

def addStop (v : View) (name : Str) (location : Coordinates) : View :=
  { v with
    coordinates := fun n => locatedAt (n = name) location (v.coordinates n) }

def addBus (v : View) (name : Str) (stops : List Str) (isLoop : Bool) : View :=
  { v.addPlaceholders stops with
    bus := fun n => if n = name then some (stops, isLoop) else v.bus n
    allBuses := insert (name, stops, isLoop) v.allBuses
    buses := fun s => if s ∈ stops then insert name (v.buses s) else v.buses s }

/-- Record distances from a known stop, each unless there is one already. -/
def addLenghts (v : View) (name : Str) (lenghts : List (Str × UInt32)) : View :=
  { v.addPlaceholders (lenghts.map Prod.fst) with
    lenght := fun a b =>
      if a = name then
        (v.lenght a b).or ((lenghts.find? fun l => l.1 = b).map Prod.snd)
      else v.lenght a b }

theorem addPlaceholders_append (v : View) (stops stops' : List Str) :
    v.addPlaceholders (stops ++ stops') = (v.addPlaceholders stops).addPlaceholders stops' := by
  ext1
  · funext n
    simp only [addPlaceholders, List.mem_append]
    cases v.coordinates n with
    | none => by_cases hmem : n ∈ stops <;> by_cases hmem' : n ∈ stops' <;> simp [hmem, hmem']
    | some c => simp
  all_goals rfl

theorem addLenghts_nil (v : View) (name : Str) : v.addLenghts name [] = v := by
  ext1
  · funext n
    cases h : v.coordinates n <;> simp [addLenghts, addPlaceholders, h]
  · rfl
  · rfl
  · funext a b
    simp [addLenghts]
  · rfl

theorem addLenghts_cons (v : View) (name : Str) (l : Str × UInt32)
    (lenghts : List (Str × UInt32)) :
    v.addLenghts name (l :: lenghts) = (v.addLenghts name [l]).addLenghts name lenghts := by
  ext1
  · show (v.addPlaceholders ([l.1] ++ lenghts.map Prod.fst)).coordinates = _
    rw [addPlaceholders_append]
    rfl
  · rfl
  · rfl
  · funext a b
    by_cases ha : a = name
    · subst ha
      by_cases hb : l.1 = b
      · cases hv : v.lenght a b <;> simp [addLenghts, hb, hv]
      · simp [addLenghts, hb]
    · simp [addLenghts, addPlaceholders, ha]
  · rfl

theorem addBus_comm (v : View) {name name' : Str} (hne : name ≠ name') (stops stops' : List Str)
    (isLoop isLoop' : Bool) :
    (v.addBus name stops isLoop).addBus name' stops' isLoop' =
      (v.addBus name' stops' isLoop').addBus name stops isLoop := by
  ext1
  · show ((v.addPlaceholders stops).addPlaceholders stops').coordinates =
      ((v.addPlaceholders stops').addPlaceholders stops).coordinates
    funext n
    exact knownAt_comm _ _ _
  · funext n
    by_cases hn : n = name
    · subst hn
      simp [addBus, hne]
    · simp [addBus, hn]
  · exact Set.insert_comm _ _ _
  · rfl
  · funext s
    by_cases hs : s ∈ stops <;> by_cases hs' : s ∈ stops' <;>
      simp [addBus, hs, hs', Set.insert_comm]

/-- A stop with its location and its distances. -/
def addStopEntry (v : View) (name : Str) (location : Coordinates)
    (lenghts : List (Str × UInt32)) : View :=
  (v.addStop name location).addLenghts name lenghts

theorem addStopEntry_comm (v : View) {name name' : Str} (hne : name ≠ name')
    (location location' : Coordinates) (lenghts lenghts' : List (Str × UInt32)) :
    (v.addStopEntry name location lenghts).addStopEntry name' location' lenghts' =
      (v.addStopEntry name' location' lenghts').addStopEntry name location lenghts := by
  ext1
  · funext n
    exact knownAt_locatedAt_comm (n = name) (n = name') _ _ (fun h => hne (h.1.symm.trans h.2))
      location location' _
  · rfl
  · rfl
  · funext a b
    by_cases ha : a = name
    · subst ha
      simp [addStopEntry, addLenghts, addPlaceholders, addStop, hne]
    · simp [addStopEntry, addLenghts, addPlaceholders, addStop, ha]
  · rfl

end View

def view (db : TransportCatalogue) : View where
  coordinates := fun n => (db.stops.lookup n).map fun p => (db.stop p).coordinates
  bus := fun n => (db.buses.lookup n).map fun p =>
    (db.stopNames (db.bus p).stops, (db.bus p).isLoopTrip)
  allBuses := {b | ∃ bus ∈ db.allBuses, b = (bus.name, db.stopNames bus.stops, bus.isLoopTrip)}
  lenght := fun a b => (db.stops.lookup a).bind fun p =>
    (db.stops.lookup b).bind fun q => db.lengthBetweenStops.lookup (p, q)
  buses := fun s => {n | n ∈ db.busesOf s}

theorem view_empty : view empty = View.empty := by
  ext1 <;> simp [view, View.empty, empty, busesOf]

section Refinement

variable {db db' : TransportCatalogue}

theorem mem_names_iff_coordinates (h : StoreInv db) (name : Str) :
    name ∈ db.names ↔ (view db).coordinates name ≠ none := by
  rw [← h.mem_stops_iff, UnorderedMap.mem_iff_lookup]
  simp [view, Option.ne_none_iff_exists']

/-- Appended stops leave the view of the buses alone. -/
theorem view_bus_of_extends (h : StoreInv db) (hnames : db.names <+: db'.names)
    (hbuses : db'.buses = db.buses) (hall : db'.allBuses = db.allBuses) :
    (view db').bus = (view db).bus ∧ (view db').allBuses = (view db).allBuses := by
  have hstops : ∀ bus ∈ db.allBuses, db'.stopNames bus.stops = db.stopNames bus.stops :=
    fun bus hbus => stopNames_of_extends hnames (h.busStops bus hbus)
  constructor
  · funext n
    simp only [view, hbuses]
    cases hp : db.buses.lookup n with
    | none => rfl
    | some p =>
        have hbus : db'.bus p = db.bus p := by simp only [bus, hall]
        rw [Option.map_some, Option.map_some, hbus, hstops _ (h.bus_mem hp).1]
  · ext b
    simp only [view, hall, Set.mem_ofPred_eq]
    refine exists_congr fun bus => and_congr_right fun hbus => ?_
    rw [hstops bus hbus]

theorem lookup_of_extends (h : StoreInv db) (h' : StoreInv db')
    (hnames : db.names <+: db'.names) {n : Str} {p : StopPtr}
    (hp : db.stops.lookup n = some p) : db'.stops.lookup n = some p := by
  have hget := (h.stops n p).mp hp
  obtain ⟨rest, hrest⟩ := hnames
  rw [h'.stops, ← hrest, List.getElem?_append_left (List.getElem?_eq_some_iff.mp hget).1, hget]

theorem view_lenght_of_extends (h : StoreInv db) (h' : StoreInv db')
    (hnames : db.names <+: db'.names)
    (hlengths : db'.lengthBetweenStops = db.lengthBetweenStops) :
    (view db').lenght = (view db).lenght := by
  have hnone : ∀ n p q, db.stops.lookup n = none → db'.stops.lookup n = some p →
      db.lengthBetweenStops.lookup (p, q) = none ∧
        db.lengthBetweenStops.lookup (q, p) = none := by
    intro n p q hn hp
    have hge : ¬ p < db.allStops.length := by
      intro hlt
      have hname := stop_name_of_names ((h'.stops n p).mp hp)
      rw [stop_name_of_extends hnames hlt] at hname
      rw [← hname, h.lookup_stop_name hlt] at hn
      cases hn
    constructor
    · rw [Option.eq_none_iff_forall_ne_some]
      exact fun l hl => hge (h.lengths p q l hl).1
    · rw [Option.eq_none_iff_forall_ne_some]
      exact fun l hl => hge (h.lengths q p l hl).2
  funext a b
  simp only [view, hlengths]
  cases ha : db.stops.lookup a with
  | none =>
      cases ha' : db'.stops.lookup a with
      | none => rfl
      | some p =>
          cases hb' : db'.stops.lookup b with
          | none => simp
          | some q => simp [(hnone a p q ha ha').1]
  | some p =>
      rw [lookup_of_extends h h' hnames ha]
      cases hb : db.stops.lookup b with
      | none =>
          cases hb' : db'.stops.lookup b with
          | none => rfl
          | some q => simp [(hnone b q p hb hb').2]
      | some q => rw [lookup_of_extends h h' hnames hb]

theorem AddsPlaceholders.stop_of_not_mem (h' : StoreInv db') {stops : List Str}
    (hadded : AddsPlaceholders db db' stops) {n : Str} (hn : n ∉ db.names) {p : StopPtr}
    (hp : db'.stops.lookup n = some p) : db'.stop p = placeholder n := by
  have hname := (h'.stops n p).mp hp
  have hnames := hadded.prefix_names
  obtain ⟨added, hall, -⟩ := hadded
  have hge : db.allStops.length ≤ p := by
    by_contra hlt
    rw [not_le] at hlt
    have hold := names_getElem?_of_lt hlt
    rw [← stop_name_of_extends hnames hlt, stop_name_of_names hname] at hold
    exact hn (List.mem_of_getElem? hold)
  obtain ⟨s, hs, hsname⟩ : ∃ s, db'.allStops[p]? = some s ∧ s.name = n := by
    rw [names, List.getElem?_map, Option.map_eq_some_iff] at hname
    exact hname
  rw [stop_of_getElem? hs]
  rw [hall, List.getElem?_append_right hge, List.getElem?_map, Option.map_eq_some_iff] at hs
  obtain ⟨a, -, rfl⟩ := hs
  rw [← hsname]
  rfl

theorem view_coordinates_of_addsPlaceholders (h : StoreInv db) (h' : StoreInv db')
    {stops : List Str} (hadded : AddsPlaceholders db db' stops) :
    (view db').coordinates = ((view db).addPlaceholders stops).coordinates := by
  funext n
  cases hn : db.stops.lookup n with
  | some p =>
      have hp := (h.stops n p).mp hn
      have hlt : p < db.allStops.length := by simpa using (List.getElem?_eq_some_iff.mp hp).1
      have hn' := lookup_of_extends h h' hadded.prefix_names hn
      simp [view, View.addPlaceholders, hn, hn', hadded.stop_coordinates hlt]
  | none =>
      have hnot : n ∉ db.names := by
        rw [← h.mem_stops_iff]
        exact UnorderedMap.lookup_eq_none.mp hn
      by_cases hmem : n ∈ stops
      · obtain ⟨p, hp, -, -⟩ := h'.lookup_of_mem ((hadded.mem_names_iff n).mpr (Or.inr hmem))
        have hplace := hadded.stop_of_not_mem h' hnot hp
        simp [view, View.addPlaceholders, hn, hp, hmem, hplace, placeholder]
      · have hn' : db'.stops.lookup n = none := by
          rw [UnorderedMap.lookup_eq_none, h'.mem_stops_iff, hadded.mem_names_iff]
          exact not_or.mpr ⟨hnot, hmem⟩
        simp [view, View.addPlaceholders, hn, hn', hmem]

theorem StoreInv.lt_of_lookup (h : StoreInv db) {n : Str} {p : StopPtr}
    (hp : db.stops.lookup n = some p) : p < db.allStops.length := by
  simpa using (List.getElem?_eq_some_iff.mp ((h.stops n p).mp hp)).1

theorem StoreInv.eq_iff_of_lookup (h : StoreInv db) {a b : Str} {i j : StopPtr}
    (ha : db.stops.lookup a = some i) (hb : db.stops.lookup b = some j) : i = j ↔ a = b := by
  constructor
  · rintro rfl
    exact Option.some.inj (((h.stops a i).mp ha).symm.trans ((h.stops b i).mp hb))
  · rintro rfl
    exact Option.some.inj (ha.symm.trans hb)

theorem stop_set {p : StopPtr} {s : Stop} (hset : db'.allStops = db.allStops.set p s)
    (hp : p < db.allStops.length) : db'.stop p = s := by
  apply stop_of_getElem?
  rw [hset, List.getElem?_set_self hp]

theorem stop_set_of_ne {p q : StopPtr} {s : Stop} (hset : db'.allStops = db.allStops.set p s)
    (hq : q ≠ p) : db'.stop q = db.stop q := by
  rw [stop, stop, hset, List.getD_eq_getElem?_getD, List.getD_eq_getElem?_getD,
    List.getElem?_set_ne hq.symm]

theorem view_addStop (h : StoreInv db) (name : Str) (location : Coordinates) :
    view (db.addStop name location) = (view db).addStop name location := by
  have h' : StoreInv (db.addStop name location) := addStop_storeInv location h
  have hnames : db.names <+: (db.addStop name location).names := prefix_addStop_names location h
  obtain ⟨hbus, hall⟩ := view_bus_of_extends h hnames (by simp) (by simp)
  ext1
  · funext n
    show ((db.addStop name location).stops.lookup n).map
      (fun p => ((db.addStop name location).stop p).coordinates) = _
    by_cases hmem : name ∈ db.names
    · obtain ⟨p, hp, hstops, hset⟩ := addStop_of_mem location h hmem
      rw [hstops]
      cases hq : db.stops.lookup n with
      | none =>
          have hn : n ≠ name := by
            rintro rfl
            rw [hp] at hq
            cases hq
          simp [view, View.addStop, hq, hn]
      | some q =>
          have hlt := h.lt_of_lookup hq
          by_cases hn : n = name
          · subst hn
            cases hp.symm.trans hq
            by_cases hzero : (db.stop p).coordinates = ⟨0, 0⟩ <;>
              simp [view, View.addStop, hp, stop_set hset hlt, hzero]
          · have hpq : q ≠ p := fun heq => hn ((h.eq_iff_of_lookup hq hp).mp heq)
            simp [view, View.addStop, hq, hn, stop_set_of_ne hset hpq]
    · obtain ⟨hstops, happend⟩ := addStop_of_not_mem location h hmem
      have hnone : db.stops.lookup name = none := by
        rw [UnorderedMap.lookup_eq_none, h.mem_stops_iff]
        exact hmem
      rw [hstops, UnorderedMap.lookup_assign]
      by_cases hn : n = name
      · subst hn
        simp [view, View.addStop, hnone, stop, happend]
      · rw [if_neg hn]
        cases hq : db.stops.lookup n with
        | none => simp [view, View.addStop, hq, hn]
        | some q =>
            have hlt := h.lt_of_lookup hq
            have hstop : (db.addStop name location).stop q = db.stop q := by
              rw [stop, stop, happend, List.getD_append _ _ _ _ hlt]
            simp [view, View.addStop, hq, hn, hstop]
  · exact hbus
  · exact hall
  · exact view_lenght_of_extends h h' hnames (by simp)
  · funext s
    simp [view, View.addStop]

theorem BusAdded.view_eq (h : StoreInv db) {name : Str} {stops : List Str} {isLoop : Bool}
    (h' : BusAdded db name stops isLoop db') :
    view db' = (view db).addBus name stops isLoop := by
  have hnames := h'.added.prefix_names
  obtain ⟨ptrs, hall, hptrs⟩ := h'.allBuses
  have hstops : ∀ bus ∈ db.allBuses, db'.stopNames bus.stops = db.stopNames bus.stops :=
    fun bus hbus => stopNames_of_extends hnames (h.busStops bus hbus)
  ext1
  · exact view_coordinates_of_addsPlaceholders h h'.inv h'.added
  · funext n
    simp only [view, View.addBus, h'.buses]
    by_cases hn : n = name
    · have hbus : db'.bus db.allBuses.length = ⟨name, ptrs, isLoop⟩ :=
        bus_of_getElem? (by rw [hall, getElem?_append_singleton, if_pos rfl])
      simp [hn, hbus, hptrs]
    · rw [if_neg hn, if_neg hn]
      cases hp : db.buses.lookup n with
      | none => rfl
      | some p =>
          obtain ⟨bus, hbus, -⟩ := h.buses n p hp
          have hlt := (List.getElem?_eq_some_iff.mp hbus).1
          have hbus' : db'.bus p = db.bus p := by
            rw [bus_of_getElem? hbus]
            exact bus_of_getElem? (by rw [hall, getElem?_append_singleton, if_neg (by omega), hbus])
          rw [Option.map_some, Option.map_some, hbus', hstops _ (h.bus_mem hp).1]
  · ext b
    simp only [view, View.addBus, hall, Set.mem_ofPred_eq, Set.mem_insert_iff, List.mem_append,
      List.mem_singleton, or_and_right, exists_or, exists_eq_left, hptrs]
    rw [or_comm]
    refine or_congr_right (exists_congr fun bus => and_congr_right fun hbus => ?_)
    rw [hstops bus hbus]
  · exact view_lenght_of_extends h h'.inv hnames h'.lengths
  · funext s
    ext n
    simp only [view, View.addBus, h'.index, Set.mem_ofPred_eq]
    by_cases hs : s ∈ stops
    · by_cases hname : name ∈ db.busesOf s
      · simp only [hs, hname, not_true_eq_false, and_false, if_false, if_true, Set.mem_insert_iff,
          Set.mem_ofPred_eq]
        refine ⟨Or.inr, fun hn => hn.elim (fun heq => heq ▸ hname) id⟩
      · simp [hs, hname, or_comm]
    · simp [hs]

theorem LenghtAdded.view_eq (h : StoreInv db) {pairStops : Str × Str} {lenght : UInt32}
    (h' : LenghtAdded db pairStops lenght db') :
    view db' = (view db).addLenghts pairStops.1 [(pairStops.2, lenght)] := by
  have hnames := h'.added.prefix_names
  obtain ⟨hbus, hall⟩ := view_bus_of_extends h hnames h'.buses h'.allBuses
  obtain ⟨p, q, hp, hq, hlengths⟩ := h'.lengths
  -- the catalogue with its new stop, before the distance is stored
  have hstored : StoreInv { db' with lengthBetweenStops := db.lengthBetweenStops } :=
    ⟨h'.inv.stops, h'.inv.buses, h'.inv.busNames, h'.inv.busStops, fun i j l hl =>
      ⟨(h.lengths i j l hl).1.trans_le (length_le_of_extends hnames),
        (h.lengths i j l hl).2.trans_le (length_le_of_extends hnames)⟩⟩
  have hold : (view { db' with lengthBetweenStops := db.lengthBetweenStops }).lenght =
      (view db).lenght := view_lenght_of_extends h hstored hnames rfl
  ext1
  · exact view_coordinates_of_addsPlaceholders h h'.inv h'.added
  · exact hbus
  · exact hall
  · funext a b
    simp only [View.addLenghts, ← hold]
    simp only [view, hlengths, UnorderedMap.lookup_emplace, Prod.mk.injEq]
    cases ha : db'.stops.lookup a with
    | none =>
        have hne : a ≠ pairStops.1 := by
          rintro rfl
          cases ha.symm.trans hp
        simp [hne]
    | some i =>
        cases hb : db'.stops.lookup b with
        | none =>
            have hne : b ≠ pairStops.2 := by
              rintro rfl
              cases hb.symm.trans hq
            simp [hne.symm]
        | some j =>
            have hi : i = p ↔ a = pairStops.1 := h'.inv.eq_iff_of_lookup ha hp
            have hj : j = q ↔ pairStops.2 = b := eq_comm.trans (h'.inv.eq_iff_of_lookup hq hb)
            simp only [Option.bind_some, hi, hj]
            by_cases ha' : a = pairStops.1
            · by_cases hb' : pairStops.2 = b
              · cases hi.mpr ha'
                cases hj.mpr hb'
                cases db.lengthBetweenStops.lookup (p, q) <;> simp [ha', hb']
              · simp [ha', hb']
            · simp [ha']
  · funext s
    ext n
    simp [view, View.addLenghts, View.addPlaceholders, h'.index]

def View.step (v : View) : Call → View
  | .addBus name stops isLoop => v.addBus name stops isLoop
  | .addStop name location => v.addStop name location
  | .addLenghtBetweenStops pairStops lenght =>
      if v.coordinates pairStops.1 = none then v
      else v.addLenghts pairStops.1 [(pairStops.2, lenght)]

theorem view_step (h : StoreInv db) (c : Call) : view (db.step c) = (view db).step c := by
  cases c with
  | addBus name stops isLoop =>
      obtain ⟨db', heq, hadded⟩ := addBus_spec h name stops isLoop
      simpa only [step, call, heq, View.step] using hadded.view_eq h
  | addStop name location => exact view_addStop h name location
  | addLenghtBetweenStops pairStops lenght =>
      have hspec := addLenghtBetweenStops_spec h pairStops lenght
      rw [View.step]
      split at hspec
      · rename_i hmem
        obtain ⟨db', heq, hadded⟩ := hspec
        rw [if_neg ((mem_names_iff_coordinates h _).mp hmem)]
        simpa only [step, call, heq] using hadded.view_eq h
      · rename_i hmem
        rw [if_pos (not_not.mp (mt (mem_names_iff_coordinates h _).mpr hmem))]
        simp only [step, call, hspec]

/-- The catalogue refines its view along every sequence of calls. -/
theorem view_foldl (h : Inv db) (calls : List Call) :
    view (calls.foldl step db) = calls.foldl View.step (view db) := by
  induction calls generalizing db with
  | nil => rfl
  | cons c calls ih =>
      rw [List.foldl_cons, List.foldl_cons, ih (step_inv h c), view_step h.toStoreInv]

end Refinement

end TransportSystem.TransportCatalogue
