import TransportSystem.CatalogueAnswers
import TransportSystem.RouteGraph

/-!
What a catalogue holds after any sequence of calls, in terms of the calls: the
first location of a stop and the first length between two stops count.
-/

namespace TransportSystem.TransportCatalogue

open Library.UniqueKeys

/-- The locations that calls of `AddStop` give for a stop. The other calls pass
`(0, 0)` for the stops that they add. -/
def locations (name : Str) : List Call → List Coordinates
  | [] => []
  | .addStop name' location :: calls =>
      if name' = name then location :: locations name calls else locations name calls
  | _ :: calls => locations name calls

/-- The first location other than `(0, 0)`. -/
def firstLocation (locations : List Coordinates) : Coordinates :=
  (locations.find? (· ≠ ⟨0, 0⟩)).getD ⟨0, 0⟩

/-- The lengths that calls of `AddLenghtBetweenStops` add, without the calls that
throw. -/
def addedLenghts (db : TransportCatalogue) : List Call → List ((Str × Str) × UInt32)
  | [] => []
  | .addLenghtBetweenStops pairStops lenght :: calls =>
      match db.addLenghtBetweenStops pairStops lenght with
      | .ok db' => (pairStops, lenght) :: addedLenghts db' calls
      | .error _ => addedLenghts db calls
  | c :: calls => addedLenghts (db.step c) calls

/-- The first length added for a pair of stops. -/
def firstLenght (lenghts : List ((Str × Str) × UInt32)) (pairStops : Str × Str) :
    Option UInt32 :=
  (lenghts.find? fun l => l.1 = pairStops).map Prod.snd

@[simp] theorem firstLenght_nil (pairStops : Str × Str) : firstLenght [] pairStops = none := rfl

theorem firstLenght_cons (pair pairStops : Str × Str) (lenght : UInt32)
    (lenghts : List ((Str × Str) × UInt32)) :
    firstLenght ((pair, lenght) :: lenghts) pairStops =
      if pair = pairStops then some lenght else firstLenght lenghts pairStops := by
  by_cases h : pair = pairStops <;> simp [firstLenght, h]

/-- A stop known by name only is as good as an unknown one. -/
theorem firstLocation_zero (locations : List Coordinates) :
    firstLocation (⟨0, 0⟩ :: locations) = firstLocation locations := by
  simp [firstLocation]

theorem firstLocation_of_ne {location : Coordinates} (h : location ≠ ⟨0, 0⟩)
    (locations : List Coordinates) : firstLocation (location :: locations) = location := by
  simp [firstLocation, h]

theorem firstLocation_singleton (location : Coordinates) : firstLocation [location] = location := by
  by_cases h : location = ⟨0, 0⟩
  · simp [h, firstLocation]
  · exact firstLocation_of_ne h []

namespace View

theorem firstLocation_knownAt (known : Prop) [Decidable known] (c : Option Coordinates)
    (locations : List Coordinates) :
    firstLocation ((knownAt known c).toList ++ locations) =
      firstLocation (c.toList ++ locations) := by
  cases c with
  | none =>
      by_cases h : known
      · simpa [h] using firstLocation_zero locations
      · simp [h]
  | some c => simp

theorem firstLocation_locatedAt (location : Coordinates) (c : Option Coordinates)
    (locations : List Coordinates) :
    firstLocation ((locatedAt True location c).toList ++ locations) =
      firstLocation (c.toList ++ location :: locations) := by
  cases c with
  | none => simp
  | some c =>
      by_cases hzero : c = ⟨0, 0⟩
      · simpa [hzero] using (firstLocation_zero (location :: locations)).symm
      · simp [hzero, firstLocation_of_ne]

/-- What a view knows of a stop after a call, together with the locations still to
come. -/
theorem firstLocation_step (v : View) (c : Call) (calls : List Call) (name : Str) :
    firstLocation (((v.step c).coordinates name).toList ++ locations name calls) =
      firstLocation ((v.coordinates name).toList ++ locations name (c :: calls)) := by
  cases c with
  | addBus busName stops isLoop => exact firstLocation_knownAt _ _ _
  | addStop stopName location =>
      by_cases hname : stopName = name
      · subst hname
        simpa [step, addStop, locations] using firstLocation_locatedAt location _ _
      · have hne : name ≠ stopName := fun h => hname h.symm
        simp [step, addStop, locations, locatedAt, hname, hne]
  | addLenghtBetweenStops pairStops lenght =>
      rw [step]
      split
      · rfl
      · exact firstLocation_knownAt _ _ _

end View

theorem firstLocation_foldl (calls : List Call) (v : View) (name : Str) :
    firstLocation ((calls.foldl View.step v).coordinates name).toList =
      firstLocation ((v.coordinates name).toList ++ locations name calls) := by
  induction calls generalizing v with
  | nil => simp [locations]
  | cons c calls ih => rw [List.foldl_cons, ih, View.firstLocation_step]

theorem view_lenght_foldl (calls : List Call) {db : TransportCatalogue} (h : Inv db) (a b : Str) :
    (view (calls.foldl step db)).lenght a b =
      ((view db).lenght a b).or (firstLenght (addedLenghts db calls) (a, b)) := by
  induction calls generalizing db with
  | nil => simp [addedLenghts]
  | cons c calls ih =>
      rw [List.foldl_cons, ih (step_inv h c), view_step h.toStoreInv]
      cases c with
      | addBus name stops isLoop => rfl
      | addStop name location => rfl
      | addLenghtBetweenStops pairStops lenght =>
          have hspec := addLenghtBetweenStops_spec h.toStoreInv pairStops lenght
          rw [View.step, addedLenghts]
          split at hspec
          · rename_i hmem
            obtain ⟨db', heq, hadded⟩ := hspec
            have hstep : db.step (.addLenghtBetweenStops pairStops lenght) = db' := by
              simp only [step, call, heq]
            rw [if_neg ((mem_names_iff_coordinates h.toStoreInv _).mp hmem), heq, hstep]
            simp only [firstLenght_cons, View.addLenghts, Prod.ext_iff]
            by_cases ha : pairStops.1 = a
            · by_cases hb : pairStops.2 = b
              · cases (view db).lenght a b <;> simp [ha, hb]
              · simp [ha, hb]
            · have ha' : a ≠ pairStops.1 := fun h => ha h.symm
              simp [ha, ha']
          · rename_i hmem
            have hstep : db.step (.addLenghtBetweenStops pairStops lenght) = db := by
              simp only [step, call, hspec]
            rw [if_pos (not_not.mp (mt (mem_names_iff_coordinates h.toStoreInv _).mpr hmem)), hspec,
              hstep]

section Vertices

open TransportRouter (GraphState Numbered Outcome allTrips createGraph createVertex
  createVertices_spec createGraph_spec initialState initialState_holds)

variable {W : Type}

/-- Each of the stops has two vertices of its own, and all are below twice the
number of stops. -/
structure OwnVertices (names : List Str) (stopVertexs : UnorderedMap Str StopVertices) :
    Prop where
  mem_iff : ∀ name, name ∈ stopVertexs ↔ name ∈ names
  lt : ∀ name vertices, stopVertexs.lookup name = some vertices →
    vertices.inVertex < 2 * names.length ∧ vertices.outVertex < 2 * names.length
  inVertex_ne_outVertex : ∀ name vertices name' vertices',
    stopVertexs.lookup name = some vertices → stopVertexs.lookup name' = some vertices' →
      vertices.inVertex ≠ vertices'.outVertex
  injective : ∀ name vertices name' vertices',
    stopVertexs.lookup name = some vertices → stopVertexs.lookup name' = some vertices' →
      vertices.inVertex = vertices'.inVertex ∨ vertices.outVertex = vertices'.outVertex →
        name = name'

theorem ownVertices_of_numbered {names : List Str} {s : GraphState W} (h : Numbered names s) :
    OwnVertices names s.stopVertexs where
  mem_iff name := by
    rw [UnorderedMap.mem_iff_lookup, List.mem_iff_getElem?]
    constructor
    · rintro ⟨vertices, hlookup⟩
      obtain ⟨k, hk, -⟩ := (h.vertexs name vertices).mp hlookup
      exact ⟨k, hk⟩
    · rintro ⟨k, hk⟩
      exact ⟨_, (h.vertexs name _).mpr ⟨k, hk, rfl⟩⟩
  lt name vertices hlookup := by
    obtain ⟨k, hk, rfl⟩ := (h.vertexs name vertices).mp hlookup
    have hlt := (List.getElem?_eq_some_iff.mp hk).1
    exact ⟨Nat.lt_of_succ_lt (TransportRouter.vertex_lt rfl hlt), TransportRouter.vertex_lt rfl hlt⟩
  inVertex_ne_outVertex name vertices name' vertices' hlookup hlookup' := by
    obtain ⟨k, -, rfl⟩ := (h.vertexs name vertices).mp hlookup
    obtain ⟨k', -, rfl⟩ := (h.vertexs name' vertices').mp hlookup'
    exact TransportRouter.inVertex_ne_outVertex k k'
  injective name vertices name' vertices' hlookup hlookup' hsame := by
    obtain ⟨k, hk, rfl⟩ := (h.vertexs name vertices).mp hlookup
    obtain ⟨k', hk', rfl⟩ := (h.vertexs name' vertices').mp hlookup'
    obtain rfl : k = k' := hsame.elim TransportRouter.inVertex_injective
      TransportRouter.outVertex_injective
    exact Option.some.inj (hk.symm.trans hk')

/-- `CreateGraph` gives the stops their vertices and can then only miss a road. -/
theorem createGraph_ownVertices [NatCast W] [Mul W] [Div W] [Zero W] [Add W]
    (rs : RoutingSettings) {db : TransportCatalogue} (h : StoreInv db) :
    (∃ s : GraphState W,
        db.allStops.foldlM (fun s stop => createVertex rs stop s) (initialState db) = .ok s ∧
          OwnVertices db.names s.stopVertexs) ∧
      ((∃ s : GraphState W, createGraph rs db (initialState db) = .ok s ∧
          OwnVertices db.names s.stopVertexs) ∨
        (createGraph rs db (initialState db) : Except Failure (GraphState W)) =
          .error (.logicError "Not found Lenght between this stops")) := by
  constructor
  · obtain ⟨s, heq, -, hnames⟩ := createVertices_spec (W := W) rs h rfl [] db.allStops rfl rfl
      (initialState_holds db) ⟨by simp [initialState], rfl⟩
    exact ⟨s, heq, ownVertices_of_numbered hnames⟩
  · rcases createGraph_spec (W := W) rs h with ⟨-, s, heq, -, hnames⟩ | ⟨-, heq⟩
    · exact Or.inl ⟨s, heq, ownVertices_of_numbered hnames⟩
    · exact Or.inr heq

end Vertices

/-- What every catalogue stores of the calls that led to it, and the vertices that
`CreateGraph` then gives its stops. -/
theorem run_store (calls : List Call) :
    (run calls).names.Nodup ∧
      (∀ name p, (run calls).stops.lookup name = some p ↔ (run calls).names[p]? = some name) ∧
      (∀ bus ∈ (run calls).allBuses, ∀ p ∈ bus.stops, p < (run calls).allStops.length) ∧
      (∀ p q, (p, q) ∈ (run calls).lengthBetweenStops →
        p < (run calls).allStops.length ∧ q < (run calls).allStops.length) ∧
      (∀ stop ∈ (run calls).allStops,
        stop.coordinates = firstLocation (locations stop.name calls)) ∧
      (∀ p < (run calls).allStops.length, ∀ q < (run calls).allStops.length,
        (run calls).lengthBetweenStops.lookup (p, q) =
          firstLenght (addedLenghts empty calls)
            (((run calls).stop p).name, ((run calls).stop q).name)) ∧
      ∀ (W : Type) [NatCast W] [Mul W] [Div W] [Zero W] [Add W] (rs : RoutingSettings),
        (∃ s : TransportRouter.GraphState W,
            (run calls).allStops.foldlM (fun s stop => TransportRouter.createVertex rs stop s)
                (TransportRouter.initialState (run calls)) = .ok s ∧
              OwnVertices (run calls).names s.stopVertexs) ∧
          ((∃ s : TransportRouter.GraphState W,
              TransportRouter.createGraph rs (run calls)
                  (TransportRouter.initialState (run calls)) = .ok s ∧
                OwnVertices (run calls).names s.stopVertexs) ∨
            (TransportRouter.createGraph rs (run calls)
                (TransportRouter.initialState (run calls)) :
                  Except Failure (TransportRouter.GraphState W)) =
              .error (.logicError "Not found Lenght between this stops")) := by
  have h := (run_inv calls).toStoreInv
  refine ⟨h.names_nodup, h.stops, h.busStops, ?_, ?_, ?_,
    fun W _ _ _ _ _ rs => createGraph_ownVertices rs h⟩
  · intro p q hmem
    obtain ⟨lenght, hlenght⟩ := UnorderedMap.mem_iff_lookup.mp hmem
    exact h.lengths p q lenght hlenght
  · intro stop hstop
    obtain ⟨p, hp⟩ := List.mem_iff_getElem?.mp hstop
    have hlt := (List.getElem?_eq_some_iff.mp hp).1
    have hview : (view (run calls)).coordinates stop.name = some stop.coordinates := by
      rw [← stop_of_getElem? hp]
      exact view_coordinates_names h hlt
    have hrun := firstLocation_foldl calls (view empty) stop.name
    rw [← view_foldl empty_inv, ← run] at hrun
    rw [← firstLocation_singleton stop.coordinates]
    simpa [hview, view_empty, View.empty] using hrun
  · intro p hp q hq
    have hrun := view_lenght_foldl calls empty_inv ((run calls).stop p).name
      ((run calls).stop q).name
    rw [view_empty, ← run] at hrun
    simpa [view, h.lookup_stop_name hp, h.lookup_stop_name hq, View.empty] using hrun

end TransportSystem.TransportCatalogue
