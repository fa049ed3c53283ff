import TransportSystem.StatAnswers

namespace TransportSystem

open TransportSystem.Graph
open Json
open Library.UniqueKeys
open RequestHandler (renderMap visits)
open TransportCatalogue (StoreInv findBus_eq_ok_iff summationLenght_spec
  getInfoBus_of_summationLenght getInfoBus_of_findBus getInfoBus_of_unknown)

/-- A call that returns or throws. -/
def Safe {A : Type} (outcome : Except Failure A) : Prop :=
  ∀ failure, outcome = .error failure → failure.Thrown

section Safe

variable {A B : Type} {x : Except Failure A} {f : A → Except Failure B}

theorem safe_iff : Safe x ↔ x ≠ .error .undefinedBehaviour ∧ x ≠ .error .diverges := by
  constructor
  · intro h
    exact ⟨fun hx => h _ hx, fun hx => h _ hx⟩
  · rintro ⟨hbounds, hends⟩ failure rfl
    cases failure with
    | undefinedBehaviour => exact hbounds rfl
    | diverges => exact hends rfl
    | _ => exact trivial

theorem safe_ok (a : A) : Safe (.ok a : Except Failure A) := by
  rintro failure ⟨⟩

theorem safe_of_exists (h : ∃ a, x = .ok a) : Safe x := by
  obtain ⟨a, rfl⟩ := h
  exact safe_ok a

theorem safe_bind_iff : Safe (x >>= f) ↔ Safe x ∧ ∀ a, x = .ok a → Safe (f a) := by
  cases x with
  | error failure =>
      have hbind : (.error failure >>= f) = (.error failure : Except Failure B) := rfl
      rw [hbind]
      constructor
      · intro h
        refine ⟨?_, by rintro a ⟨⟩⟩
        rintro failure' ⟨⟩
        exact h failure rfl
      · rintro ⟨h, -⟩ failure' ⟨⟩
        exact h failure rfl
  | ok a =>
      constructor
      · intro h
        refine ⟨safe_ok a, ?_⟩
        rintro a' ⟨⟩
        exact h
      · intro h
        exact h.2 a rfl

end Safe

section Requests

variable {db : TransportCatalogue} (hdb : StoreInv db)

theorem summationLenght_of_nil {bus : Bus} (h : bus.stops = []) :
    db.summationLenght bus = .error .undefinedBehaviour := by
  unfold TransportCatalogue.summationLenght TransportCatalogue.popBack
  rw [h]
  cases bus.isLoopTrip <;> rfl

include hdb in
theorem safe_summationLenght {bus : Bus} (hbus : bus ∈ db.allBuses) (hne : bus.stops ≠ []) :
    Safe (db.summationLenght bus) := by
  have hlength := summationLenght_spec hdb hbus hne
  split at hlength
  · obtain ⟨total, -, hlength⟩ := hlength
    exact safe_of_exists ⟨_, hlength⟩
  · rintro failure hfailure
    cases hlength.symm.trans hfailure
    exact trivial

theorem getInfoBus_of_error (m : Libm) {name : Str} {bus : Bus} {failure : Failure}
    (hfind : db.findBus name = .ok bus) (h : db.summationLenght bus = .error failure) :
    db.getInfoBus m name = .error failure := by
  rw [getInfoBus_of_findBus m hfind, h]
  rfl

include hdb in
/-- A Bus request stays within a bus that has a stop. -/
theorem safe_getInfoBus_iff (m : Libm) (name : Str) :
    Safe (db.getInfoBus m name) ↔ ∀ bus, db.findBus name = .ok bus → bus.stops ≠ [] := by
  constructor
  · intro hsafe bus hfind hnil
    exact hsafe _ (getInfoBus_of_error m hfind (summationLenght_of_nil hnil))
  · intro hstops
    by_cases hname : name ∈ db.buses
    · obtain ⟨p, hp⟩ := UnorderedMap.mem_iff_lookup.mp hname
      have hfind : db.findBus name = .ok (db.bus p) := findBus_eq_ok_iff.mpr ⟨p, hp, rfl⟩
      have hne := hstops _ hfind
      have hsum := safe_summationLenght hdb (hdb.bus_mem hp).1 hne
      cases hlength : db.summationLenght (db.bus p) with
      | ok length =>
          exact safe_of_exists
            ((getInfoBus_of_summationLenght m hfind hne hlength).imp fun _ => And.left)
      | error failure =>
          rw [getInfoBus_of_error m hfind hlength]
          rintro failure' ⟨⟩
          exact hsum failure hlength
    · exact safe_of_exists ⟨_, getInfoBus_of_unknown m hname⟩

theorem visits_ne_nil {it : Iteration Str BusPtr} {name : Str} {p : BusPtr}
    (hp : db.buses.lookup name = some p) (hne : (db.bus p).stops ≠ []) : visits it db ≠ [] := by
  obtain ⟨q, hq⟩ := List.exists_mem_of_ne_nil _ hne
  exact List.ne_nil_of_mem (List.mem_flatMap.mpr
    ⟨⟨name, p⟩, it.mem_order.mpr hp, List.mem_map_of_mem hq⟩)

theorem renderMap_of_no_buses {it : Iteration Str BusPtr} {mr : MapRender}
    (h : ∀ name, name ∉ db.buses) : renderMap it db mr = .ok {} := by
  have hvisits : visits it db = [] := by
    rw [visits, List.flatMap_eq_nil_iff]
    rintro ⟨name, p⟩ he
    exact absurd (UnorderedMap.mem_iff_lookup.mpr ⟨p, it.mem_order.mp he⟩) (h name)
  unfold renderMap
  rw [hvisits]
  rfl

include hdb in
/-- The map of buses that have stops needs colors, unless there are no buses. -/
theorem safe_renderMap_iff {it : Iteration Str BusPtr} {mr : MapRender}
    (hstops : ∀ name bus, db.findBus name = .ok bus → bus.stops ≠ []) :
    Safe (renderMap it db mr) ↔
      ((∃ name, name ∈ db.buses) → mr.settings.colorPalette ≠ []) := by
  constructor
  · rintro hsafe ⟨name, hname⟩ hnil
    obtain ⟨p, hp⟩ := UnorderedMap.mem_iff_lookup.mp hname
    have hne := hstops name _ (findBus_eq_ok_iff.mpr ⟨p, hp, rfl⟩)
    exact hsafe _ (RequestHandler.renderMap_of_nil hnil (visits_ne_nil hp hne))
  · intro hpalette
    by_cases hbuses : ∃ name, name ∈ db.buses
    · exact safe_of_exists (RequestHandler.exists_renderMap hdb (hpalette hbuses))
    · rw [not_exists] at hbuses
      exact safe_of_exists ⟨_, renderMap_of_no_buses hbuses⟩

section Routes

variable {W : Type} [Zero W] [Add W] {tr : TransportRouter W}

omit [Zero W] in
theorem safe_addItems {infoAboutEdge : UnorderedMap EdgeId (ComponentTrip W)} {ids : List EdgeId}
    {result : RouteInfo W} : Safe (TransportRouter.addItems infoAboutEdge ids result) := by
  induction ids generalizing result with
  | nil => exact safe_ok result
  | cons id ids ih =>
      rw [TransportRouter.addItems, safe_bind_iff]
      refine ⟨?_, fun info _ => ih⟩
      intro failure hfailure
      unfold mapAt at hfailure
      split at hfailure
      · cases hfailure
      · cases hfailure
        exact trivial

theorem safe_describe (route : Option (Graph.RouteInfo W)) : Safe (tr.describe route) := by
  cases route with
  | none => exact safe_ok none
  | some routeInfo => exact safe_bind_iff.mpr ⟨safe_addItems, fun result _ => safe_ok _⟩

/-- A Route request stays within the table, and ends, if the way back from every
filled entry between known stops stops within the table. -/
theorem safe_getRouteInfo_iff {origin target : Str} :
    Safe (tr.getRouteInfo origin target) ↔ ∀ originVertices targetVertices,
      tr.stopVertexs.lookup origin = some originVertices →
      tr.stopVertexs.lookup target = some targetVertices →
      tr.router.routesInternalData.get originVertices.inVertex targetVertices.inVertex ≠ none →
        tr.router.Stops originVertices.inVertex targetVertices.inVertex := by
  by_cases hunknown : origin ∉ tr.stopVertexs ∨ target ∉ tr.stopVertexs
  · constructor
    · intro _ originVertices targetVertices horigin htarget
      rcases hunknown with hunknown | hunknown
      · exact absurd (UnorderedMap.mem_iff_lookup.mpr ⟨_, horigin⟩) hunknown
      · exact absurd (UnorderedMap.mem_iff_lookup.mpr ⟨_, htarget⟩) hunknown
    · intro _ failure hfailure
      rcases TransportRouter.getRouteInfo_of_unknown origin target hunknown with h | h
      · cases h.symm.trans hfailure
        exact trivial
      · cases h.symm.trans hfailure
        exact trivial
  · rw [not_or, not_not, not_not] at hunknown
    obtain ⟨originVertices, horigin⟩ := UnorderedMap.mem_iff_lookup.mp hunknown.1
    obtain ⟨targetVertices, htarget⟩ := UnorderedMap.mem_iff_lookup.mp hunknown.2
    rw [TransportRouter.getRouteInfo_of_lookup horigin htarget, safe_bind_iff,
      and_iff_left fun route _ => safe_describe route, safe_iff, Router.buildRoute_safe_iff]
    constructor
    · intro h originVertices' targetVertices' horigin' htarget'
      cases horigin.symm.trans horigin'
      cases htarget.symm.trans htarget'
      exact h
    · intro h
      exact h _ _ horigin htarget

end Routes

open JsonReader

/-- Every request is answered or throws exactly if the buses have stops, the map
has colors, and the routes stay within the table. -/
theorem safe_answer_iff (hdb : StoreInv db) {mr : MapRender} {tr : TransportRouter Double} :
    (∀ (m : Libm) (it : Iteration Str BusPtr) (r : StatRequest),
      Safe (answer m it ⟨db, mr, some tr⟩ r)) ↔
      (∀ name bus, db.findBus name = .ok bus → bus.stops ≠ []) ∧
        ((∃ name, name ∈ db.buses) → mr.settings.colorPalette ≠ []) ∧
        ∀ origin target, Safe (tr.getRouteInfo origin target) := by
  have hbus (m : Libm) (it : Iteration Str BusPtr) (id : Int32) (name : Str) :
      Safe (answer m it ⟨db, mr, some tr⟩ ⟨id, .bus name⟩) ↔ Safe (db.getInfoBus m name) :=
    safe_bind_iff.trans (and_iff_left fun info _ =>
      safe_of_exists ((exists_responseRequestBus info id).imp fun _ => And.left))
  have hmap (m : Libm) (it : Iteration Str BusPtr) (id : Int32) :
      Safe (answer m it ⟨db, mr, some tr⟩ ⟨id, .map⟩) ↔ Safe (renderMap it db mr) :=
    safe_bind_iff.trans (and_iff_left fun map _ => safe_ok _)
  have hroute (m : Libm) (it : Iteration Str BusPtr) (id : Int32) (origin target : Str) :
      Safe (answer m it ⟨db, mr, some tr⟩ ⟨id, .route origin target⟩) ↔
        Safe (tr.getRouteInfo origin target) :=
    safe_bind_iff.trans (and_iff_left fun info hinfo => by
      obtain ⟨response, hresponse, -⟩ :=
        exists_responseRequesRouter ⟨db, mr, some tr⟩ hinfo id
      obtain ⟨info', hinfo', hresponse⟩ := bind_eq_ok_iff.mp hresponse
      cases hinfo.symm.trans hinfo'
      exact safe_of_exists ⟨response, hresponse⟩)
  constructor
  · intro h
    have hstops : ∀ name bus, db.findBus name = .ok bus → bus.stops ≠ [] := fun name =>
      (safe_getInfoBus_iff hdb ⟨id, id, id⟩ name).mp
        ((hbus _ .ofEntries 0 name).mp (h _ _ ⟨0, .bus name⟩))
    refine ⟨hstops, ?_, fun origin target => ?_⟩
    · exact (safe_renderMap_iff hdb hstops).mp
        ((hmap ⟨id, id, id⟩ .ofEntries 0).mp (h _ _ ⟨0, .map⟩))
    · exact (hroute ⟨id, id, id⟩ .ofEntries 0 origin target).mp (h _ _ ⟨0, .route origin target⟩)
  · rintro ⟨hstops, hpalette, hroutes⟩ m it ⟨id, request⟩
    cases request with
    | bus name => exact (hbus m it id name).mpr ((safe_getInfoBus_iff hdb m name).mpr (hstops name))
    | stop name =>
        exact safe_of_exists ((exists_responseRequestStop db name id).imp fun _ => And.left)
    | map => exact (hmap m it id).mpr ((safe_renderMap_iff hdb hstops).mpr hpalette)
    | route origin target => exact (hroute m it id origin target).mpr (hroutes origin target)

end Requests

end TransportSystem
