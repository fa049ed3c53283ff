import Mathlib.Tactic.Linarith
import TransportSystem.BaseRequests
import TransportSystem.RouteLength
import TransportSystem.StatRequests

namespace TransportSystem

open IStream
open Json
open JsonReader (baseRequests baseRequests_eq_ok_iff responseRequestBus)
open TransportCatalogue
open TransportRouter (Measured make make_made)

/-- What a `double` can hold. -/
inductive DoubleValue
  | finite (value : Double)
  | infinite (negative : Bool)
  | nan

namespace DoubleValue

/-- `dividend / divisor`, where a zero divisor has no sign. -/
def divide (dividend divisor : Double) : DoubleValue :=
  if divisor ≠ 0 then .finite (dividend / divisor)
  else if dividend = 0 then .nan
  else .infinite (dividend < 0)

/-- The texts that `out << value` can write. -/
inductive Writes : DoubleValue → Str → Prop
  | finite (value : Double) : Writes (.finite value) (printDouble value)
  | infinite (negative : Bool) :
      Writes (.infinite negative) (if negative then "-inf".toList else "inf".toList)
  | nan : Writes .nan "nan".toList
  | negativeNan : Writes .nan "-nan".toList

theorem divide_of_ne_zero {dividend divisor : Double} (h : divisor ≠ 0) :
    divide dividend divisor = .finite (dividend / divisor) := if_pos h

/-- What is written for a zero divisor cannot be loaded. -/
theorem load_of_zero {dividend : Double} {text : Str} (h : Writes (divide dividend 0) text) :
    ∀ loaded, load stod (ofText text) ≠ .ok loaded := by
  have herror (text : Str) (h : (load stod (ofText text)).isOk = false) :
      ∀ loaded, load stod (ofText text) ≠ .ok loaded := by
    intro loaded hload
    rw [hload] at h
    cases h
  have hdivide : divide dividend 0 = if dividend = 0 then .nan else .infinite (dividend < 0) :=
    if_neg (not_not.mpr rfl)
  rw [hdivide] at h
  split at h
  · cases h with
    | nan => exact herror _ (by decide +kernel)
    | negativeNan => exact herror _ (by decide +kernel)
  · cases h with
    | infinite =>
        split
        · exact herror _ (by decide +kernel)
        · exact herror _ (by decide +kernel)

end DoubleValue

/-- The catalogue of base requests from which `make_base` can make a router. -/
def MakesBase (db : TransportCatalogue) : Prop :=
  ∃ (requests : List (Node Double)) (rs : RoutingSettings) (tr : TransportRouter Double),
    baseRequests requests = .ok db ∧ make rs db = .ok tr

/-- `ComputeDistance` without rounding: no distance is negative, and only that between equal
coordinates is zero. -/
def Libm.ExactOn (m : Libm) (db : TransportCatalogue) : Prop :=
  ∀ s ∈ db.allStops, ∀ s' ∈ db.allStops,
    0 ≤ computeDistance m s.coordinates s'.coordinates ∧
      (computeDistance m s.coordinates s'.coordinates = 0 ↔ s.coordinates = s'.coordinates)

/-- A Bus request is answered. The curvature in the answer is a number, and what is written for
it is the text of one, which `Load` reads if it is in the range of `double`. -/
structure HasCurvature (m : Libm) (db : TransportCatalogue) (bus : Bus) : Prop where
  dividend : ∃ length, db.summationLenght bus = .ok length
  divisor : ∃ line, db.summationLineLenght m bus = .ok line ∧ line ≠ 0
  info : ∀ name, db.findBus name = .ok bus → ∃ info, db.getInfoBus m name = .ok info
  finite : ∀ name info line, db.findBus name = .ok bus → db.getInfoBus m name = .ok info →
    db.summationLineLenght m bus = .ok line →
      DoubleValue.divide info.routeLength line = .finite info.curvature
  response : ∀ name info id, db.findBus name = .ok bus → db.getInfoBus m name = .ok info →
    ∃ dict : Dict Double, responseRequestBus info id = .ok (.dict dict) ∧
      dict.find "curvature".toList = some (.double info.curvature)
  text : ∀ name info line text, db.findBus name = .ok bus → db.getInfoBus m name = .ok info →
    db.summationLineLenght m bus = .ok line →
      (DoubleValue.divide info.routeLength line).Writes text →
        (∃ n : Number, n.text = text) ∧
          ∀ nearest, toDouble (rounded info.curvature) = some nearest →
            ∃ document input read, load stod (ofText text) = .ok (document, input) ∧
              document.root.asDouble = .ok read

/-- The bus gets somewhere. -/
def Moves (db : TransportCatalogue) (bus : Bus) : Prop :=
  ∃ p ∈ bus.stops, ∃ q ∈ bus.stops, (db.stop p).coordinates ≠ (db.stop q).coordinates

/-- Every stop that the bus visits twice in a row has a distance to itself. -/
def StaysRecorded (db : TransportCatalogue) (bus : Bus) : Prop :=
  ∀ k p, bus.stops[k]? = some p → bus.stops[k + 1]? = some p → (p, p) ∈ db.lengthBetweenStops

section Line

variable {m : Libm} {db : TransportCatalogue}

theorem stop_mem {p : StopPtr} (h : p < db.allStops.length) : db.stop p ∈ db.allStops := by
  rw [stop, List.getD_eq_getElem _ _ h]
  exact List.getElem_mem h

/-- The straight lines along a trip add up to nothing exactly if it never leaves its first
place. -/
theorem transformReduce_line (hm : m.ExactOn db) (first : StopPtr) (rest : List StopPtr)
    (hlt : ∀ p ∈ first :: rest, p < db.allStops.length) (init : Double) :
    ∃ sum, transformReduce (· + ·)
        (fun lhs rhs =>
          pure (computeDistance m (db.stop lhs).coordinates (db.stop rhs).coordinates))
        init (first :: rest) = .ok sum ∧ init ≤ sum ∧
      (sum = init ↔ ∀ p ∈ rest, (db.stop p).coordinates = (db.stop first).coordinates) := by
  induction rest generalizing first init with
  | nil => exact ⟨init, rfl, le_rfl, by simp⟩
  | cons next rest ih =>
      rw [transformReduce_cons_cons, pure_bind]
      obtain ⟨hnonneg, hzero⟩ :=
        hm _ (stop_mem (hlt next (by simp))) _ (stop_mem (hlt first (by simp)))
      generalize computeDistance m (db.stop next).coordinates (db.stop first).coordinates = distance
        at hnonneg hzero ⊢
      obtain ⟨sum, hsum, hle, heq⟩ := ih next (fun p hp => hlt p (List.mem_cons_of_mem _ hp))
        (init + distance)
      refine ⟨sum, hsum, by linarith, ?_⟩
      rw [List.forall_mem_cons, ← hzero]
      constructor
      · intro hsame
        have hdistance : distance = 0 := by linarith
        have hnext := hzero.mp hdistance
        refine ⟨hdistance, fun p hp => ?_⟩
        rw [← hnext]
        exact heq.mp (by linarith) p hp
      · rintro ⟨hdistance, hrest⟩
        have hnext := hzero.mp hdistance
        rw [← hnext] at hrest
        have hsame := heq.mpr hrest
        linarith

/-- The divisor of the curvature is zero exactly if the bus does not move. -/
theorem summationLineLenght_eq_zero_iff (hm : m.ExactOn db) {bus : Bus}
    (hlt : ∀ p ∈ bus.stops, p < db.allStops.length) (hne : bus.stops ≠ []) :
    ∃ line, db.summationLineLenght m bus = .ok line ∧ (line = 0 ↔ ¬ Moves db bus) := by
  obtain ⟨first, rest, hstops⟩ := List.exists_cons_of_ne_nil hne
  obtain ⟨sum, hsum, -, hzero⟩ := transformReduce_line hm first rest (hstops ▸ hlt) 0
  have hmoves : (∀ p ∈ rest, (db.stop p).coordinates = (db.stop first).coordinates) ↔
      ¬ Moves db bus := by
    simp only [Moves, not_exists, not_and, not_not, hstops]
    constructor
    · intro h p hp q hq
      have hall : ∀ p ∈ first :: rest, (db.stop p).coordinates = (db.stop first).coordinates :=
        List.forall_mem_cons.mpr ⟨rfl, h⟩
      exact (hall p hp).trans (hall q hq).symm
    · intro h p hp
      exact h p (List.mem_cons_of_mem _ hp) first List.mem_cons_self
  rw [← hmoves, ← hzero]
  unfold summationLineLenght
  dsimp only
  rw [hstops, hsum]
  cases bus.isLoopTrip with
  | true => exact ⟨sum, rfl, Iff.rfl⟩
  | false => exact ⟨2 * sum, rfl, by simp⟩

theorem getInfoBus_eq (m : Libm) {name : Str} {bus : Bus} (hfind : db.findBus name = .ok bus)
    {info : BusInfo} (hinfo : db.getInfoBus m name = .ok info) {line : Double}
    (hline : db.summationLineLenght m bus = .ok line) :
    info.exists_ = true ∧ info.curvature = info.routeLength / line := by
  simp only [getInfoBus_of_findBus m hfind, hline, ok_bind, bind_eq_ok_iff] at hinfo
  obtain ⟨length, -, hpure⟩ := hinfo
  cases hpure
  exact ⟨rfl, rfl⟩

theorem exists_responseRequestBus_curvature {info : BusInfo} (h : info.exists_ = true)
    (id : Int32) : ∃ dict : Dict Double, responseRequestBus info id = .ok (.dict dict) ∧
      dict.find "curvature".toList = some (.double info.curvature) := by
  rw [responseRequestBus, if_pos h]
  exact ⟨_, rfl, rfl⟩

theorem hasCurvature_of_line {bus : Bus} {length line : Double} (hstops : bus.stops ≠ [])
    (hlength : db.summationLenght bus = .ok length)
    (hline : db.summationLineLenght m bus = .ok line) (hne : line ≠ 0) : HasCurvature m db bus := by
  have hdivide (name : Str) (info : BusInfo) (hfind : db.findBus name = .ok bus)
      (hinfo : db.getInfoBus m name = .ok info) :
      DoubleValue.divide info.routeLength line = .finite info.curvature := by
    rw [DoubleValue.divide_of_ne_zero hne, (getInfoBus_eq m hfind hinfo hline).2]
  constructor
  case dividend => exact ⟨length, hlength⟩
  case divisor => exact ⟨line, hline, hne⟩
  case info =>
    intro name hfind
    obtain ⟨info, hinfo, -⟩ := getInfoBus_of_summationLenght m hfind hstops hlength
    exact ⟨info, hinfo⟩
  case finite =>
    intro name info line' hfind hinfo hline'
    cases hline.symm.trans hline'
    exact hdivide name info hfind hinfo
  case response =>
    intro name info id hfind hinfo
    exact exists_responseRequestBus_curvature (getInfoBus_eq m hfind hinfo hline).1 id
  case text =>
    intro name info line' text hfind hinfo hline' htext
    cases hline.symm.trans hline'
    rw [hdivide name info hfind hinfo] at htext
    cases htext
    obtain ⟨n, hn, -⟩ := exists_number_printDouble info.curvature
    refine ⟨⟨n, hn⟩, fun nearest hnearest => ?_⟩
    obtain ⟨document, input, read, hload, hread, -⟩ := exists_load_printDouble hnearest
    exact ⟨document, input, read, hload, hread⟩

/-- The length of a bus is there exactly if the stops at which it stays have a distance to
themselves. -/
theorem exists_summationLenght_iff (hdb : StoreInv db) {bus : Bus} (hbus : bus ∈ db.allBuses)
    (hmeasured : Measured db bus) (hne : bus.stops ≠ []) :
    (∃ length, db.summationLenght bus = .ok length) ↔ StaysRecorded db bus := by
  rw [StaysRecorded, ← isChain_recorded_iff hdb hbus hmeasured]
  have hlength := summationLenght_spec hdb hbus hne
  split at hlength
  · rename_i hchain
    obtain ⟨total, -, hlength⟩ := hlength
    exact iff_of_true ⟨_, hlength⟩ hchain
  · rename_i hchain
    refine iff_of_false ?_ hchain
    rintro ⟨length, hok⟩
    cases hlength.symm.trans hok

end Line

/-- A Bus request is answered with a curvature that is a number exactly if two stops of the bus
are at different places and it stays only at stops with a distance to themselves. -/
theorem hasCurvature_iff (m : Libm) (db : TransportCatalogue) (hbase : MakesBase db)
    (hm : m.ExactOn db) (bus : Bus) (hbus : bus ∈ db.allBuses) (hne : bus.stops ≠ []) :
    HasCurvature m db bus ↔ Moves db bus ∧ StaysRecorded db bus := by
  obtain ⟨requests, rs, tr, hread, hmake⟩ := hbase
  obtain ⟨-, rfl⟩ := (baseRequests_eq_ok_iff requests db).mp hread
  have hdb := (run_inv (JsonReader.allCalls requests)).toStoreInv
  have hlength := exists_summationLenght_iff hdb hbus ((make_made hdb hmake).measured bus hbus) hne
  obtain ⟨line, hline, hzero⟩ := summationLineLenght_eq_zero_iff hm (hdb.busStops bus hbus) hne
  constructor
  · intro hcurvature
    refine ⟨by_contra fun hmoves => ?_, hlength.mp hcurvature.dividend⟩
    obtain ⟨line', hline', hnonzero⟩ := hcurvature.divisor
    cases hline.symm.trans hline'
    exact hnonzero (hzero.mpr hmoves)
  · rintro ⟨hmoves, hrecorded⟩
    obtain ⟨length, hlength⟩ := hlength.mpr hrecorded
    exact hasCurvature_of_line hne hlength hline fun h => hzero.mp h hmoves

/-- The functions of `<cmath>` on the angles between the places below. -/
def equator : Libm where
  sin x := x
  cos x := if x = 0 then 1 else 999847695156399945 / 1000000000000000000
  acos y := if y = 1 then 0 else 3.1415926535 / 180

theorem exists_makesBase (requests : List (Node Double)) {buses : List Bus} {stops : List Stop}
    (h : (baseRequests requests).toOption.any (fun db =>
      (make ⟨6, 40⟩ db : Except Failure (TransportRouter Double)).isOk = true ∧
        db.allBuses = buses ∧ db.allStops = stops) = true) :
    ∃ db, MakesBase db ∧ db.allBuses = buses ∧ db.allStops = stops := by
  obtain ⟨db, hread, hmake, hbuses, hstops⟩ := exists_ok_of_any h
  obtain ⟨tr, htr⟩ := exists_ok_of_isOk hmake
  exact ⟨db, ⟨requests, ⟨6, 40⟩, tr, hread, htr⟩, hbuses, hstops⟩

def equatorRequests : List (Node Double) :=
  [.dict [("is_roundtrip".toList, .bool false), ("name".toList, .string ['1']),
      ("stops".toList, .array [.string ['A'], .string ['B']]),
      ("type".toList, .string "Bus".toList)],
    .dict [("latitude".toList, .int 0), ("longitude".toList, .int 1),
      ("name".toList, .string ['B']),
      ("road_distances".toList, .dict [(['A'], .int 120000)]),
      ("type".toList, .string "Stop".toList)]]

theorem hasCurvature_equator :
    ∃ db, MakesBase db ∧ HasCurvature equator db ⟨['1'], [0, 1], false⟩ := by
  obtain ⟨db, hbase, hbuses, hstops⟩ : ∃ db, MakesBase db ∧
      db.allBuses = [⟨['1'], [0, 1], false⟩] ∧
        db.allStops = [⟨['A'], ⟨0, 0⟩⟩, ⟨['B'], ⟨0, 1⟩⟩] :=
    exists_makesBase equatorRequests (by decide +kernel)
  refine ⟨db, hbase, (hasCurvature_iff equator db hbase ?_ _ ?_ ?_).mpr ?_⟩
  · rw [Libm.ExactOn, hstops]
    decide +kernel
  · rw [hbuses]
    exact List.mem_singleton_self _
  · decide
  · refine ⟨⟨0, by decide, 1, by decide, ?_⟩, ?_⟩
    · rw [stop, stop, hstops]
      decide
    · rintro (_ | _ | k) p hp hnext
      · cases hp
        cases hnext
      · cases hnext
      · cases hp

def standingRequests : List (Node Double) :=
  [.dict [("is_roundtrip".toList, .bool true), ("name".toList, .string ['1']),
      ("stops".toList, .array [.string ['A']]), ("type".toList, .string "Bus".toList)]]

theorem not_hasCurvature_standing :
    ¬ ∀ (m : Libm) (db : TransportCatalogue), MakesBase db → m.ExactOn db →
      ∀ bus ∈ db.allBuses, bus.stops ≠ [] → HasCurvature m db bus := by
  intro hall
  obtain ⟨db, hbase, hbuses, hstops⟩ : ∃ db, MakesBase db ∧
      db.allBuses = [⟨['1'], [0], true⟩] ∧ db.allStops = [⟨['A'], ⟨0, 0⟩⟩] :=
    exists_makesBase standingRequests (by decide +kernel)
  have hexact : equator.ExactOn db := by
    rw [Libm.ExactOn, hstops]
    decide +kernel
  have hcurvature := hall equator db hbase hexact ⟨['1'], [0], true⟩
    (by rw [hbuses]; exact List.mem_singleton_self _) (by decide)
  obtain ⟨line, hline, hne⟩ := hcurvature.divisor
  cases hline
  exact hne rfl

end TransportSystem
