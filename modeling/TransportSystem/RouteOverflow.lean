import TransportSystem.BaseRequests
import TransportSystem.RouteLength

/-!
The size of the lengths that `SummationLenght` can add up. The accumulator is an
`int`, as the initial value of the sum is, although the lengths are `uint32_t` and
the result is a `double`.
-/

namespace TransportSystem.TransportCatalogue

open Library.UniqueKeys
open JsonReader (baseRequests baseRequests_eq_ok_iff)

/-- The recorded length of the road from one stop to another, that of the opposite
direction if there is no other. -/
def recordedLenght (db : TransportCatalogue) (p q : StopPtr) : Nat :=
  (((db.lengthBetweenStops.lookup (p, q)).or (db.lengthBetweenStops.lookup (q, p))).getD 0).toNat

/-- The sum of the recorded lengths along a sequence of stops. -/
def exactLenght (db : TransportCatalogue) : List StopPtr → Nat
  | p :: q :: rest => recordedLenght db p q + exactLenght db (q :: rest)
  | _ => 0

variable {db : TransportCatalogue}

theorem getLenghtBetweenStops_of_recorded (h : StoreInv db) {p q : StopPtr}
    (hp : p < db.allStops.length) (hq : q < db.allStops.length) (hrec : Recorded db p q) :
    ∃ lenght, db.getLenghtBetweenStops (db.stop p).name (db.stop q).name = .ok lenght ∧
      lenght.toNat = recordedLenght db p q := by
  rw [getLenghtBetweenStops_of_lt h hp hq, recordedLenght]
  rw [Recorded, UnorderedMap.mem_iff_lookup, UnorderedMap.mem_iff_lookup] at hrec
  cases hpq : db.lengthBetweenStops.lookup (p, q) with
  | some lenght => exact ⟨lenght, rfl, rfl⟩
  | none =>
      cases hqp : db.lengthBetweenStops.lookup (q, p) with
      | some lenght => exact ⟨lenght, rfl, rfl⟩
      | none => simp [hpq, hqp] at hrec

theorem lenghtAlong_of_recorded (h : StoreInv db) {stops : List StopPtr}
    (hlt : ∀ p ∈ stops, p < db.allStops.length) (hrec : stops.IsChain (Recorded db)) :
    db.lenghtAlong (db.stopNames stops) = .ok (exactLenght db stops) := by
  induction stops with
  | nil => rfl
  | cons p stops ih =>
      cases stops with
      | nil => rfl
      | cons q stops =>
          obtain ⟨hfirst, hrest⟩ := List.isChain_cons_cons.mp hrec
          obtain ⟨lenght, hlenght, hnat⟩ :=
            getLenghtBetweenStops_of_recorded h (hlt p (by simp)) (hlt q (by simp)) hfirst
          have htail := ih (fun r hr => hlt r (List.mem_cons_of_mem _ hr)) hrest
          rw [stopNames, List.map_cons] at htail
          simp only [stopNames, List.map_cons, lenghtAlong, hlenght, htail, bind, Except.bind, pure,
            Except.pure, hnat, exactLenght]

/-- `SummationLenght` gives the sum modulo `2 ^ 32`, as a signed number. -/
theorem summationLenght_of_recorded (h : StoreInv db) {bus : Bus} (hbus : bus ∈ db.allBuses)
    (hne : bus.stops ≠ []) (hrec : bus.stops.IsChain (Recorded db)) :
    db.summationLenght bus =
      .ok (((exactLenght db (roundTrip bus) : ℤ).bmod (2 ^ 32) : ℤ) : Double) := by
  have hlt : ∀ p ∈ roundTrip bus, p < db.allStops.length :=
    fun p hp => h.busStops bus hbus p (mem_of_mem_roundTrip hp)
  have hround : (roundTrip bus).IsChain (Recorded db) :=
    (isChain_roundTrip fun p _ q _ => recorded_comm.mp).mpr hrec
  have hlength := summationLenght_spec h hbus hne
  rw [if_pos hrec] at hlength
  obtain ⟨total, htotal, hlength⟩ := hlength
  cases htotal.symm.trans (lenghtAlong_of_recorded h hlt hround)
  exact hlength

theorem bmod_eq_self_iff (total : Nat) :
    ((total : ℤ).bmod (2 ^ 32) = total ∧ 0 ≤ (total : ℤ).bmod (2 ^ 32)) ↔ total < 2 ^ 31 := by
  rw [Int.bmod_def]
  omega

/-- In a loaded catalogue the reported length of a trip whose distances are all
recorded is their sum exactly if that is less than `2 ^ 31`. -/
theorem summationLenght_exact_iff {document : List (Json.Node Double)}
    (hload : baseRequests document = .ok db) {bus : Bus} (hbus : bus ∈ db.allBuses)
    (hne : bus.stops ≠ []) (hrec : bus.stops.IsChain (Recorded db)) :
    (db.summationLenght bus = .ok (exactLenght db (roundTrip bus) : Double) ∧
        ∀ length, db.summationLenght bus = .ok length → 0 ≤ length) ↔
      exactLenght db (roundTrip bus) < 2 ^ 31 := by
  obtain ⟨-, rfl⟩ := (baseRequests_eq_ok_iff document db).mp hload
  rw [summationLenght_of_recorded (run_inv _).toStoreInv hbus hne hrec, ← bmod_eq_self_iff]
  constructor
  · rintro ⟨heq, hnonneg⟩
    have hsigned := Except.ok.inj heq
    exact ⟨by exact_mod_cast hsigned, by exact_mod_cast hnonneg _ rfl⟩
  · rintro ⟨heq, hnonneg⟩
    rw [heq, Int.cast_natCast]
    refine ⟨rfl, ?_⟩
    rintro length ⟨⟩
    exact Nat.cast_nonneg _

theorem summationLenght_exact_line :
    ∃ db, baseRequests JsonReader.lineDocument = .ok db ∧
      db.summationLenght ⟨['1'], [0, 1], true⟩ = .ok (600 : Nat) := by
  obtain ⟨db, hload, hbus, hrec, hexact⟩ := exists_ok_of_any
    (x := baseRequests JsonReader.lineDocument)
    (p := fun db => ⟨['1'], [0, 1], true⟩ ∈ db.allBuses ∧ [0, 1].IsChain (Recorded db) ∧
      exactLenght db (roundTrip ⟨['1'], [0, 1], true⟩) = 600) (by decide +kernel)
  have hlength := (summationLenght_exact_iff hload hbus (by simp) hrec).mpr (by omega)
  rw [hexact] at hlength
  exact ⟨db, hload, hlength.1⟩

/-- A bus that goes to a stop as far away as an `int` can say, and back. -/
def longDocument : List (Json.Node Double) :=
  [.dict [("is_roundtrip".toList, .bool false), ("name".toList, .string ['1']),
      ("stops".toList, .array [.string ['A'], .string ['B']]),
      ("type".toList, .string "Bus".toList)],
    .dict [("latitude".toList, .int 1), ("longitude".toList, .int 2),
      ("name".toList, .string ['A']), ("road_distances".toList, .dict [(['B'], .int 2147483647)]),
      ("type".toList, .string "Stop".toList)]]

/-- The length of its trip is reported as `-2`. -/
theorem summationLenght_long :
    ∃ db, baseRequests longDocument = .ok db ∧ ⟨['1'], [0, 1], false⟩ ∈ db.allBuses ∧
      [0, 1].IsChain (Recorded db) ∧
      exactLenght db (roundTrip ⟨['1'], [0, 1], false⟩) = 4294967294 ∧
      db.summationLenght ⟨['1'], [0, 1], false⟩ = .ok (-2) :=
  exists_ok_of_any (by decide +kernel)

end TransportSystem.TransportCatalogue
