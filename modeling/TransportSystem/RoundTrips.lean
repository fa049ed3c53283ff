import TransportSystem.JsonReader
import TransportSystem.RequestSafety
import TransportSystem.RouteLength

namespace TransportSystem

open Library.UniqueKeys
open RequestHandler (renderMap renderWay_spec exists_renderMap)
open TransportCatalogue

/-- What a catalogue makes of the stops of a bus stays within them, and is about one and the
same sequence of stops. -/
structure RoundTrips (db : TransportCatalogue) (bus : Bus) : Prop where
  lenght : db.summationLenght bus ≠ .error .undefinedBehaviour
  lenght_eq : db.summationLenght bus = (do
    let sum ← transformReduce plusLenght db.lenghtThereAndBack 0 (roundTrip bus)
    pure sum.toInt)
  lineLenght (m : Libm) : db.summationLineLenght m bus ≠ .error .undefinedBehaviour
  way (render : MapRender) (colorCounter : ℕ) (projector : SphereProjector) :
    render.settings.colorPalette ≠ [] →
      ∃ vereda, render.renderWay db bus colorCounter projector = .ok vereda ∧
        vereda.points = (roundTrip bus).map fun p => projector.project (db.stop p).coordinates
  map (it : Iteration Str BusPtr) (render : MapRender) : render.settings.colorPalette ≠ [] →
    ∃ document, renderMap it db render = .ok document
  info (m : Libm) (name : Str) : db.findBus name = .ok bus →
    db.getInfoBus m name ≠ .error .undefinedBehaviour ∧
      ∀ info, db.getInfoBus m name = .ok info →
        info.quantityStop = (roundTrip bus).length ∧
          info.uniqueStops = (roundTrip bus).dedup.length

section RoundTrips

variable {db : TransportCatalogue} {bus : Bus}

theorem length_roundTrip (hne : bus.stops ≠ []) :
    ((roundTrip bus).length : ℤ) =
      if bus.isLoopTrip then (bus.stops.length : ℤ) else bus.stops.length * 2 - 1 := by
  have hpos := List.length_pos_iff.mpr hne
  unfold roundTrip
  split
  · rfl
  · rw [List.length_append, List.length_tail, List.length_reverse]
    omega

theorem length_dedup_roundTrip : (roundTrip bus).dedup.length = bus.stops.dedup.length := by
  rw [← List.card_toFinset, ← List.card_toFinset]
  refine congrArg Finset.card (Finset.ext fun p => ?_)
  rw [List.mem_toFinset, List.mem_toFinset]
  refine ⟨mem_of_mem_roundTrip, fun hp => ?_⟩
  unfold roundTrip
  split
  · exact hp
  · exact List.mem_append_left _ hp

theorem getInfoBus_counts (m : Libm) {name : Str} (hfind : db.findBus name = .ok bus)
    {info : BusInfo} (hinfo : db.getInfoBus m name = .ok info) :
    info.uniqueStops = bus.stops.dedup.length ∧
      info.quantityStop =
        if bus.isLoopTrip then (bus.stops.length : ℤ) else bus.stops.length * 2 - 1 := by
  simp only [getInfoBus_of_findBus m hfind, bind_eq_ok_iff] at hinfo
  obtain ⟨length, -, line, -, hpure⟩ := hinfo
  cases hpure
  exact ⟨rfl, rfl⟩

/-- A bus with a stop goes there and back as it is counted, measured and drawn. -/
theorem roundTrips_of_ne_nil (hdb : StoreInv db) (hbus : bus ∈ db.allBuses)
    (hne : bus.stops ≠ []) : RoundTrips db bus where
  lenght := (safe_iff.mp (safe_summationLenght hdb hbus hne)).1
  lenght_eq := summationLenght_eq hne
  lineLenght m := by
    obtain ⟨line, hline⟩ : ∃ line, db.summationLineLenght m bus = .ok line :=
      exists_summationLineLenght m hne
    rw [hline]
    exact fun h => nomatch h
  way render colorCounter projector hpalette := by
    obtain ⟨vereda, hvereda, -, hpoints⟩ := renderWay_spec hpalette hne colorCounter projector
    exact ⟨vereda, hvereda, hpoints⟩
  map it render hpalette := exists_renderMap hdb hpalette
  info m name hfind := by
    have hfound (bus' : Bus) (hfind' : db.findBus name = .ok bus') : bus'.stops ≠ [] := by
      cases hfind.symm.trans hfind'
      exact hne
    refine ⟨(safe_iff.mp ((safe_getInfoBus_iff hdb m name).mpr hfound)).1, fun info hinfo => ?_⟩
    obtain ⟨hunique, hquantity⟩ := getInfoBus_counts m hfind hinfo
    exact ⟨by rw [hquantity, length_roundTrip hne], by rw [hunique, length_dedup_roundTrip]⟩

end RoundTrips

/-- The trips of a bus stay within its stops exactly if it has one. -/
theorem roundTrips_iff (calls : List Call) (bus : Bus) (hbus : bus ∈ (run calls).allBuses) :
    RoundTrips (run calls) bus ↔ bus.stops ≠ [] := by
  constructor
  · intro htrips hnil
    exact htrips.lenght (summationLenght_of_nil hnil)
  · exact roundTrips_of_ne_nil (run_inv calls).toStoreInv hbus

open TransportRouter (lineCalls) in
theorem roundTrips_line : RoundTrips (run lineCalls) ⟨['1'], [0, 1], false⟩ :=
  (roundTrips_iff lineCalls _ (by decide)).mpr (by decide)

/-- A bus that stops nowhere. -/
def idleBus : Json.Node Double :=
  .dict [("is_roundtrip".toList, .bool false), ("name".toList, .string ['1']),
    ("stops".toList, .array [])]

/-- `JSON_ReaderBus` adds a bus that stops nowhere like any other. -/
theorem not_roundTrips_idle : ¬ ∀ db, JsonReader.readerBus empty idleBus = .ok db →
    ∀ bus ∈ db.allBuses, RoundTrips db bus := by
  intro hall
  obtain ⟨db, hread, hbuses⟩ := exists_ok_of_any
    (x := JsonReader.readerBus empty idleBus)
    (p := fun db => db.allBuses = [⟨['1'], [], false⟩]) (by decide +kernel)
  have htrips := hall db hread ⟨['1'], [], false⟩ (by rw [hbuses]; exact List.mem_singleton_self _)
  exact htrips.lenght (summationLenght_of_nil rfl)

end TransportSystem
