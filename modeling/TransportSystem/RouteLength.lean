import TransportSystem.CatalogueAnswers
import TransportSystem.RouteAnswers
import TransportSystem.StopIndex

/-!
The length that a Bus request reports against the lengths the router used.
`GetLenghtBetweenStops` takes a stop to be at distance zero from itself, the
lambdas of `SummationLenght` look that distance up like any other.
-/

namespace TransportSystem.TransportCatalogue

open Library.UniqueKeys
open TransportRouter (Measured isChain_hasLenght_reverse make make_made)

variable (db : TransportCatalogue)

/-- The length of the road along a sequence of stops. -/
def lenghtAlong : List Str → Except Failure Nat
  | a :: b :: rest => do
      let lenght ← db.getLenghtBetweenStops a b
      let sum ← lenghtAlong (b :: rest)
      pure (lenght.toNat + sum)
  | _ => pure 0

/-- The stops of a whole trip: there, and back again unless the bus goes in a
loop. -/
def roundTrip (bus : Bus) : List StopPtr :=
  if bus.isLoopTrip then bus.stops else bus.stops ++ bus.stops.reverse.tail

/-- The distance is stored, in one of the directions. -/
def Recorded (p q : StopPtr) : Prop :=
  (p, q) ∈ db.lengthBetweenStops ∨ (q, p) ∈ db.lengthBetweenStops

variable {db}

instance : DecidableRel (Recorded db) := fun _ _ => inferInstanceAs (Decidable (_ ∨ _))

theorem recorded_comm {p q : StopPtr} : Recorded db p q ↔ Recorded db q p := or_comm

theorem lenghtInLoopTrip_eq (p q : StopPtr) :
    db.lenghtInLoopTrip q p = db.lenghtThereAndBack q p := by
  simp only [lenghtInLoopTrip, lenghtThereAndBack, ite_self]

/-- On the way from `p` to `q` both lambdas find what `GetLenghtBetweenStops`
does, if the distance is stored. -/
theorem lenghtThereAndBack_of_recorded (h : StoreInv db) {p q : StopPtr}
    (hp : p < db.allStops.length) (hq : q < db.allStops.length) (hrec : Recorded db p q) :
    ∃ lenght, db.lenghtThereAndBack q p = .ok lenght ∧
      db.getLenghtBetweenStops (db.stop p).name (db.stop q).name = .ok lenght := by
  rw [getLenghtBetweenStops_of_lt h hp hq]
  unfold lenghtThereAndBack
  by_cases hpq : (p, q) ∈ db.lengthBetweenStops
  · obtain ⟨lenght, hlenght⟩ := UnorderedMap.mem_iff_lookup.mp hpq
    exact ⟨lenght, by rw [if_pos hpq, mapAt_of_lookup hlenght], by rw [hlenght]⟩
  · have hqp : (q, p) ∈ db.lengthBetweenStops := hrec.resolve_left hpq
    obtain ⟨lenght, hlenght⟩ := UnorderedMap.mem_iff_lookup.mp hqp
    refine ⟨lenght, by rw [if_neg hpq, if_pos hqp, mapAt_of_lookup hlenght], ?_⟩
    rw [UnorderedMap.lookup_eq_none.mpr hpq, hlenght]

theorem lenghtThereAndBack_of_not_recorded {p q : StopPtr} (hrec : ¬ Recorded db p q) :
    db.lenghtThereAndBack q p = .error .outOfRange := by
  obtain ⟨hpq, hqp⟩ := not_or.mp hrec
  simp only [lenghtThereAndBack, hpq, hqp, if_false, mapAt, UnorderedMap.lookup_eq_none.mpr hqp]

/-- Adding lengths to the `int` accumulator is addition modulo `2 ^ 32`. -/
theorem plusLenght_ofNat (sum : Nat) (lenght : UInt32) :
    plusLenght (UInt32.ofNat sum).toInt32 lenght = (UInt32.ofNat (sum + lenght.toNat)).toInt32 := by
  rw [plusLenght, UInt32.toUInt32_toInt32, UInt32.ofNat_add, UInt32.ofNat_toNat]

theorem toInt_toInt32_ofNat (total : Nat) :
    (UInt32.ofNat total).toInt32.toInt = (total : ℤ).bmod (2 ^ 32) := by
  rw [UInt32.toInt32_ofNat', Int32.toInt_ofNat']
  rfl

/-- The sum over neighbours succeeds exactly when all their distances are
stored, and is then the length along the stops. -/
theorem transformReduce_lenght (h : StoreInv db) (first : StopPtr) (rest : List StopPtr)
    (hlt : ∀ p ∈ first :: rest, p < db.allStops.length) (init : Nat) :
    if (first :: rest).IsChain (Recorded db) then
      ∃ total, db.lenghtAlong (db.stopNames (first :: rest)) = .ok total ∧
        transformReduce plusLenght db.lenghtThereAndBack (UInt32.ofNat init).toInt32
          (first :: rest) = .ok (UInt32.ofNat (init + total)).toInt32
    else
      transformReduce plusLenght db.lenghtThereAndBack (UInt32.ofNat init).toInt32
        (first :: rest) = .error .outOfRange := by
  induction rest generalizing first init with
  | nil =>
      rw [if_pos (List.isChain_singleton first)]
      exact ⟨0, rfl, rfl⟩
  | cons next rest ih =>
      have hrest := ih next (fun p hp => hlt p (List.mem_cons_of_mem _ hp))
      rw [transformReduce_cons_cons]
      by_cases hrec : Recorded db first next
      · obtain ⟨lenght, hop, hlenght⟩ := lenghtThereAndBack_of_recorded h (hlt first (by simp))
          (hlt next (by simp)) hrec
        have htail := hrest (init + lenght.toNat)
        simp only [hop, bind, Except.bind, plusLenght_ofNat]
        by_cases hchain : (next :: rest).IsChain (Recorded db)
        · rw [if_pos hchain] at htail
          obtain ⟨total, htotal, hsum⟩ := htail
          rw [if_pos (List.isChain_cons_cons.mpr ⟨hrec, hchain⟩)]
          refine ⟨lenght.toNat + total, ?_, by rw [hsum, add_assoc]⟩
          rw [stopNames, List.map_cons] at htotal
          simp only [stopNames, List.map_cons, lenghtAlong, hlenght, htotal, bind, Except.bind,
            pure, Except.pure]
        · rw [if_neg hchain] at htail
          rw [if_neg (fun hboth => hchain (List.isChain_cons_cons.mp hboth).2)]
          exact htail
      · rw [if_neg (fun hboth => hrec (List.isChain_cons_cons.mp hboth).1),
          lenghtThereAndBack_of_not_recorded hrec]
        rfl

/-- A symmetric relation holds along a round trip if it holds along the bus. -/
theorem isChain_roundTrip {R : StopPtr → StopPtr → Prop} {bus : Bus}
    (hsymm : ∀ p ∈ bus.stops, ∀ q ∈ bus.stops, R p q → R q p) :
    (roundTrip bus).IsChain R ↔ bus.stops.IsChain R := by
  unfold roundTrip
  split
  · rfl
  · have hreverse : bus.stops.reverse.IsChain R ↔ bus.stops.IsChain R := by
      rw [List.isChain_reverse]
      apply List.IsChain.iff_of_mem_imp
      exact fun p q hp hq => ⟨hsymm q hq p hp, hsymm p hp q hq⟩
    cases hlast : bus.stops.reverse with
    | nil => simp [List.reverse_eq_nil_iff.mp hlast]
    | cons last rest =>
        have hstops : bus.stops = rest.reverse ++ [last] := by
          rw [← List.reverse_reverse bus.stops, hlast, List.reverse_cons]
        -- the way there and the way back share the terminal
        have hsplit : (rest.reverse ++ last :: rest).IsChain R ↔
            bus.stops.IsChain R ∧ bus.stops.reverse.IsChain R := by
          rw [List.isChain_split, ← hstops, hlast]
        rw [hreverse, and_self] at hsplit
        rw [List.tail_cons]
        conv_lhs => rw [hstops]
        rwa [List.append_assoc, List.singleton_append]

theorem mem_of_mem_roundTrip {bus : Bus} {p : StopPtr} (h : p ∈ roundTrip bus) :
    p ∈ bus.stops := by
  unfold roundTrip at h
  split at h
  · exact h
  · rcases List.mem_append.mp h with h | h
    · exact h
    · exact List.mem_reverse.mp (List.mem_of_mem_tail h)

theorem roundTrip_ne_nil {bus : Bus} (h : bus.stops ≠ []) : roundTrip bus ≠ [] := by
  unfold roundTrip
  split <;> simp [h]

theorem summationLenght_eq {bus : Bus} (h : bus.stops ≠ []) :
    db.summationLenght bus = (do
      let sum ← transformReduce plusLenght db.lenghtThereAndBack 0 (roundTrip bus)
      pure sum.toInt) := by
  have hop : db.lenghtInLoopTrip = db.lenghtThereAndBack := by
    funext q p
    exact lenghtInLoopTrip_eq p q
  unfold summationLenght roundTrip popBack
  cases bus.isLoopTrip with
  | true => simp [hop]
  | false => simp [h, List.tail_reverse]

/-- `SummationLenght` throws unless all distances are stored, and is then the
length along the trip modulo `2 ^ 32`, as a signed number. -/
theorem summationLenght_spec (h : StoreInv db) {bus : Bus} (hbus : bus ∈ db.allBuses)
    (hne : bus.stops ≠ []) :
    if bus.stops.IsChain (Recorded db) then
      ∃ total, db.lenghtAlong (db.stopNames (roundTrip bus)) = .ok total ∧
        db.summationLenght bus = .ok (((total : ℤ).bmod (2 ^ 32) : ℤ) : Double)
    else
      db.summationLenght bus = .error .outOfRange := by
  obtain ⟨first, rest, htrip⟩ := List.exists_cons_of_ne_nil (roundTrip_ne_nil hne)
  have hsum := transformReduce_lenght h first rest
    (fun p hp => h.busStops bus hbus p (mem_of_mem_roundTrip (htrip ▸ hp))) 0
  have hzero : (UInt32.ofNat 0).toInt32 = 0 := rfl
  rw [hzero, ← htrip] at hsum
  simp only [isChain_roundTrip fun p _ q _ => recorded_comm.mp, zero_add] at hsum
  rw [summationLenght_eq hne]
  split at hsum
  · rename_i hchain
    obtain ⟨total, htotal, hsum⟩ := hsum
    rw [if_pos hchain, hsum]
    refine ⟨total, htotal, ?_⟩
    rw [← toInt_toInt32_ofNat]
    rfl
  · rename_i hchain
    rw [if_neg hchain, hsum]
    rfl

theorem lenghtAlong_of_isChain {stops : List StopPtr} (h : stops.IsChain db.HasLenght) :
    ∃ total, db.lenghtAlong (db.stopNames stops) = .ok total := by
  induction stops with
  | nil => exact ⟨0, rfl⟩
  | cons a stops ih =>
      cases stops with
      | nil => exact ⟨0, rfl⟩
      | cons b stops =>
          obtain ⟨⟨lenght, hlenght⟩, hchain⟩ := List.isChain_cons_cons.mp h
          obtain ⟨total, htotal⟩ := ih hchain
          rw [stopNames, List.map_cons] at htotal
          refine ⟨lenght.toNat + total, ?_⟩
          simp only [stopNames, List.map_cons, lenghtAlong, hlenght, htotal, bind, Except.bind,
            pure, Except.pure]

theorem transformReduce_pure {P A B : Type} (plus : B → A → B) (op : P → P → A) (init : B)
    (first : P) (rest : List P) :
    ∃ sum, transformReduce plus (fun p q => pure (op p q)) init (first :: rest) = .ok sum := by
  unfold transformReduce
  simp only [pure_bind]
  exact ⟨_, List.foldlM_pure⟩

theorem exists_summationLineLenght (m : Libm) {bus : Bus} (hne : bus.stops ≠ []) :
    ∃ line, db.summationLineLenght m bus = .ok line := by
  obtain ⟨first, rest, hstops⟩ := List.exists_cons_of_ne_nil hne
  obtain ⟨sum, hsum⟩ := transformReduce_pure (· + ·)
    (fun p q => computeDistance m (db.stop p).coordinates (db.stop q).coordinates) (0 : Double)
    first rest
  unfold summationLineLenght
  rw [hstops]
  dsimp only
  rw [hsum]
  cases bus.isLoopTrip with
  | true => exact ⟨sum, rfl⟩
  | false => exact ⟨2 * sum, rfl⟩

/-- A Bus request computes nothing that can fail beyond the length of the trip. -/
theorem getInfoBus_of_summationLenght (m : Libm) {name : Str} {bus : Bus}
    (hfind : db.findBus name = .ok bus) (hne : bus.stops ≠ []) {length : Double}
    (hlength : db.summationLenght bus = .ok length) :
    ∃ info, db.getInfoBus m name = .ok info ∧ info.routeLength = length := by
  obtain ⟨line, hline⟩ : ∃ line, db.summationLineLenght m bus = .ok line :=
    exists_summationLineLenght m hne
  rw [getInfoBus_of_findBus m hfind, hlength, hline]
  exact ⟨_, rfl, rfl⟩

/-- Roads that all have a length are all stored exactly when no bus stays at a
stop without a stored distance from the stop to itself. -/
theorem isChain_recorded_iff (h : StoreInv db) {bus : Bus} (hbus : bus ∈ db.allBuses)
    (hmeasured : Measured db bus) :
    bus.stops.IsChain (Recorded db) ↔
      ∀ k p, bus.stops[k]? = some p → bus.stops[k + 1]? = some p →
        (p, p) ∈ db.lengthBetweenStops := by
  rw [List.isChain_iff_getElem]
  constructor
  · intro hrec k p hk hnext
    obtain ⟨hlt, hp⟩ := List.getElem?_eq_some_iff.mp hk
    obtain ⟨hlt', hp'⟩ := List.getElem?_eq_some_iff.mp hnext
    have := hrec k hlt'
    rw [hp, hp'] at this
    exact this.elim id id
  · intro hself k hlt
    have hmem : ∀ {i : Nat} (hi : i < bus.stops.length), bus.stops[i] < db.allStops.length :=
      fun hi => h.busStops bus hbus _ (List.getElem_mem hi)
    have hlenght := List.isChain_iff_getElem.mp hmeasured k hlt
    rcases (hasLenght_iff h (hmem _) (hmem hlt)).mp hlenght with hrec | hrec | heq
    · exact Or.inl hrec
    · exact Or.inr hrec
    · refine Or.inl (heq ▸ hself k _ (List.getElem?_eq_getElem _) ?_)
      rw [heq]
      exact List.getElem?_eq_getElem hlt

/-- On a catalogue that the router accepts, the length of every trip with a stop
is that of the road along it, and a Bus request reports it, exactly if each stop
that the bus visits twice in a row has a stored distance from itself. -/
theorem summationLenght_iff {W : Type} [NatCast W] [Mul W] [Div W] [Zero W] [Add W] [LT W]
    [DecidableLT W] (calls : List Call) (rs : RoutingSettings) (tr : TransportRouter W)
    (hmake : make rs (run calls) = .ok tr) (bus : Bus) (hbus : bus ∈ (run calls).allBuses)
    (hne : bus.stops ≠ []) :
    ∃ total, (run calls).lenghtAlong ((run calls).stopNames (roundTrip bus)) = .ok total ∧
      (total < 2 ^ 31 →
        (((run calls).summationLenght bus = .ok total ∧
            ∀ m name, (run calls).findBus name = .ok bus →
              ∃ info, (run calls).getInfoBus m name = .ok info ∧ info.routeLength = total) ↔
          ∀ k p, bus.stops[k]? = some p → bus.stops[k + 1]? = some p →
            (p, p) ∈ (run calls).lengthBetweenStops)) := by
  have h := (run_inv calls).toStoreInv
  have hmeasured := (make_made h hmake).measured bus hbus
  have hlt : ∀ p ∈ bus.stops, p < (run calls).allStops.length := h.busStops bus hbus
  have hround : (roundTrip bus).IsChain (run calls).HasLenght := by
    refine (isChain_roundTrip fun p hp q hq => ?_).mpr hmeasured
    exact (hasLenght_comm h (hlt p hp) (hlt q hq)).mp
  obtain ⟨total, htotal⟩ := lenghtAlong_of_isChain hround
  refine ⟨total, htotal, fun hsmall => ?_⟩
  rw [← isChain_recorded_iff h hbus hmeasured]
  have hlength := summationLenght_spec h hbus hne
  split at hlength
  · rename_i hchain
    obtain ⟨total', htotal', hlength⟩ := hlength
    cases htotal.symm.trans htotal'
    have hsigned : (total : ℤ).bmod (2 ^ 32) = total := by
      rw [Int.bmod_def]
      omega
    rw [hsigned, Int.cast_natCast] at hlength
    exact iff_of_true ⟨hlength, fun m name hfind =>
      getInfoBus_of_summationLenght m hfind hne hlength⟩ hchain
  · rename_i hchain
    refine iff_of_false ?_ hchain
    rintro ⟨hok, -⟩
    cases hlength.symm.trans hok

open TransportRouter (lineCalls exists_make_line) in
theorem summationLenght_line :
    ∃ tr : TransportRouter ℚ, make ⟨6, 40⟩ (run lineCalls) = .ok tr ∧
      (run lineCalls).lenghtAlong [['A'], ['B'], ['A']] = .ok 1200 ∧
      (run lineCalls).summationLenght ⟨['1'], [0, 1], false⟩ = .ok (1200 : Nat) := by
  obtain ⟨tr, hmake⟩ := exists_make_line
  obtain ⟨total, htotal, hiff⟩ := summationLenght_iff lineCalls ⟨6, 40⟩ tr hmake
    ⟨['1'], [0, 1], false⟩ (by decide) (by decide)
  have hline : (run lineCalls).lenghtAlong [['A'], ['B'], ['A']] = .ok 1200 := by
    rfl
  cases htotal.symm.trans hline
  refine ⟨tr, hmake, hline, ((hiff (by decide)).mpr ?_).1⟩
  rintro (_ | _ | k) p hp hnext
  · cases hp
    cases hnext
  · cases hnext
  · cases hp

/-- A bus that stays at its only stop. -/
def stayingCalls : List Call := [.addBus ['1'] [['A'], ['A']] true]

/-- The router takes the stop to be at distance zero from itself, the Bus
request does not find the distance. -/
theorem summationLenght_staying :
    ∃ tr : TransportRouter ℚ, make ⟨6, 40⟩ (run stayingCalls) = .ok tr ∧
      ⟨['1'], [0, 0], true⟩ ∈ (run stayingCalls).allBuses ∧
      (run stayingCalls).lenghtAlong [['A'], ['A']] = .ok 0 ∧
      (run stayingCalls).summationLenght ⟨['1'], [0, 0], true⟩ = .error .outOfRange ∧
      ∀ m, (run stayingCalls).getInfoBus m ['1'] = .error .outOfRange := by
  obtain ⟨tr, hmake⟩ := exists_ok_of_isOk
    (x := (make ⟨6, 40⟩ (run stayingCalls) : Except Failure (TransportRouter ℚ)))
    (by decide +kernel)
  exact ⟨tr, hmake, by decide, rfl, rfl, fun m => rfl⟩

end TransportSystem.TransportCatalogue
