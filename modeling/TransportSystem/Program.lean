import TransportSystem.StatQueries

namespace TransportSystem

open Json
open Library.UniqueKeys
open RequestHandler (renderMap)

/-- A part of the program that works on files. What it did to them stays done
when it throws. -/
abbrev OnFiles (A : Type) := ExceptT Failure (StateM Files) A

/-- The outcome of such a part, and the files after it. -/
def perform {A : Type} (part : OnFiles A) (files : Files) : Except Failure A × Files :=
  part.run files

namespace Files

variable (files : Files) {name name' : Str}

@[simp] theorem opens_write (bytes : Str) : (files.write name bytes).opens = files.opens := by
  unfold write
  split <;> rfl

@[simp] theorem opens_openOutput : (files.openOutput name).opens = files.opens := by
  unfold openOutput
  split <;> rfl

theorem write_contents (bytes : Str) :
    (files.write name bytes).contents name =
      if files.opens name then some bytes else files.contents name := by
  unfold write
  split <;> simp

theorem openOutput_eq_write : files.openOutput name = files.write name [] := rfl

theorem write_openOutput (bytes : Str) :
    (files.openOutput name).write name bytes = files.write name bytes := by
  unfold write openOutput
  cases hopens : files.opens name <;> simp [hopens]

theorem write_write (bytes : Str) :
    (files.write name bytes).write name bytes = files.write name bytes := by
  unfold write
  cases hopens : files.opens name <;> simp [hopens]

end Files

namespace JsonReader

section Loop

variable (m : Libm) (it : Iteration Str BusPtr) (handler : RequestHandler)

def mapFile : Str := "map.svg".toList

/-- `JSON_ResponseRequesMap`, which also writes the text of the map to a file. -/
def responseRequesMapFiles (map : Svg.Document) (id : Int32) : OnFiles (Node Double) := do
  modify fun files => (files.openOutput mapFile).write mapFile map.render
  pure (responseRequesMap map id)

def respondMapFiles (dict : Dict Double) : OnFiles (Node Double) := do
  let map ← renderMap it handler.db handler.render
  let id ← intAt dict "id"
  responseRequesMapFiles map id

/-- The body of the loop of `JSON_StatRequest`, of which the answer to a `Map`
request touches a file. -/
def respondFiles (result : List (Node Double)) (request : Node Double) :
    OnFiles (List (Node Double)) := do
  let dict ← request.asDict
  require dict "type"
  require dict "id"
  let type ← stringAt dict "type"
  let result ← pushIf (type = "Bus".toList) (respondBus m handler dict) result
  let result ← pushIf (type = "Stop".toList) (respondStop handler dict) result
  let result ← if type = "Map".toList then do
      pure (result ++ [← respondMapFiles it handler dict])
    else pure result
  pushIf (type = "Route".toList) (respondRoute handler dict) result

/-- The text of the map. -/
def mapText : Str :=
  match renderMap it handler.db handler.render with
  | .ok map => map.render
  | .error _ => []

/-- A `Map` request, so far as the loop looks at it. -/
def asksMap : Node Double → Bool
  | .dict dict => (Dict.find dict "type".toList).any fun type => type.isString "Map".toList
  | _ => false

/-- The loop answers a `Map` request, perhaps before another one makes it throw. -/
def answersMap : List (Node Double) → List (Node Double) → Bool
  | _, [] => false
  | result, request :: requests =>
      match respond m it handler result request with
      | .ok result => asksMap request || answersMap result requests
      | .error _ => false

/-- `JSON_StatRequest`. `opened` gives the stream of an `std::ifstream` for what
is in its file, if there is one. -/
def statRequestFiles (protobuf : Protobuf Double) (loading : LoadingOrder Double)
    (stod : Str → Option Double) (opened : Option Str → protobuf.Stream) (input : IStream) :
    OnFiles Str := do
  let (query, name) ← openingQuery stod input
  let files ← get
  let handler ← requestHandler protobuf loading (opened (files.contents name))
  let dict ← query.asDict
  let document ← arrayAt dict "stat_requests"
  let result ← document.foldlM (respondFiles m it handler) []
  pure (printNode printDouble {} (.array result))

end Loop

section OnFiles

variable {A B : Type}

theorem perform_lift (x : Except Failure A) (files : Files) :
    perform (x : OnFiles A) files = (x, files) :=
  rfl

theorem perform_bind_lift (x : Except Failure A) (f : A → OnFiles B) (files : Files) :
    perform ((x : OnFiles A) >>= f) files =
      match x with
      | .ok a => perform (f a) files
      | .error failure => (.error failure, files) := by
  cases x <;> rfl

theorem perform_bind (part : OnFiles A) (f : A → OnFiles B) (files : Files) :
    perform (part >>= f) files =
      match perform part files with
      | (.ok a, files') => perform (f a) files'
      | (.error failure, files') => (.error failure, files') := by
  show (ExceptT.bindCont f (part files).1 : StateM Files _) (part files).2 = _
  unfold perform
  cases h : part files with
  | mk result files' =>
      cases result with
      | ok a => simp only [h, ExceptT.bindCont, ExceptT.run]
      | error failure =>
          simp only [h, ExceptT.bindCont, ExceptT.run]
          rfl

end OnFiles

section Loop

variable {m : Libm} {it : Iteration Str BusPtr} {handler : RequestHandler}

/-- A part returns what is said, and does to the files what is said unless it
throws. -/
def Performs {A : Type} (part : OnFiles A) (x : Except Failure A) (effect : Files → Files) : Prop :=
  ∀ files, perform part files = (x, if x.isOk then effect files else files)

theorem Performs.lift {A : Type} (x : Except Failure A) : Performs (x : OnFiles A) x id := by
  intro files
  rw [perform_lift]
  split <;> rfl

theorem Performs.bind {A B : Type} {x : Except Failure A} {f : A → OnFiles B}
    {g : A → Except Failure B} {effect : Files → Files}
    (h : ∀ a, x = .ok a → Performs (f a) (g a) effect) :
    Performs ((x : OnFiles A) >>= f) (x >>= g) effect := by
  intro files
  rw [perform_bind_lift]
  cases x with
  | error failure => rfl
  | ok a => exact h a rfl files

theorem Performs.map {A B : Type} {part : OnFiles A} {x : Except Failure A}
    {effect : Files → Files} (h : Performs part x effect) (f : A → B) :
    Performs (do pure (f (← part))) (do pure (f (← x))) effect := by
  intro files
  rw [perform_bind, h files]
  cases x <;> rfl

theorem performs_respondMapFiles (dict : Dict Double) :
    Performs (respondMapFiles it handler dict) (respondMap it handler dict)
      fun files => files.write mapFile (mapText it handler) := by
  refine Performs.bind fun map hmap => Performs.bind fun id _ files => ?_
  rw [mapText, hmap, ← files.write_openOutput]
  rfl

theorem asksMap_dict {dict : Dict Double} {type : Str} (h : stringAt dict "type" = .ok type) :
    asksMap (.dict dict) = decide (type = "Map".toList) := by
  obtain ⟨node, hnode, htype⟩ := bind_eq_ok_iff.mp h
  cases Node.asString_eq_ok_iff.mp htype
  rw [asksMap, Dict.get_eq_ok_iff.mp hnode]
  rfl

/-- One turn of the loop: what `respond` returns, and the map in its file if it
was asked for. -/
theorem performs_respondFiles (result : List (Node Double)) (request : Node Double) :
    Performs (respondFiles m it handler result request) (respond m it handler result request)
      fun files => if asksMap request then files.write mapFile (mapText it handler) else files := by
  cases hrequest : request.asDict with
  | error failure =>
      intro files
      unfold respondFiles respond
      rw [hrequest]
      rfl
  | ok dict =>
      cases Node.asDict_eq_ok_iff.mp hrequest
      refine Performs.bind fun dict' hdict => ?_
      cases hdict
      refine Performs.bind fun _ _ => Performs.bind fun _ _ => Performs.bind fun type htype => ?_
      rw [asksMap_dict htype]
      by_cases hmap : type = "Map".toList
      · subst hmap
        -- the other branches are not taken
        have hroute (result : List (Node Double)) (response : Except Failure (Node Double)) :
            pushIf (decide ("Map".toList = "Route".toList)) response result = .ok result :=
          pushIf_false
        refine Performs.bind fun result' hresult => ?_
        cases hresult
        refine Performs.bind fun result' hresult => ?_
        cases hresult
        simp only [hroute, if_true, decide_true, pushIf_true, bind_assoc, pure_bind]
        exact (performs_respondMapFiles dict).map fun response => result ++ [response]
      · simp only [if_neg hmap, decide_eq_false hmap, pushIf_false, Bool.false_eq_true, if_false]
        exact Performs.bind fun result _ => Performs.bind fun result _ => Performs.lift _

/-- The loop returns what it does without files, and the map is in its file if a
`Map` request was answered, perhaps before another one made it throw. -/
theorem perform_loop (requests result : List (Node Double)) (files : Files) :
    perform (requests.foldlM (respondFiles m it handler) result) files =
      (requests.foldlM (respond m it handler) result,
        if answersMap m it handler result requests then
          files.write mapFile (mapText it handler)
        else files) := by
  induction requests generalizing result files with
  | nil => rfl
  | cons request requests ih =>
      rw [List.foldlM_cons, List.foldlM_cons, perform_bind,
        performs_respondFiles result request files, answersMap]
      cases respond m it handler result request with
      | error failure => rfl
      | ok result' =>
          show perform (requests.foldlM (respondFiles m it handler) result') _ = _
          rw [ih, ok_bind]
          cases asksMap request with
          | false => rfl
          | true =>
              refine Prod.ext rfl ?_
              show (if answersMap m it handler result' requests then
                (files.write mapFile (mapText it handler)).write mapFile (mapText it handler)
                else files.write mapFile (mapText it handler)) = _
              rw [files.write_write]
              exact ite_self _

section Phase

variable (m it) (protobuf : Protobuf Double) (loading : LoadingOrder Double)
  (stod : Str → Option Double) (opened : Option Str → protobuf.Stream) (input : IStream)

/-- A `Map` request of the input has its answer. -/
def writesMap (files : Files) : Option Str :=
  (do
    let (query, name) ← openingQuery stod input
    let handler ← requestHandler protobuf loading (opened (files.contents name))
    let dict ← query.asDict
    let document ← arrayAt dict "stat_requests"
    pure (if answersMap m it handler [] document then some (mapText it handler) else none) :
      Except Failure (Option Str)).toOption.join

/-- The second phase returns what it does on the contents of its file, and
touches at most the file of the map. -/
theorem perform_statRequestFiles (files : Files) :
    perform (statRequestFiles m it protobuf loading stod opened input) files =
      (statRequest m it protobuf loading stod (fun name => opened (files.contents name)) input,
        match writesMap m it protobuf loading stod opened input files with
        | some text => files.write mapFile text
        | none => files) := by
  unfold statRequestFiles statRequest writesMap
  rw [perform_bind_lift]
  cases openingQuery stod input with
  | error failure => rfl
  | ok opening =>
  obtain ⟨query, name⟩ := opening
  show perform (((requestHandler protobuf loading (opened (files.contents name)) :
    Except Failure RequestHandler) : OnFiles RequestHandler) >>= _) files = _
  rw [perform_bind_lift]
  simp only [ok_bind]
  cases requestHandler protobuf loading (opened (files.contents name)) with
  | error failure => rfl
  | ok handler =>
  simp only [ok_bind]
  rw [perform_bind_lift]
  cases query.asDict with
  | error failure => rfl
  | ok dict =>
  simp only [ok_bind]
  rw [perform_bind_lift]
  cases arrayAt dict "stat_requests" with
  | error failure => rfl
  | ok document =>
  simp only [ok_bind]
  rw [perform_bind, perform_loop]
  cases document.foldlM (respond m it handler) [] with
  | error failure => cases answersMap m it handler [] document <;> rfl
  | ok result => cases answersMap m it handler [] document <;> rfl

end Phase

end Loop

end JsonReader

/-- What the program uses of its libraries. -/
structure Machine where
  m : Libm
  stod : Str → Option Double
  protobuf : Protobuf Double
  /-- What an `std::ofstream` leaves in its file. -/
  bytes : protobuf.Stream → Str
  /-- What an `std::ifstream` finds in a file, or without one. -/
  opened : Option Str → protobuf.Stream
  opened_bytes : ∀ out, opened (some (bytes out)) = out

/-- The orders that the language leaves open. Each process has its own. -/
structure Orders where
  arguments : JsonReader.ArgumentOrder
  buses : Iteration Str BusPtr
  saving : SavingOrder Double
  loading : LoadingOrder Double

namespace Creator

variable (machine : Machine) (orders : Orders)

def initializeCatalogue (input : IStream) : OnFiles Unit := fun files =>
  JsonReader.baseRequest machine.protobuf orders.arguments orders.saving machine.stod
    machine.bytes input files

def executingRequests (input : IStream) : OnFiles Str :=
  JsonReader.statRequestFiles machine.m orders.buses machine.protobuf orders.loading machine.stod
    machine.opened input

end Creator

namespace Program

/-- A process: its orders, the arguments after the name of the program, and what
comes in at `std::cin`. -/
structure Process where
  orders : Orders
  arguments : List Str
  cin : Str

/-- How a process ends: the value of `main` or the exception that leaves it, and
what it has written. -/
structure Outcome where
  exit : Except Failure ℕ
  cout : Str := []
  cerr : Str := []
  deriving DecidableEq

def printUsage : Str := "Usage: transport_catalogue [make_base|process_requests]\n".toList

/-- The end of `main` after the part that writes to `std::cout`. -/
def Outcome.ofText : Except Failure Str → Outcome
  | .ok cout => { exit := .ok 0, cout := cout }
  | .error failure => { exit := .error failure }

def makeBase : Str := "make_base".toList

def processRequests : Str := "process_requests".toList

def main (machine : Machine) (process : Process) (files : Files) : Outcome × Files :=
  match process.arguments with
  | [mode] =>
      if mode = makeBase then
        let (result, files) :=
          perform (Creator.initializeCatalogue machine process.orders (.ofText process.cin)) files
        (.ofText (result.map fun _ => []), files)
      else if mode = processRequests then
        let (result, files) :=
          perform (Creator.executingRequests machine process.orders (.ofText process.cin)) files
        (.ofText result, files)
      else ({ exit := .ok 1, cerr := printUsage }, files)
  | _ => ({ exit := .ok 1, cerr := printUsage }, files)

/-- The files after one process after the other. -/
def run (machine : Machine) (processes : List Process) (files : Files) : Files :=
  processes.foldl (fun files process => (main machine process files).2) files

end Program

end TransportSystem
