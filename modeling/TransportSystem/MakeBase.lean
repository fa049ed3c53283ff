import TransportSystem.JsonDouble
import TransportSystem.JsonSettings
import TransportSystem.Serialization

namespace TransportSystem

open Json JsonReader
open TransportRouter (make)

/-- The failures that are exceptions. -/
def Failure.Thrown : Failure → Prop
  | .undefinedBehaviour => False
  | .diverges => False
  | _ => True

/-- The files and what is in them. -/
structure Files where
  contents : Str → Option Str
  /-- An `std::ofstream` can open the file. -/
  opens : Str → Bool

namespace Files

/-- `std::ofstream(name, std::ios::binary)` -/
def openOutput (files : Files) (name : Str) : Files :=
  if files.opens name then
    { files with contents := Function.update files.contents name (some []) }
  else files

/-- The end of an `std::ofstream` to which `bytes` were written. -/
def write (files : Files) (name bytes : Str) : Files :=
  if files.opens name then
    { files with contents := Function.update files.contents name (some bytes) }
  else files

variable (files : Files) {name name' : Str}

theorem openOutput_contents :
    (files.openOutput name).contents name =
      if files.opens name then some [] else files.contents name := by
  unfold openOutput
  split <;> simp

theorem openOutput_contents_of_ne (h : name' ≠ name) :
    (files.openOutput name).contents name' = files.contents name' := by
  unfold openOutput
  split <;> simp [h]

theorem write_contents_of_ne {bytes : Str} (h : name' ≠ name) :
    (files.write name bytes).contents name' = files.contents name' := by
  unfold write
  split <;> simp [h]

end Files

namespace JsonReader

def serializationSettings (document : Node Double) : Except Failure Str := do
  let dict ← document.asDict
  (← dict.get "file".toList).asString

/-- `JSON_BaseRequest` up to the name of the file. -/
def openingQuery (stod : Str → Option Double) (input : IStream) :
    Except Failure (Node Double × Str) := do
  let (query, _) ← load stod input
  let dict ← query.root.asDict
  let name ← serializationSettings (← dict.get "serialization_settings".toList)
  pure (query.root, name)

section Base

variable {W : Type} [NatCast W] [Mul W] [Div W] [Zero W] [Add W] [LT W] [DecidableLT W]
variable (protobuf : Protobuf W) (order : ArgumentOrder) (saving : SavingOrder W)

/-- `JSON_BaseRequest` once the file is open. -/
def base (query : Node Double) : Except Failure protobuf.Stream := do
  let dict ← query.asDict
  let document ← arrayAt dict "base_requests"
  let catalogue ← baseRequests document
  let settings ← readerRoutingSetings (← dict.get "routing_settings".toList)
  let router ← make settings catalogue
  let mapSettings ← readerMapSettings order (← dict.get "render_settings".toList)
  serialization protobuf saving catalogue ⟨mapSettings⟩ router

/-- `JSON_BaseRequest`. An exception unwinds through `ofile`, which closes the
file as it is. -/
def baseRequest (stod : Str → Option Double) (bytes : protobuf.Stream → Str) (input : IStream)
    (files : Files) : Except Failure Unit × Files :=
  match openingQuery stod input with
  | .error failure => (.error failure, files)
  | .ok (query, name) =>
      let files := files.openOutput name
      match base protobuf order saving query with
      | .error failure => (.error failure, files)
      | .ok out => (.ok (), files.write name (bytes out))

end Base

/-- `name` is the text under `serialization_settings` and `file`. -/
def NamesFile (stod : Str → Option Double) (input : IStream) (name : Str) : Prop :=
  ∃ (query : Document Double) (rest : IStream) (dict settings : Dict Double),
    load stod input = .ok (query, rest) ∧ query.root = .dict dict ∧
    dict.find "serialization_settings".toList = some (.dict settings) ∧
    settings.find "file".toList = some (.string name)

theorem serializationSettings_eq_ok_iff {document : Node Double} {name : Str} :
    serializationSettings document = .ok name ↔
      ∃ settings : Dict Double, document = .dict settings ∧
        settings.find "file".toList = some (.string name) := by
  simp only [serializationSettings, bind_eq_ok_iff, Node.asDict_eq_ok_iff, Dict.get_eq_ok_iff,
    Node.asString_eq_ok_iff, exists_eq_right]

theorem openingQuery_eq_ok_iff {stod : Str → Option Double} {input : IStream} {name : Str} :
    (∃ query, openingQuery stod input = .ok (query, name)) ↔ NamesFile stod input name := by
  simp only [openingQuery, bind_eq_ok_iff, serializationSettings_eq_ok_iff, Node.asDict_eq_ok_iff,
    Dict.get_eq_ok_iff, NamesFile]
  constructor
  · rintro ⟨query, ⟨document, rest⟩, hload, dict, hroot, node, hfind, name',
      ⟨settings, rfl, hfile⟩, h⟩
    cases h
    exact ⟨document, rest, dict, settings, hload, hroot, hfind, hfile⟩
  · rintro ⟨document, rest, dict, settings, hload, hroot, hfind, hfile⟩
    exact ⟨document.root, (document, rest), hload, dict, hroot, _, hfind, name,
      ⟨settings, rfl, hfile⟩, rfl⟩

section Base

variable {W : Type} [NatCast W] [Mul W] [Div W] [Zero W] [Add W] [LT W] [DecidableLT W]
variable {protobuf : Protobuf W} {order : ArgumentOrder} {saving : SavingOrder W}
  {stod : Str → Option Double} {bytes : protobuf.Stream → Str} {input : IStream}
  {files : Files}

/-- How a call can fail: before it opens the file, or with the file empty. -/
theorem baseRequest_error {files' : Files} {failure : Failure}
    (h : baseRequest protobuf order saving stod bytes input files = (.error failure, files')) :
    ((∀ name, ¬ NamesFile stod input name) ∧ files' = files) ∨
      ∃ name, NamesFile stod input name ∧ files' = files.openOutput name := by
  unfold baseRequest at h
  cases hopen : openingQuery stod input with
  | error failure' =>
      rw [hopen, Prod.mk.injEq] at h
      refine .inl ⟨fun name hname => ?_, h.2.symm⟩
      obtain ⟨query, hquery⟩ := openingQuery_eq_ok_iff.mpr hname
      rw [hopen] at hquery
      cases hquery
  | ok opened =>
      obtain ⟨query, name⟩ := opened
      rw [hopen] at h
      refine .inr ⟨name, openingQuery_eq_ok_iff.mp ⟨query, hopen⟩, ?_⟩
      cases hbase : base protobuf order saving query with
      | error failure' =>
          simp only [hbase, Prod.mk.injEq] at h
          exact h.2.symm
      | ok out =>
          simp only [hbase, Prod.mk.injEq] at h
          cases h.1

theorem NamesFile.unique {name name' : Str} (h : NamesFile stod input name)
    (h' : NamesFile stod input name') : name = name' := by
  obtain ⟨query, hquery⟩ := openingQuery_eq_ok_iff.mpr h
  obtain ⟨query', hquery'⟩ := openingQuery_eq_ok_iff.mpr h'
  rw [hquery] at hquery'
  cases hquery'
  rfl

/-- Whatever happens, no other file is touched. -/
theorem baseRequest_contents_of_ne {name name' : Str} (hname : NamesFile stod input name)
    (hne : name' ≠ name) :
    (baseRequest protobuf order saving stod bytes input files).2.contents name' =
      files.contents name' := by
  obtain ⟨query, hopen⟩ := openingQuery_eq_ok_iff.mpr hname
  unfold baseRequest
  rw [hopen]
  dsimp only
  split
  · exact files.openOutput_contents_of_ne hne
  · rw [Files.write_contents_of_ne _ hne]
    exact files.openOutput_contents_of_ne hne

/-- A call that throws keeps the file it names exactly if it could not be opened
or was already there and empty. -/
theorem baseRequest_keeps_iff {files' : Files} {failure : Failure}
    (h : baseRequest protobuf order saving stod bytes input files = (.error failure, files'))
    (_ : failure.Thrown) :
    (∀ name, NamesFile stod input name → files'.contents name = files.contents name) ↔
      ∀ name, NamesFile stod input name → files.opens name = true →
        files.contents name = some [] := by
  rcases baseRequest_error h with ⟨hno, rfl⟩ | ⟨name, hname, rfl⟩
  · exact iff_of_true (fun _ _ => rfl) fun name hname => absurd hname (hno name)
  · refine forall_congr' fun name' => imp_congr_right fun hname' => ?_
    rw [← hname.unique hname', Files.openOutput_contents]
    split
    · rename_i hopens
      simp only [hopens, true_imp_iff]
      exact eq_comm
    · rename_i hopens
      exact iff_of_true rfl fun hopens' => absurd hopens' hopens

end Base

/-- A request without `base_requests`. -/
def brokenRequest : Str :=
  "\x7b\"serialization_settings\": \x7b\"file\": \"db\"\x7d\x7d".toList

theorem baseRequest_broken (files : Files) :
    NamesFile stod (.ofText brokenRequest) "db".toList ∧
      baseRequest (W := ℚ) .plain .firstToLast ⟨.ofEntries, .ofEntries, .ofEntries⟩ stod
        (fun _ => []) (.ofText brokenRequest) files =
          (.error .outOfRange, files.openOutput "db".toList) := by
  obtain ⟨⟨query, name⟩, hopen, hname, hbase⟩ := exists_ok_of_any
    (x := openingQuery stod (.ofText brokenRequest))
    (p := fun opened => opened.2 = "db".toList ∧
      (base (W := ℚ) .plain .firstToLast ⟨.ofEntries, .ofEntries, .ofEntries⟩ opened.1).map
        (fun _ => ()) = .error .outOfRange) (by decide +kernel)
  dsimp only at hname hbase
  subst hname
  refine ⟨openingQuery_eq_ok_iff.mp ⟨query, hopen⟩, ?_⟩
  unfold baseRequest
  rw [hopen]
  dsimp only
  cases h : base (W := ℚ) .plain .firstToLast ⟨.ofEntries, .ofEntries, .ofEntries⟩ query with
  | error failure =>
      rw [h] at hbase
      cases hbase
      rfl
  | ok out =>
      rw [h] at hbase
      cases hbase

theorem baseRequest_keeps_empty : ∃ files',
    baseRequest (W := ℚ) .plain .firstToLast ⟨.ofEntries, .ofEntries, .ofEntries⟩ stod
      (fun _ => []) (.ofText brokenRequest) ⟨fun _ => some [], fun _ => true⟩ =
        (.error .outOfRange, files') ∧ files'.contents "db".toList = some [] := by
  obtain ⟨hname, hcall⟩ := baseRequest_broken ⟨fun _ => some [], fun _ => true⟩
  exact ⟨_, hcall, (baseRequest_keeps_iff hcall trivial).mpr (fun _ _ _ => rfl) _ hname⟩

/-- A file with an old base is emptied. -/
theorem baseRequest_empties : ∃ files',
    baseRequest (W := ℚ) .plain .firstToLast ⟨.ofEntries, .ofEntries, .ofEntries⟩ stod
      (fun _ => []) (.ofText brokenRequest) ⟨fun _ => some "old".toList, fun _ => true⟩ =
        (.error .outOfRange, files') ∧ NamesFile stod (.ofText brokenRequest) "db".toList ∧
      files'.contents "db".toList ≠ some "old".toList := by
  obtain ⟨hname, hcall⟩ := baseRequest_broken ⟨fun _ => some "old".toList, fun _ => true⟩
  refine ⟨_, hcall, hname, ?_⟩
  rw [Files.openOutput_contents]
  simp

end JsonReader

end TransportSystem
