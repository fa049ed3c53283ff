import TransportSystem.JsonFailures
import TransportSystem.MapSafety
import TransportSystem.ProgramRuns

/-!
Which descriptions `make_base` reads within what the language defines: the
others have a road distance without an absolute value, or settings of the map
with an array that is too short.
-/

namespace TransportSystem

open Json
open TransportCatalogue (StoreInv run_inv step)
open TransportRouter (make)

/-- The first element that is not fine is flawed. -/
def FirstAt {A : Type} (fine flawed : A → Prop) (l : List A) : Prop :=
  ∃ before a after, l = before ++ a :: after ∧ (∀ b ∈ before, fine b) ∧ flawed a

section FirstAt

variable {A B : Type} {fine flawed : A → Prop} {a : A} {l : List A}

theorem not_firstAt_nil : ¬ FirstAt fine flawed [] := by
  rintro ⟨before, a, after, h, -⟩
  simp at h

theorem firstAt_cons_iff :
    FirstAt fine flawed (a :: l) ↔ flawed a ∨ fine a ∧ FirstAt fine flawed l := by
  constructor
  · rintro ⟨before, b, after, h, hbefore, hb⟩
    cases before with
    | nil =>
        cases h
        exact .inl hb
    | cons c before =>
        cases h
        rw [List.forall_mem_cons] at hbefore
        exact .inr ⟨hbefore.1, before, b, after, rfl, hbefore.2, hb⟩
  · rintro (h | ⟨ha, before, b, after, rfl, hbefore, hb⟩)
    · exact ⟨[], a, l, rfl, by simp, h⟩
    · exact ⟨a :: before, b, after, rfl, List.forall_mem_cons.mpr ⟨ha, hbefore⟩, hb⟩

theorem firstAt_congr {fine' flawed' : A → Prop} (hfine : ∀ a, fine a ↔ fine' a)
    (hflawed : ∀ a, flawed a ↔ flawed' a) : FirstAt fine flawed l ↔ FirstAt fine' flawed' l := by
  simp only [FirstAt, hfine, hflawed]

theorem not_safe_bind_iff {x : Except Failure A} {f : A → Except Failure B} :
    ¬ Safe (x >>= f) ↔ ¬ Safe x ∨ ∃ a, x = .ok a ∧ ¬ Safe (f a) := by
  rw [safe_bind_iff, not_and_or]
  push Not
  exact Iff.rfl

/-- A loop that collects results is safe up to the first element on which it is
not. -/
theorem safe_mapM_iff {f : A → Except Failure B} :
    Safe (l.mapM f) ↔ ¬ FirstAt (fun a => ∃ b, f a = .ok b) (fun a => ¬ Safe (f a)) l := by
  induction l with
  | nil => exact iff_of_true (safe_ok []) not_firstAt_nil
  | cons a l ih =>
      have hrest (b : B) (bs : List B) : Safe (pure (b :: bs) : Except Failure (List B)) :=
        safe_ok _
      rw [List.mapM_cons, safe_bind_iff, firstAt_cons_iff]
      simp only [safe_bind_iff, ih, hrest, implies_true, and_true]
      rw [not_or, not_not, not_and, forall_exists_index]

theorem exists_mapM_iff {f : A → Except Failure B} :
    (∃ bs, l.mapM f = .ok bs) ↔ ∀ a ∈ l, ∃ b, f a = .ok b := by
  induction l with
  | nil => exact iff_of_true ⟨[], rfl⟩ (by simp)
  | cons a l ih =>
      rw [List.forall_mem_cons, ← ih, List.mapM_cons]
      simp only [bind_eq_ok_iff]
      constructor
      · rintro ⟨_, b, hb, bs, hbs, -⟩
        exact ⟨⟨b, hb⟩, bs, hbs⟩
      · rintro ⟨⟨b, hb⟩, bs, hbs⟩
        exact ⟨b :: bs, b, hb, bs, hbs, rfl⟩

theorem safe_mapM {f : A → Except Failure B} (h : ∀ a ∈ l, Safe (f a)) : Safe (l.mapM f) := by
  rw [safe_mapM_iff]
  rintro ⟨before, a, after, rfl, -, ha⟩
  exact ha (h a (by simp))

theorem safe_foldlM {f : B → A → Except Failure B} (h : ∀ b, ∀ a ∈ l, Safe (f b a)) (b : B) :
    Safe (l.foldlM f b) := by
  induction l generalizing b with
  | nil => exact safe_ok b
  | cons a l ih =>
      rw [List.foldlM_cons, safe_bind_iff]
      exact ⟨h b a (by simp), fun b' _ => ih (fun b a' ha' => h b a' (by simp [ha'])) b'⟩

end FirstAt

namespace Json

variable {node : Node Double} {dict : Dict Double} {key : Str}

theorem safe_asInt : Safe node.asInt := by
  intro failure h
  cases node <;> cases h <;> trivial

theorem safe_asDouble : Safe node.asDouble := by
  intro failure h
  cases node <;> cases h <;> trivial

theorem safe_asBool : Safe node.asBool := by
  intro failure h
  cases node <;> cases h <;> trivial

theorem safe_asArray : Safe node.asArray := by
  intro failure h
  cases node <;> cases h <;> trivial

theorem safe_asString : Safe node.asString := by
  intro failure h
  cases node <;> cases h <;> trivial

theorem safe_asDict : Safe node.asDict := by
  intro failure h
  cases node <;> cases h <;> trivial

theorem safe_get : Safe (dict.get key) := by
  intro failure h
  unfold Dict.get at h
  split at h
  · cases h
  · cases h
    trivial

theorem safe_load (stod : Str → Option Double) (text : Str) : Safe (load stod (.ofText text)) := by
  intro failure h
  rcases (load_fails _).1 _ failure (load_eq_error_iff.mp h) with rfl | ⟨what, rfl⟩
  · exact load_ne_diverges text h
  · trivial

end Json

namespace JsonReader

section Access

variable {dict : Dict Double} {key : String}

theorem safe_require : Safe (require dict key) := by
  intro failure h
  unfold require at h
  split at h
  · cases h
    trivial
  · cases h

theorem safe_intAt : Safe (intAt dict key) := safe_bind_iff.mpr ⟨safe_get, fun _ _ => safe_asInt⟩

theorem safe_stringAt : Safe (stringAt dict key) :=
  safe_bind_iff.mpr ⟨safe_get, fun _ _ => safe_asString⟩

theorem safe_arrayAt : Safe (arrayAt dict key) :=
  safe_bind_iff.mpr ⟨safe_get, fun _ _ => safe_asArray⟩

theorem safe_openingQuery (stod : Str → Option Double) (text : Str) :
    Safe (openingQuery stod (.ofText text)) := by
  simp only [openingQuery, serializationSettings, safe_bind_iff]
  exact ⟨safe_load stod text, fun _ _ => ⟨safe_asDict, fun _ _ => ⟨safe_get, fun _ _ =>
    ⟨⟨safe_asDict, fun _ _ => ⟨safe_get, fun _ _ => safe_asString⟩⟩, fun _ _ => safe_ok _⟩⟩⟩⟩

end Access

/-- An `int` whose absolute value is one, too. -/
def HasAbs (node : Node Double) : Prop :=
  ∃ value : Int32, node = .int value ∧ value ≠ Int32.minValue

/-- The least `int`. -/
def LacksAbs (node : Node Double) : Prop := node = .int Int32.minValue

/-- A stop that is read up to a road distance without an absolute value. -/
def FlawedStop (description : Node Double) : Prop :=
  ∃ (dict : Dict Double) (name : Str) (latitude longitude : Node Double) (mapLenght : Dict Double),
    description = .dict dict ∧ dict.find "type".toList = some (.string "Stop".toList) ∧
    dict.find "name".toList = some (.string name) ∧
    dict.find "latitude".toList = some latitude ∧ IsNumber latitude ∧
    dict.find "longitude".toList = some longitude ∧ IsNumber longitude ∧
    dict.find "road_distances".toList = some (.dict mapLenght) ∧
    FirstAt (fun member => HasAbs member.2) (fun member => LacksAbs member.2) mapLenght

/-- The first pass gets through the array, and the second one gets to a flawed
stop. -/
def FlawedRequests (document : List (Node Double)) : Prop :=
  (∀ description ∈ document, ∃ calls, firstPass description = .ok calls) ∧
    FirstAt (fun description => ∃ calls, secondPass description = .ok calls) FlawedStop document

theorem toInt_eq_least_iff {value : Int32} :
    value.toInt = -2147483648 ↔ value = Int32.minValue := by
  rw [← Int32.toInt_inj, Int32.toInt_minValue]
  rfl

theorem abs_eq_ok {value : Int32} (h : value ≠ Int32.minValue) :
    abs value = .ok (UInt32.ofNat value.toInt.natAbs) := by
  rw [abs, if_neg (mt toInt_eq_least_iff.mp h)]
  rfl

theorem abs_minValue : abs Int32.minValue = .error .undefinedBehaviour := by
  rw [abs, if_pos (toInt_eq_least_iff.mpr rfl)]
  rfl

theorem exists_abs_iff {node : Node Double} :
    (∃ lenght, (node.asInt >>= abs) = .ok lenght) ↔ HasAbs node := by
  constructor
  · rintro ⟨lenght, h⟩
    cases node with
    | int value =>
        refine ⟨value, rfl, ?_⟩
        rintro rfl
        cases abs_minValue.symm.trans h
    | null | array | dict | bool | double | string => cases h
  · rintro ⟨value, rfl, hvalue⟩
    exact ⟨_, abs_eq_ok hvalue⟩

theorem not_safe_abs_iff {node : Node Double} : ¬ Safe (node.asInt >>= abs) ↔ LacksAbs node := by
  constructor
  · intro h
    cases node with
    | int value =>
        by_contra hnode
        refine h (safe_of_exists ⟨_, abs_eq_ok fun hvalue => hnode ?_⟩)
        rw [LacksAbs, hvalue]
    | null | array | dict | bool | double | string =>
        exact absurd (safe_bind_iff.mpr ⟨safe_asInt, by rintro _ ⟨⟩⟩) h
  · rintro rfl h
    exact h _ abs_minValue

theorem exists_roadDistance_iff {member : Str × Node Double} :
    (∃ l, (do pure (member.1, ← abs (← member.2.asInt)) : Except Failure (Str × UInt32)) = .ok l) ↔
      HasAbs member.2 := by
  rw [← exists_abs_iff]
  simp only [bind_eq_ok_iff]
  constructor
  · rintro ⟨_, value, hvalue, lenght, hlenght, -⟩
    exact ⟨lenght, value, hvalue, hlenght⟩
  · rintro ⟨lenght, value, hvalue, hlenght⟩
    exact ⟨_, value, hvalue, lenght, hlenght, rfl⟩

theorem not_safe_roadDistances_iff {mapLenght : Dict Double} :
    ¬ Safe (roadDistances mapLenght) ↔
      FirstAt (fun member => HasAbs member.2) (fun member => LacksAbs member.2) mapLenght := by
  rw [roadDistances, safe_mapM_iff, not_not]
  refine firstAt_congr (fun member => exists_roadDistance_iff) fun member => ?_
  rw [← not_safe_abs_iff]
  simp only [safe_bind_iff]
  have hpair (lenght : UInt32) :
      Safe (pure (member.1, lenght) : Except Failure (Str × UInt32)) := safe_ok _
  simp only [hpair, implies_true, and_true]

theorem safe_stopFields (description : Node Double) : Safe (stopFields description) := by
  simp only [stopFields, safe_bind_iff, safe_asDict, safe_require, safe_get, safe_asString,
    safe_asDouble, true_and]
  intros
  exact safe_ok _

theorem exists_asDouble_iff {node : Node Double} :
    (∃ value, node.asDouble = .ok value) ↔ IsNumber node := by
  cases node <;> simp [Node.asDouble, IsNumber]

theorem stopFields_eq_ok_iff {dict mapLenght : Dict Double} :
    (∃ name location, stopFields (.dict dict) = .ok (name, location, mapLenght)) ↔
      ∃ (name : Str) (latitude longitude : Node Double),
        dict.find "name".toList = some (.string name) ∧
        dict.find "latitude".toList = some latitude ∧ IsNumber latitude ∧
        dict.find "longitude".toList = some longitude ∧ IsNumber longitude ∧
        dict.find "road_distances".toList = some (.dict mapLenght) := by
  constructor
  · rintro ⟨name, location, h⟩
    simp only [stopFields, bind_eq_ok_iff, Node.asDict_eq_ok_iff, Dict.get_eq_ok_iff,
      Node.asString_eq_ok_iff] at h
    obtain ⟨_, hdict, _, -, _, -, _, -, _, -, _, hname, name, rfl, latitude, hlatitude, _, hnumber,
      longitude, hlongitude, _, hnumber', _, hlenght, mapLenght, rfl, h⟩ := h
    cases hdict
    cases h
    exact ⟨name, latitude, longitude, hname, hlatitude, exists_asDouble_iff.mp ⟨_, hnumber⟩,
      hlongitude, exists_asDouble_iff.mp ⟨_, hnumber'⟩, hlenght⟩
  · rintro ⟨name, latitude, longitude, hname, hlatitude, hnumber, hlongitude, hnumber', hlenght⟩
    obtain ⟨lat, hlat⟩ := exists_asDouble_iff.mpr hnumber
    obtain ⟨lng, hlng⟩ := exists_asDouble_iff.mpr hnumber'
    refine ⟨name, ⟨lat, lng⟩, ?_⟩
    simp only [stopFields, Node.asDict, ok_bind, require_of_find hname, require_of_find hlatitude,
      require_of_find hlongitude, require_of_find hlenght, Dict.get_eq_ok_iff.mpr hname,
      Dict.get_eq_ok_iff.mpr hlatitude, Dict.get_eq_ok_iff.mpr hlongitude,
      Dict.get_eq_ok_iff.mpr hlenght, Node.asString, hlat, hlng]
    rfl

theorem not_safe_stopCalls_iff {dict : Dict Double} :
    ¬ Safe (stopCalls (.dict dict)) ↔ ∃ name location mapLenght,
      stopFields (.dict dict) = .ok (name, location, mapLenght) ∧
        FirstAt (fun member => HasAbs member.2) (fun member => LacksAbs member.2) mapLenght := by
  simp only [stopCalls, not_safe_bind_iff, safe_stopFields, not_true_eq_false, false_or,
    not_safe_roadDistances_iff]
  constructor
  · rintro ⟨⟨name, location, mapLenght⟩, hfields, h | ⟨lenghts, -, h⟩⟩
    · exact ⟨name, location, mapLenght, hfields, h⟩
    · exact absurd (safe_ok _) h
  · rintro ⟨name, location, mapLenght, hfields, h⟩
    exact ⟨_, hfields, .inl h⟩

theorem isString_iff {node : Node Double} {value : Str} :
    node.isString value = true ↔ node = .string value := by
  cases node <;> simp [Node.isString]

theorem not_safe_secondPass_iff {description : Node Double} :
    ¬ Safe (secondPass description) ↔ FlawedStop description := by
  simp only [secondPass, not_safe_bind_iff, safe_asDict, safe_get, not_true_eq_false, false_or,
    Node.asDict_eq_ok_iff, Dict.get_eq_ok_iff]
  constructor
  · rintro ⟨dict, rfl, type, htype, h⟩
    split at h
    · rename_i hstop
      rw [isString_iff.mp hstop] at htype
      obtain ⟨name, location, mapLenght, hfields, hflawed⟩ := not_safe_stopCalls_iff.mp h
      obtain ⟨name, latitude, longitude, hname, hlatitude, hnumber, hlongitude, hnumber',
        hlenght⟩ := stopFields_eq_ok_iff.mp ⟨name, location, hfields⟩
      exact ⟨dict, name, latitude, longitude, mapLenght, rfl, htype, hname, hlatitude, hnumber,
        hlongitude, hnumber', hlenght, hflawed⟩
    · exact absurd (safe_ok _) h
  · rintro ⟨dict, name, latitude, longitude, mapLenght, rfl, htype, hname, hlatitude, hnumber,
      hlongitude, hnumber', hlenght, hflawed⟩
    obtain ⟨name, location, hfields⟩ := stopFields_eq_ok_iff.mpr
      ⟨name, latitude, longitude, hname, hlatitude, hnumber, hlongitude, hnumber', hlenght⟩
    refine ⟨dict, rfl, _, htype, ?_⟩
    rw [if_pos (isString_iff.mpr rfl)]
    exact not_safe_stopCalls_iff.mpr ⟨name, location, mapLenght, hfields, hflawed⟩

theorem safe_firstPass (description : Node Double) : Safe (firstPass description) := by
  have hcall : Safe (busCall description) := by
    simp only [busCall, safe_bind_iff, safe_asDict, safe_require, safe_get, safe_asString,
      safe_asBool, safe_asArray, true_and]
    intros
    exact ⟨safe_mapM fun _ _ => safe_asString, fun _ _ => safe_ok _⟩
  simp only [firstPass, safe_bind_iff, safe_asDict, safe_require, safe_get, true_and]
  intro dict _ _ _ type _
  split
  · exact safe_bind_iff.mpr ⟨hcall, fun _ _ => safe_ok _⟩
  · exact safe_ok _

/-- A pass fails as its elements do, whatever the catalogue. -/
theorem read_eq {pass : Node Double → Except Failure (List TransportCatalogue.Call)}
    {read : List (Node Double) → TransportCatalogue → Except Failure TransportCatalogue}
    (hnil : ∀ catalogue, read [] catalogue = .ok catalogue)
    (hcons : ∀ catalogue, catalogue.Inv → ∀ description rest,
      read (description :: rest) catalogue = (do
        let calls ← pass description
        read rest (calls.foldl step catalogue)))
    {catalogue : TransportCatalogue} (h : catalogue.Inv) (document : List (Node Double)) :
    read document catalogue = (do
      let calls ← document.mapM pass
      pure (calls.flatten.foldl step catalogue)) := by
  induction document generalizing catalogue with
  | nil => exact hnil catalogue
  | cons description rest ih =>
      rw [hcons catalogue h, List.mapM_cons]
      simp only [bind_assoc, pure_bind, List.flatten_cons, List.foldl_append]
      refine bind_congr fun calls => ih ?_
      exact Library.Runs.invariant_foldl step TransportCatalogue.Inv
        (fun _ c hc => TransportCatalogue.step_inv hc c) h calls

theorem baseRequests_eq (document : List (Node Double)) :
    baseRequests document = (do
      let buses ← document.mapM firstPass
      let stops ← document.mapM secondPass
      pure (TransportCatalogue.run (buses ++ stops).flatten)) := by
  rw [baseRequests, read_eq (fun _ => rfl) (fun _ hc => readBuses_cons hc.toStoreInv)
    TransportCatalogue.empty_inv]
  simp only [bind_assoc, pure_bind]
  refine bind_congr fun buses => ?_
  have hbuses : (buses.flatten.foldl step TransportCatalogue.empty).Inv :=
    run_inv buses.flatten
  rw [read_eq (fun _ => rfl) (fun _ hc => readStops_cons hc) hbuses]
  simp only [List.flatten_append, TransportCatalogue.run, List.foldl_append]

theorem not_safe_baseRequests_iff {document : List (Node Double)} :
    ¬ Safe (baseRequests document) ↔ FlawedRequests document := by
  have hfirst : Safe (document.mapM firstPass) := safe_mapM fun d _ => safe_firstPass d
  have hsecond : ¬ Safe (document.mapM secondPass) ↔
      FirstAt (fun d => ∃ calls, secondPass d = .ok calls) FlawedStop document := by
    rw [safe_mapM_iff, not_not]
    exact firstAt_congr (fun _ => Iff.rfl) fun _ => not_safe_secondPass_iff
  rw [baseRequests_eq, not_safe_bind_iff, FlawedRequests, ← exists_mapM_iff, ← hsecond]
  simp only [not_safe_bind_iff, hfirst, not_true_eq_false, false_or]
  constructor
  · rintro ⟨buses, hbuses, h | ⟨stops, -, h⟩⟩
    · exact ⟨⟨buses, hbuses⟩, h⟩
    · exact absurd (safe_ok _) h
  · rintro ⟨⟨buses, hbuses⟩, h⟩
    exact ⟨buses, hbuses, .inl h⟩

/-- An array of colors, which may be empty. -/
def Member.colors (flawed : Node Double → Prop) (key : String) : Member where
  key := key
  fine node := ∃ colors, node = .array colors ∧ ∀ color ∈ colors, FineColor color
  flawed node := ∃ colors, node = .array colors ∧ FirstFlawedColor flawed colors

/-- The members in the order in which they are read, without the condition of
the renderer on the palette. -/
def readMembers (flawedColor : Node Double → Prop) : List Member :=
  (mapMembers flawedColor).dropLast ++ [.colors flawedColor "color_palette"]

/-- The first member of the settings that is not fine is an offset or a color
that is too short. -/
def FlawedRender (document : Node Double) : Prop :=
  ∃ map, document = .dict map ∧ FirstFlawed map (readMembers ShortColor)

section Render

variable {map : Dict Double} {key : String} {order : ArgumentOrder}

theorem reaches_colors :
    Reaches (fun array => Reaches (fun _ => False) (array.mapM (readerColor order)))
        (arrayAt map key) ↔
      (Member.colors (FlawedColor order) key).Reached map False := by
  simp only [arrayAt, reaches_bind, reaches_get, reaches_asArray, reaches_mapM, Member.Reached,
    Member.colors, and_false, or_false]

theorem readerMapSettings_eq_undefined_iff (document : Node Double) :
    readerMapSettings order document = .error .undefinedBehaviour ↔
      ∃ map, document = .dict map ∧ FirstFlawed map (readMembers (FlawedColor order)) := by
  have hreaches : readerMapSettings order document = .error .undefinedBehaviour ↔
      Reaches (fun _ => False) (readerMapSettings order document) := by
    rw [reaches_const, and_false, or_false]
  rw [hreaches]
  unfold readerMapSettings readMembers mapMembers
  simp only [reaches_bind, reaches_pure, reaches_colors, reaches_color, reaches_doubleAt,
    reaches_intAt, reaches_offset, FirstFlawed, List.dropLast_cons_cons, List.dropLast_singleton,
    List.cons_append, List.nil_append]
  cases document <;> simp [Reaches, Node.asDict]

def Ends {A : Type} (x : Except Failure A) : Prop := x ≠ .error .diverges

theorem ends_of_safe {A : Type} {x : Except Failure A} (h : Safe x) : Ends x := (safe_iff.mp h).2

theorem ends_bind {A B : Type} {x : Except Failure A} {f : A → Except Failure B} (hx : Ends x)
    (hf : ∀ a, Ends (f a)) : Ends (x >>= f) := by
  intro h
  rcases bind_eq_error_iff.mp h with h | ⟨a, -, h⟩
  · exact hx h
  · exact hf a h

theorem ends_pure {A : Type} (a : A) : Ends (pure a : Except Failure A) := ends_of_safe (safe_ok a)

theorem ends_mapM {A B : Type} {f : A → Except Failure B} (hf : ∀ a, Ends (f a)) (l : List A) :
    Ends (l.mapM f) := by
  induction l with
  | nil => exact ends_pure []
  | cons a l ih =>
      rw [List.mapM_cons]
      exact ends_bind (hf a) fun b => ends_bind ih fun bs => ends_pure _

theorem ends_item (array : List (Node Double)) (i : ℕ) : Ends (item array i) := by
  intro h
  unfold item at h
  split at h
  · cases h
  · cases h

theorem ends_item_asDouble (array : List (Node Double)) (i : ℕ) :
    Ends (do (← item array i).asDouble) :=
  ends_bind (ends_item array i) fun _ => ends_of_safe safe_asDouble

theorem ends_colorPart (array : List (Node Double)) (i : ℕ) : Ends (colorPart array i) :=
  ends_bind (ends_item array i) fun _ => ends_bind (ends_of_safe safe_asInt) fun _ => ends_pure _

theorem ends_evaluate {arguments : List (Except Failure Unit)}
    (h : ∀ argument ∈ arguments, Ends argument) : Ends (order.evaluate arguments) :=
  fun heq => h _ (evaluate_eq_error heq) rfl

theorem ends_argument {A : Type} {x : Except Failure A} (h : Ends x) :
    Ends (ArgumentOrder.argument x) :=
  ends_bind h fun _ => ends_pure _

theorem ends_colorArguments (array : List (Node Double)) :
    ∀ argument ∈ colorArguments array, Ends argument := by
  have hpart (i : ℕ) : Ends (ArgumentOrder.argument (colorPart array i)) :=
    ends_argument (ends_colorPart array i)
  unfold colorArguments
  split
  · simp only [List.forall_mem_cons]
    exact ⟨hpart 0, hpart 1, hpart 2, ends_argument (ends_item_asDouble array 3), by simp⟩
  · simp only [List.forall_mem_cons]
    exact ⟨hpart 0, hpart 1, hpart 2, by simp⟩

theorem ends_readerColor (node : Node Double) : Ends (readerColor order node) := by
  cases node with
  | string value => exact ends_pure _
  | array array =>
      obtain ⟨x, heq, hx⟩ := readerColor_array order array
      rw [heq]
      intro h
      rcases bind_eq_error_iff.mp h with h | ⟨⟨⟩, heval, h⟩
      · exact ends_evaluate (ends_colorArguments array) h
      · obtain ⟨color, hcolor⟩ := hx (evaluate_eq_ok_iff.mp heval)
        rw [hcolor] at h
        cases h
  | null | dict | bool | int | double =>
      intro h
      cases h

theorem ends_readerMapSettings (document : Node Double) :
    Ends (readerMapSettings order document) := by
  have hdouble (map : Dict Double) (key : String) : Ends (doubleAt map key) :=
    ends_bind (ends_of_safe safe_get) fun _ => ends_of_safe safe_asDouble
  have hoffset (array : List (Node Double)) : Ends (readerOffset array) := by
    simp only [readerOffset, ← bind_assoc (item array _)]
    exact ends_bind (ends_item_asDouble array 0) fun _ =>
      ends_bind (ends_item_asDouble array 1) fun _ => ends_pure _
  have hint (map : Dict Double) (key : String) : Ends (intAt map key) := ends_of_safe safe_intAt
  have harray (map : Dict Double) (key : String) : Ends (arrayAt map key) :=
    ends_of_safe safe_arrayAt
  refine ends_bind (ends_of_safe safe_asDict) fun map => ?_
  refine ends_bind (hdouble map _) fun _ => ends_bind (hdouble map _) fun _ => ?_
  refine ends_bind (hdouble map _) fun _ => ends_bind (hdouble map _) fun _ => ?_
  refine ends_bind (hdouble map _) fun _ => ends_bind (hint map _) fun _ => ?_
  refine ends_bind (harray map _) fun array => ends_bind (hoffset array) fun _ => ?_
  refine ends_bind (hint map _) fun _ => ?_
  refine ends_bind (harray map _) fun array => ends_bind (hoffset array) fun _ => ?_
  refine ends_bind (hdouble map _) fun _ => ?_
  refine ends_bind (ends_of_safe safe_get) fun color => ?_
  refine ends_bind (ends_readerColor color) fun _ => ?_
  refine ends_bind (harray map _) fun array => ?_
  exact ends_bind (ends_mapM ends_readerColor array) fun _ => ends_pure _

theorem safe_readerMapSettings_iff (document : Node Double) :
    (∀ order, Safe (readerMapSettings order document)) ↔ ¬ FlawedRender document := by
  have hmono {flawed flawed' : Node Double → Prop} (h : ∀ node, flawed node → flawed' node)
      {map : Dict Double} (hmap : FirstFlawed map (readMembers flawed)) :
      FirstFlawed map (readMembers flawed') := by
    have hcolor : Member.Weaker (.color flawed "underlayer_color")
        (.color flawed' "underlayer_color") := ⟨rfl, rfl, h⟩
    have hcolors : Member.Weaker (.colors flawed "color_palette")
        (.colors flawed' "color_palette") :=
      ⟨rfl, rfl, fun _ ⟨colors, heq, hcolors⟩ => ⟨colors, heq, hcolors.mono h⟩⟩
    exact hmap.mono (.cons (.refl _) (.cons (.refl _) (.cons (.refl _) (.cons (.refl _)
      (.cons (.refl _) (.cons (.refl _) (.cons (.refl _) (.cons (.refl _) (.cons (.refl _)
        (.cons (.refl _) (.cons hcolor (.cons hcolors .nil))))))))))))
  constructor
  · rintro hsafe ⟨map, rfl, hflawed⟩
    refine (safe_iff.mp (hsafe .lastToFirst)).1 ((readerMapSettings_eq_undefined_iff _).mpr ?_)
    exact ⟨map, rfl, hmono (fun _ => readerColor_of_shortColor) hflawed⟩
  · intro hflawed order
    refine safe_iff.mpr ⟨fun h => hflawed ?_, ends_readerMapSettings document⟩
    obtain ⟨map, hmap, h⟩ := (readerMapSettings_eq_undefined_iff document).mp h
    exact ⟨map, hmap, hmono (fun _ => shortColor_of_readerColor) h⟩

end Render

theorem safe_readerRoutingSetings (document : Node Double) :
    Safe (readerRoutingSetings document) := by
  have hthrow (what : String) (rest : Except Failure RoutingSettings) :
      Safe (do throw (Failure.invalidArgument what); rest) := by
    rintro failure ⟨⟩
    trivial
  refine safe_bind_iff.mpr ⟨safe_asDict, fun dict _ => ?_⟩
  by_cases htime : (dict.find "bus_wait_time".toList).isNone = true
  · rw [if_pos htime]
    exact hthrow _ _
  · rw [if_neg htime]
    by_cases hvelocity : (dict.find "bus_velocity".toList).isNone = true
    · rw [if_pos hvelocity]
      exact hthrow _ _
    · rw [if_neg hvelocity]
      exact safe_bind_iff.mpr ⟨safe_intAt, fun _ _ =>
        safe_bind_iff.mpr ⟨safe_intAt, fun _ _ => safe_ok _⟩⟩

theorem safe_make {db : TransportCatalogue} (hdb : StoreInv db) (rs : RoutingSettings) :
    Safe (make rs db : Except Failure (TransportRouter Double)) := by
  rcases TransportRouter.createGraph_spec (W := Double) rs hdb with
    ⟨-, s, hgraph, hs, -⟩ | ⟨-, hgraph⟩
  · refine safe_bind_iff.mpr ⟨safe_of_exists ⟨s, hgraph⟩, fun s' hs' => ?_⟩
    cases hgraph.symm.trans hs'
    refine safe_bind_iff.mpr ⟨?_, fun _ _ => safe_ok _⟩
    rcases Graph.Router.ofGraph_spec hs.graph with ⟨router, hrouter, -⟩ | ⟨hrouter, -⟩
    · exact safe_of_exists ⟨router, hrouter⟩
    · rintro failure hfailure
      cases hrouter.symm.trans hfailure
      trivial
  · rintro failure hfailure
    rcases bind_eq_error_iff.mp hfailure with h | ⟨s, h, -⟩
    · cases hgraph.symm.trans h
      trivial
    · cases hgraph.symm.trans h

/-- A description that is read up to a flaw. -/
def FlawedQuery (query : Node Double) : Prop :=
  ∃ (dict : Dict Double) (document : List (Node Double)), query = .dict dict ∧
    dict.find "base_requests".toList = some (.array document) ∧
    (FlawedRequests document ∨ ∃ (db : TransportCatalogue) (routing render : Node Double)
      (rs : RoutingSettings) (tr : TransportRouter Double), baseRequests document = .ok db ∧
      dict.find "routing_settings".toList = some routing ∧ readerRoutingSetings routing = .ok rs ∧
      make rs db = .ok tr ∧ dict.find "render_settings".toList = some render ∧ FlawedRender render)

theorem arrayAt_eq_ok_iff {dict : Dict Double} {key : String} {array : List (Node Double)} :
    arrayAt dict key = .ok array ↔ dict.find key.toList = some (.array array) := by
  simp only [arrayAt, bind_eq_ok_iff, Dict.get_eq_ok_iff]
  constructor
  · rintro ⟨node, hfind, harray⟩
    cases node with
    | array items =>
        cases harray
        exact hfind
    | null | dict | bool | int | double | string => cases harray
  · intro hfind
    exact ⟨_, hfind, rfl⟩

theorem safe_described_iff (query : Node Double) :
    (∀ order, Safe (described order query)) ↔ ¬ FlawedQuery query := by
  constructor
  · rintro h ⟨dict, document, rfl, hdocument, hflawed⟩
    simp only [described, safe_bind_iff] at h
    have hrequests := fun order =>
      ((h order).2 dict rfl).2 document (arrayAt_eq_ok_iff.mpr hdocument)
    rcases hflawed with hflawed |
      ⟨db, routing, render, rs, tr, hdb, hrouting, hrs, hmake, hrender, hflawed⟩
    · exact not_safe_baseRequests_iff.mpr hflawed (hrequests .firstToLast).1
    · refine (safe_readerMapSettings_iff render).mp (fun order => ?_) hflawed
      exact (((((hrequests order).2 db hdb).2 routing (Dict.get_eq_ok_iff.mpr hrouting)).2 rs hrs).2
        tr hmake).2 render (Dict.get_eq_ok_iff.mpr hrender) |>.1
  · intro h order
    simp only [described, safe_bind_iff, safe_asDict, safe_arrayAt, safe_get,
      safe_readerRoutingSetings, true_and]
    intro dict hdict document hdocument
    cases Node.asDict_eq_ok_iff.mp hdict
    have hflawed (hrest : _) : False :=
      h ⟨dict, document, rfl, arrayAt_eq_ok_iff.mp hdocument, hrest⟩
    refine ⟨?_, fun db hdb routing hrouting rs hrs => ⟨?_, fun tr htr render hrender => ⟨?_, ?_⟩⟩⟩
    · exact not_not.mp fun hbase => hflawed (.inl (not_safe_baseRequests_iff.mp hbase))
    · obtain ⟨-, rfl⟩ := (baseRequests_eq_ok_iff _ _).mp hdb
      exact safe_make (run_inv _).toStoreInv rs
    · refine (safe_readerMapSettings_iff render).mpr (fun hrender' => hflawed (.inr ?_)) order
      exact ⟨db, routing, render, rs, tr, hdb, Dict.get_eq_ok_iff.mp hrouting, hrs, htr,
        Dict.get_eq_ok_iff.mp hrender, hrender'⟩
    · exact fun _ _ => safe_ok _

/-- What is known of a description that was accepted. -/
theorem exists_made {order : ArgumentOrder} {query : Node Double} {db : TransportCatalogue}
    {settings : MapSettings} {tr : TransportRouter Double}
    (h : described order query = .ok (db, settings, tr)) :
    StoreInv db ∧ ∃ rs, TransportRouter.Made rs db tr := by
  simp only [described, bind_eq_ok_iff] at h
  obtain ⟨dict, -, document, -, catalogue, hcatalogue, _, -, rs, -, router, hmake, _, -,
    mapSettings, -, h⟩ := h
  cases h
  obtain ⟨-, rfl⟩ := (baseRequests_eq_ok_iff _ _).mp hcatalogue
  have hdb := (run_inv (allCalls document)).toStoreInv
  exact ⟨hdb, rs, TransportRouter.make_made hdb hmake⟩

/-- What was read can be saved. -/
theorem exists_serialization {order : ArgumentOrder} {query : Node Double}
    {description : TransportCatalogue × MapSettings × TransportRouter Double}
    (h : described order query = .ok description) (protobuf : Protobuf Double)
    (saving : SavingOrder Double) :
    ∃ out, serialization protobuf saving description.1 ⟨description.2.1⟩ description.2.2 =
      .ok out := by
  obtain ⟨hdb, rs, htr⟩ := exists_made h
  exact ⟨_, bind_eq_ok_iff.mpr ⟨_, TransportCatalogue.saveToProto_spec hdb _,
    bind_eq_ok_iff.mpr ⟨_, TransportRouter.saveToProto_spec htr hdb _ _, rfl⟩⟩⟩

section Base

variable {protobuf : Protobuf Double} {order : ArgumentOrder} {saving : SavingOrder Double}
  {query : Node Double}

theorem safe_base_iff :
    Safe (base protobuf order saving query) ↔ Safe (described order query) := by
  rw [base_eq, safe_bind_iff]
  exact and_iff_left fun description h => safe_of_exists (exists_serialization h protobuf saving)

theorem exists_base_iff : (∃ out, base protobuf order saving query = .ok out) ↔
    ∃ description, described order query = .ok description := by
  simp only [base_eq, bind_eq_ok_iff]
  constructor
  · rintro ⟨out, description, h, -⟩
    exact ⟨description, h⟩
  · rintro ⟨description, h⟩
    obtain ⟨out, hout⟩ := exists_serialization h protobuf saving
    exact ⟨out, description, h, hout⟩

end Base

end JsonReader

end TransportSystem
