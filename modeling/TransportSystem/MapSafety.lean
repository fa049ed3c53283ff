import TransportSystem.JsonSettings
import TransportSystem.MapObjects

namespace TransportSystem

open Library.UniqueKeys
open TransportCatalogue (StoreInv Call run run_inv popBack)

namespace RequestHandler

variable {db : TransportCatalogue} {it : Iteration Str BusPtr} {render : MapRender}

theorem paletteColor_of_nil (h : render.settings.colorPalette = []) (colorCounter : ℕ) :
    render.paletteColor colorCounter = .error .undefinedBehaviour := by
  simp [MapRender.paletteColor, h]

/-- Without colors, a bus that is visited cannot be drawn. -/
theorem renderMap_of_nil (h : render.settings.colorPalette = []) (hvisits : visits it db ≠ []) :
    renderMap it db render = .error .undefinedBehaviour := by
  unfold renderMap
  dsimp only
  generalize SphereProjector.ofPoints _ _ _ _ = projector
  obtain ⟨name, names, hnames⟩ : ∃ name names,
      setOfNames ((visits it db).map fun e => e.1) = name :: names := by
    obtain ⟨e, he⟩ := List.exists_mem_of_ne_nil _ hvisits
    exact List.exists_cons_of_ne_nil (List.ne_nil_of_mem
      (mem_setOfNames.mpr (List.mem_map_of_mem he)))
  have hname : name ∈ (visits it db).map fun e => e.1 := mem_setOfNames.mp (by simp [hnames])
  obtain ⟨bus, hfind, -⟩ := exists_findBus_of_visits hname
  have hway : addWay db render projector {} (name, 0) = .error .undefinedBehaviour := by
    refine bind_eq_error_iff.mpr (.inr ⟨bus, hfind, bind_eq_error_iff.mpr (.inl ?_)⟩)
    exact bind_eq_error_iff.mpr (.inl (paletteColor_of_nil h 0))
  rw [hnames, List.zipIdx_cons, List.foldlM_cons, hway]
  rfl

end RequestHandler

namespace JsonReader

open Json

section Reaches

variable {A B : Type} {p : B → Prop}

/-- A computation leaves the bounds of an array, or returns something with the
property `p`. -/
def Reaches (p : A → Prop) : Except Failure A → Prop
  | .ok a => p a
  | .error failure => failure = .undefinedBehaviour

theorem reaches_bind (x : Except Failure A) (f : A → Except Failure B) :
    Reaches p (x >>= f) ↔ Reaches (fun a => Reaches p (f a)) x := by
  cases x <;> exact Iff.rfl

theorem reaches_pure (b : B) : Reaches p (pure b) ↔ p b := Iff.rfl

end Reaches

def IsInt : Node Double → Prop
  | .int _ => True
  | _ => False

def IsNumber : Node Double → Prop
  | .int _ => True
  | .double _ => True
  | _ => False

def FineOffset (node : Node Double) : Prop :=
  ∃ first second rest, node = .array (first :: second :: rest) ∧ IsNumber first ∧ IsNumber second

/-- An offset with no second element, as far as it is read. -/
def ShortOffset (node : Node Double) : Prop :=
  node = .array [] ∨ ∃ first, node = .array [first] ∧ IsNumber first

/-- A string, or an array of three integers, with a number if it has exactly
four elements. -/
def FineColor (node : Node Double) : Prop :=
  (∃ value, node = .string value) ∨ ∃ red green blue rest,
    node = .array (red :: green :: blue :: rest) ∧ IsInt red ∧ IsInt green ∧ IsInt blue ∧
      ∀ opacity, rest = [opacity] → IsNumber opacity

def ShortColor (node : Node Double) : Prop := ∃ array, node = .array array ∧ array.length < 3

/-- The first color that is not fine is flawed. -/
def FirstFlawedColor (flawed : Node Double → Prop) : List (Node Double) → Prop
  | [] => False
  | node :: nodes => flawed node ∨ FineColor node ∧ FirstFlawedColor flawed nodes

/-- A member of the settings: its values with which the reader goes on, and
those on which it fails badly. On other values it throws. -/
structure Member where
  key : String
  fine : Node Double → Prop
  flawed : Node Double → Prop

namespace Member

def int (key : String) : Member := ⟨key, IsInt, fun _ => False⟩

def number (key : String) : Member := ⟨key, IsNumber, fun _ => False⟩

def offset (key : String) : Member := ⟨key, FineOffset, ShortOffset⟩

def color (flawed : Node Double → Prop) (key : String) : Member := ⟨key, FineColor, flawed⟩

/-- An array of colors, which must not be empty. -/
def palette (flawed : Node Double → Prop) (key : String) : Member where
  key := key
  fine node := ∃ colors, node = .array colors ∧ colors ≠ [] ∧ ∀ color ∈ colors, FineColor color
  flawed node := ∃ colors, node = .array colors ∧ (colors = [] ∨ FirstFlawedColor flawed colors)

/-- A member is flawed, or it is fine and `next` holds of what is read next. -/
def Reached (member : Member) (map : Dict Double) (next : Prop) : Prop :=
  ∃ node, map.find member.key.toList = some node ∧ (member.flawed node ∨ member.fine node ∧ next)

end Member

/-- The members in the order in which they are read. -/
def mapMembers (flawedColor : Node Double → Prop) : List Member :=
  [.number "width", .number "height", .number "padding", .number "line_width",
    .number "stop_radius", .int "bus_label_font_size", .offset "bus_label_offset",
    .int "stop_label_font_size", .offset "stop_label_offset", .number "underlayer_width",
    .color flawedColor "underlayer_color", .palette flawedColor "color_palette"]

/-- The first member that is not fine is flawed. -/
def FirstFlawed (map : Dict Double) : List Member → Prop
  | [] => False
  | member :: members => member.Reached map (FirstFlawed map members)

section Readers

variable {map : Dict Double} {key : String} {q : Prop} {order : ArgumentOrder}

theorem reaches_get {p : Node Double → Prop} :
    Reaches p (map.get key.toList) ↔ ∃ node, map.find key.toList = some node ∧ p node := by
  unfold Dict.get
  cases map.find key.toList <;> simp [Reaches]

theorem reaches_asInt {node : Node Double} :
    Reaches (fun _ => q) node.asInt ↔ IsInt node ∧ q := by
  cases node <;> simp [Reaches, Node.asInt, IsInt]

theorem reaches_asDouble {node : Node Double} :
    Reaches (fun _ => q) node.asDouble ↔ IsNumber node ∧ q := by
  cases node <;> simp [Reaches, Node.asDouble, IsNumber]

theorem reaches_intAt :
    Reaches (fun _ => q) (intAt map key) ↔ (Member.int key).Reached map q := by
  simp only [intAt, reaches_bind, reaches_get, reaches_asInt, Member.Reached, Member.int, false_or]

theorem reaches_doubleAt :
    Reaches (fun _ => q) (doubleAt map key) ↔ (Member.number key).Reached map q := by
  simp only [doubleAt, reaches_bind, reaches_get, reaches_asDouble, Member.Reached, Member.number,
    false_or]

theorem reaches_asArray {node : Node Double} {p : List (Node Double) → Prop} :
    Reaches p node.asArray ↔ ∃ array, node = .array array ∧ p array := by
  cases node <;> simp [Reaches, Node.asArray]

theorem reaches_item {array : List (Node Double)} {i : ℕ} {p : Node Double → Prop} :
    Reaches p (item array i) ↔ ∀ node, array[i]? = some node → p node := by
  unfold item
  cases array[i]? <;> simp [Reaches]

theorem reaches_readerOffset (array : List (Node Double)) :
    Reaches (fun _ => q) (readerOffset array) ↔
      ShortOffset (.array array) ∨ FineOffset (.array array) ∧ q := by
  simp only [readerOffset, reaches_bind, reaches_item, reaches_pure, reaches_asDouble]
  rcases array with _ | ⟨first, _ | ⟨second, rest⟩⟩
  · simp [ShortOffset, FineOffset]
  · simp [ShortOffset, FineOffset]
  · simp [ShortOffset, FineOffset, and_assoc]

theorem reaches_offset :
    Reaches (fun array => Reaches (fun _ => q) (readerOffset array)) (arrayAt map key) ↔
      (Member.offset key).Reached map q := by
  simp only [arrayAt, reaches_bind, reaches_get, reaches_asArray, reaches_readerOffset,
    Member.Reached, Member.offset]
  refine exists_congr fun node => and_congr_right fun _ => ?_
  constructor
  · rintro ⟨array, rfl, h⟩
    exact h
  · rintro (h | ⟨⟨first, second, rest, rfl, h⟩, hq⟩)
    · rcases h with rfl | ⟨first, rfl, h⟩
      · exact ⟨_, rfl, .inl (.inl rfl)⟩
      · exact ⟨_, rfl, .inl (.inr ⟨first, rfl, h⟩)⟩
    · exact ⟨_, rfl, .inr ⟨⟨first, second, rest, rfl, h⟩, hq⟩⟩

end Readers

section Color

variable {order : ArgumentOrder} {arguments : List (Except Failure Unit)}
  {array : List (Node Double)}

theorem evaluate_eq_ok_iff :
    order.evaluate arguments = .ok () ↔ ∀ argument ∈ arguments, argument = .ok () := by
  rw [ArgumentOrder.evaluate, forM_eq_ok_iff]
  simp only [(order.perm arguments.length).mem_iff, List.mem_range]
  constructor
  · intro h argument hmem
    obtain ⟨i, hi, rfl⟩ := List.getElem_of_mem hmem
    rw [← h i hi, List.getD_eq_getElem _ _ hi]
  · intro h i hi
    rw [List.getD_eq_getElem _ _ hi]
    exact h _ (List.getElem_mem hi)

theorem evaluate_eq_error {failure : Failure} (h : order.evaluate arguments = .error failure) :
    .error failure ∈ arguments := by
  obtain ⟨i, hi, hf⟩ := forM_eq_error h
  have hlt : i < arguments.length := by
    simpa using (order.perm arguments.length).mem_iff.mp hi
  rw [List.getD_eq_getElem _ _ hlt] at hf
  exact hf ▸ List.getElem_mem hlt

theorem exists_colorPart_iff {i : ℕ} :
    (∃ part, colorPart array i = .ok part) ↔ ∃ node, array[i]? = some node ∧ IsInt node := by
  unfold colorPart item
  cases array[i]? with
  | none => simp [bind, Except.bind]
  | some node => cases node <;> simp [bind, Except.bind, pure, Except.pure, Node.asInt, IsInt]

/-- Only the access to the element itself can leave the array. -/
theorem length_le_of_item {A : Type} {i : ℕ} {f : Node Double → Except Failure A}
    (hf : ∀ node, f node ≠ .error .undefinedBehaviour)
    (h : (item array i >>= f) = .error .undefinedBehaviour) : array.length ≤ i := by
  rcases bind_eq_error_iff.mp h with hitem | ⟨node, -, hnode⟩
  · unfold item at hitem
    cases hi : array[i]? with
    | none => exact List.getElem?_eq_none_iff.mp hi
    | some node =>
        rw [hi] at hitem
        cases hitem
  · exact absurd hnode (hf node)

theorem length_le_of_colorPart {i : ℕ} (h : colorPart array i = .error .undefinedBehaviour) :
    array.length ≤ i := by
  refine length_le_of_item (fun node hnode => ?_) h
  cases node <;> cases hnode

theorem argument_eq_ok_iff {A : Type} {x : Except Failure A} :
    ArgumentOrder.argument x = .ok () ↔ ∃ a, x = .ok a := by
  simp [ArgumentOrder.argument, bind_eq_ok_iff, pure, Except.pure]

theorem argument_eq_error_iff {A : Type} {x : Except Failure A} {failure : Failure} :
    ArgumentOrder.argument x = .error failure ↔ x = .error failure := by
  simp [ArgumentOrder.argument, bind_eq_error_iff, pure, Except.pure]

theorem exists_item_asDouble_iff {i : ℕ} :
    (∃ value, (do (← item array i).asDouble : Except Failure Double) = .ok value) ↔
      ∃ node, array[i]? = some node ∧ IsNumber node := by
  unfold item
  cases array[i]? with
  | none => simp [bind, Except.bind]
  | some node => cases node <;> simp [bind, Except.bind, Node.asDouble, IsNumber]

theorem length_le_of_item_asDouble {i : ℕ}
    (h : (do (← item array i).asDouble : Except Failure Double) = .error .undefinedBehaviour) :
    array.length ≤ i := by
  refine length_le_of_item (fun node hnode => ?_) h
  cases node <;> cases hnode

theorem fineColor_array_iff :
    FineColor (.array array) ↔ (∃ node, array[0]? = some node ∧ IsInt node) ∧
      (∃ node, array[1]? = some node ∧ IsInt node) ∧ (∃ node, array[2]? = some node ∧ IsInt node) ∧
        (array.length = 4 → ∃ node, array[3]? = some node ∧ IsNumber node) := by
  rcases array with _ | ⟨red, _ | ⟨green, _ | ⟨blue, rest⟩⟩⟩
  · simp [FineColor]
  · simp [FineColor]
  · simp [FineColor]
  · rcases rest with _ | ⟨opacity, _ | ⟨fifth, rest⟩⟩
    · simp [FineColor, and_assoc]
    · simp [FineColor, and_assoc]
    · simp [FineColor, and_assoc]

def colorArguments (array : List (Node Double)) : List (Except Failure Unit) :=
  if array.length = 4 then
    [ArgumentOrder.argument (colorPart array 0), ArgumentOrder.argument (colorPart array 1),
      ArgumentOrder.argument (colorPart array 2),
      ArgumentOrder.argument (do (← item array 3).asDouble)]
  else
    [ArgumentOrder.argument (colorPart array 0), ArgumentOrder.argument (colorPart array 1),
      ArgumentOrder.argument (colorPart array 2)]

theorem readerColor_array (order : ArgumentOrder) (array : List (Node Double)) :
    ∃ x, readerColor order (.array array) =
        (order.evaluate (colorArguments array) >>= fun _ => x) ∧
      ((∀ argument ∈ colorArguments array, argument = .ok ()) → ∃ color, x = .ok color) := by
  unfold colorArguments
  split
  · rename_i hfour
    refine ⟨_, by simp only [readerColor, Node.asArray, ok_bind, if_pos hfour]; rfl, fun h => ?_⟩
    simp only [List.forall_mem_cons, argument_eq_ok_iff] at h
    obtain ⟨⟨red, hred⟩, ⟨green, hgreen⟩, ⟨blue, hblue⟩, ⟨opacity, hopacity⟩, -⟩ := h
    rw [hred, hgreen, hblue, hopacity]
    exact ⟨_, rfl⟩
  · rename_i hfour
    refine ⟨_, by simp only [readerColor, Node.asArray, ok_bind, if_neg hfour]; rfl, fun h => ?_⟩
    simp only [List.forall_mem_cons, argument_eq_ok_iff] at h
    obtain ⟨⟨red, hred⟩, ⟨green, hgreen⟩, ⟨blue, hblue⟩, -⟩ := h
    rw [hred, hgreen, hblue]
    exact ⟨_, rfl⟩

theorem fineColor_iff_arguments :
    FineColor (.array array) ↔ ∀ argument ∈ colorArguments array, argument = .ok () := by
  rw [fineColor_array_iff, ← exists_colorPart_iff, ← exists_colorPart_iff,
    ← exists_colorPart_iff, ← exists_item_asDouble_iff]
  unfold colorArguments
  split
  · rename_i hfour
    simp only [List.forall_mem_cons, argument_eq_ok_iff, hfour, true_imp_iff]
    simp
  · rename_i hfour
    simp only [List.forall_mem_cons, argument_eq_ok_iff, hfour, false_imp_iff]
    simp

theorem length_of_mem_colorArguments
    (h : .error .undefinedBehaviour ∈ colorArguments array) : array.length < 3 := by
  have hpart {i : ℕ}
      (h : .error .undefinedBehaviour = ArgumentOrder.argument (colorPart array i)) :
      array.length ≤ i :=
    length_le_of_colorPart (argument_eq_error_iff.mp h.symm)
  unfold colorArguments at h
  split at h
  · rename_i hfour
    simp only [List.mem_cons, List.not_mem_nil, or_false] at h
    rcases h with h | h | h | h
    · exact (hpart h).trans_lt (by decide)
    · exact (hpart h).trans_lt (by decide)
    · exact (hpart h).trans_lt (by decide)
    · have hthree := length_le_of_item_asDouble (argument_eq_error_iff.mp h.symm)
      omega
  · simp only [List.mem_cons, List.not_mem_nil, or_false] at h
    rcases h with h | h | h
    · exact (hpart h).trans_lt (by decide)
    · exact (hpart h).trans_lt (by decide)
    · exact (hpart h).trans_lt (by decide)

theorem exists_readerColor_iff {node : Node Double} :
    (∃ color, readerColor order node = .ok color) ↔ FineColor node := by
  cases node with
  | string value => exact iff_of_true ⟨_, rfl⟩ (.inl ⟨value, rfl⟩)
  | array array =>
      obtain ⟨x, heq, hx⟩ := readerColor_array order array
      rw [fineColor_iff_arguments, heq]
      constructor
      · rintro ⟨color, h⟩
        obtain ⟨⟨⟩, heval, -⟩ := bind_eq_ok_iff.mp h
        exact evaluate_eq_ok_iff.mp heval
      · intro h
        obtain ⟨color, hcolor⟩ := hx h
        exact ⟨color, bind_eq_ok_iff.mpr ⟨(), evaluate_eq_ok_iff.mpr h, hcolor⟩⟩
  | null | dict | bool | int | double =>
      refine iff_of_false (fun ⟨color, h⟩ => ?_) (fun h => ?_)
      · cases h
      · rcases h with ⟨value, h⟩ | ⟨red, green, blue, rest, h, -⟩
        · cases h
        · cases h

/-- Only a short color is read beyond its end. -/
theorem shortColor_of_readerColor {node : Node Double}
    (h : readerColor order node = .error .undefinedBehaviour) : ShortColor node := by
  cases node with
  | array array =>
      obtain ⟨x, heq, hx⟩ := readerColor_array order array
      rw [heq] at h
      refine ⟨array, rfl, length_of_mem_colorArguments ?_⟩
      rcases bind_eq_error_iff.mp h with h | ⟨⟨⟩, heval, h⟩
      · exact evaluate_eq_error h
      · obtain ⟨color, hcolor⟩ := hx (evaluate_eq_ok_iff.mp heval)
        rw [hcolor] at h
        cases h
  | string | null | dict | bool | int | double => cases h

/-- A short color is read beyond its end if its last argument comes first. -/
theorem readerColor_of_shortColor {node : Node Double} (h : ShortColor node) :
    readerColor .lastToFirst node = .error .undefinedBehaviour := by
  obtain ⟨array, rfl, hlength⟩ := h
  rcases array with _ | ⟨red, _ | ⟨green, _ | ⟨blue, rest⟩⟩⟩
  · rfl
  · rfl
  · rfl
  · simp only [List.length_cons] at hlength
    omega

end Color

section Settings

variable {map : Dict Double} {key : String} {q : Prop} {order : ArgumentOrder}

def FlawedColor (order : ArgumentOrder) (node : Node Double) : Prop :=
  readerColor order node = .error .undefinedBehaviour

theorem reaches_const {A : Type} {x : Except Failure A} :
    Reaches (fun _ => q) x ↔ x = .error .undefinedBehaviour ∨ (∃ a, x = .ok a) ∧ q := by
  cases x <;> simp [Reaches]

theorem reaches_readerColor {node : Node Double} :
    Reaches (fun _ => q) (readerColor order node) ↔
      FlawedColor order node ∨ FineColor node ∧ q := by
  rw [reaches_const, exists_readerColor_iff, FlawedColor]

theorem reaches_color :
    Reaches (fun node => Reaches (fun _ => q) (readerColor order node)) (map.get key.toList) ↔
      (Member.color (FlawedColor order) key).Reached map q := by
  simp only [reaches_get, reaches_readerColor, Member.Reached, Member.color]

theorem reaches_mapM (nodes : List (Node Double)) :
    Reaches (fun _ => False) (nodes.mapM (readerColor order)) ↔
      FirstFlawedColor (FlawedColor order) nodes := by
  induction nodes with
  | nil => exact Iff.rfl
  | cons node nodes ih =>
      rw [List.mapM_cons]
      simp only [reaches_bind, reaches_pure, ih, reaches_readerColor, FirstFlawedColor]

theorem reaches_palette :
    Reaches (fun array => Reaches (fun colors => colors = []) (array.mapM (readerColor order)))
        (arrayAt map key) ↔
      (Member.palette (FlawedColor order) key).Reached map False := by
  simp only [arrayAt, reaches_bind, reaches_get, reaches_asArray, Member.Reached, Member.palette,
    and_false, or_false]
  refine exists_congr fun node => and_congr_right fun _ => exists_congr fun array =>
    and_congr_right fun _ => ?_
  cases array with
  | nil => exact iff_of_true rfl (.inl rfl)
  | cons color colors =>
      rw [List.mapM_cons]
      simp only [reaches_bind, reaches_pure, List.cons_ne_nil, reaches_mapM, reaches_readerColor,
        false_or, FirstFlawedColor]

/-- The reader goes wrong exactly on settings with a flawed member. -/
theorem reaches_readerMapSettings (document : Node Double) :
    Reaches (fun settings => settings.colorPalette = []) (readerMapSettings order document) ↔
      ∃ map, document = .dict map ∧ FirstFlawed map (mapMembers (FlawedColor order)) := by
  unfold readerMapSettings mapMembers
  simp only [reaches_bind, reaches_pure, reaches_palette, reaches_color, reaches_doubleAt,
    reaches_intAt, reaches_offset, FirstFlawed]
  cases document <;> simp [Reaches, Node.asDict]

end Settings

/-- Members that differ at most in what is flawed. -/
structure Member.Weaker (member member' : Member) : Prop where
  key : member.key = member'.key
  fine : member.fine = member'.fine
  flawed : ∀ node, member.flawed node → member'.flawed node

theorem Member.Weaker.refl (member : Member) : Member.Weaker member member :=
  ⟨rfl, rfl, fun _ h => h⟩

theorem FirstFlawedColor.mono {flawed flawed' : Node Double → Prop}
    (h : ∀ node, flawed node → flawed' node) {nodes : List (Node Double)}
    (hnodes : FirstFlawedColor flawed nodes) : FirstFlawedColor flawed' nodes := by
  induction nodes with
  | nil => exact hnodes
  | cons node nodes ih => exact hnodes.imp (h node) (And.imp_right ih)

theorem FirstFlawed.mono {map : Dict Double} {members members' : List Member}
    (h : List.Forall₂ Member.Weaker members members') (hflawed : FirstFlawed map members) :
    FirstFlawed map members' := by
  induction h with
  | nil => exact hflawed
  | cons hmember _ ih =>
      obtain ⟨node, hfind, hnode⟩ := hflawed
      refine ⟨node, hmember.key ▸ hfind, ?_⟩
      exact hnode.imp (hmember.flawed node) (And.imp (fun hfine => hmember.fine ▸ hfine) ih)

theorem FirstFlawed.mapMembers_mono {map : Dict Double} {flawed flawed' : Node Double → Prop}
    (h : ∀ node, flawed node → flawed' node) (hflawed : FirstFlawed map (mapMembers flawed)) :
    FirstFlawed map (mapMembers flawed') := by
  have hcolor (key : String) : Member.Weaker (.color flawed key) (.color flawed' key) :=
    ⟨rfl, rfl, h⟩
  have hpalette (key : String) : Member.Weaker (.palette flawed key) (.palette flawed' key) :=
    ⟨rfl, rfl, fun _ ⟨colors, heq, hcolors⟩ => ⟨colors, heq, hcolors.imp_right (.mono h)⟩⟩
  refine hflawed.mono ?_
  exact .cons (.refl _) (.cons (.refl _) (.cons (.refl _) (.cons (.refl _) (.cons (.refl _)
    (.cons (.refl _) (.cons (.refl _) (.cons (.refl _) (.cons (.refl _) (.cons (.refl _)
      (.cons (hcolor _) (.cons (hpalette _) .nil)))))))))))

/-- Settings are read within the bounds of their arrays, whatever the order of
arguments, and what they give, also when it has been saved and loaded, renders
every catalogue without a remainder by zero. -/
def SafeSettings (document : Node Double) : Prop :=
  ∀ order, readerMapSettings order document ≠ .error .undefinedBehaviour ∧
    ∀ settings, readerMapSettings order document = .ok settings →
      ∀ (calls : List Call) (it : Iteration Str BusPtr),
        RequestHandler.renderMap it (run calls) ⟨settings⟩ ≠ .error .undefinedBehaviour ∧
          ∃ render, MapRender.deserializeMapRender (MapRender.saveToProto ⟨settings⟩) = .ok render ∧
            RequestHandler.renderMap it (run calls) render ≠ .error .undefinedBehaviour

/-- The first member of the settings that is not fine is an offset or a color
that is too short, or an empty palette. -/
def FlawedSettings (document : Node Double) : Prop :=
  ∃ map, document = .dict map ∧ FirstFlawed map (mapMembers ShortColor)

theorem safeSettings_iff (document : Node Double) :
    SafeSettings document ↔ ¬ FlawedSettings document := by
  constructor
  · rintro hsafe ⟨map, rfl, hflawed⟩
    obtain ⟨hread, hrender⟩ := hsafe .lastToFirst
    have hreaches : Reaches (fun settings => settings.colorPalette = [])
        (readerMapSettings .lastToFirst (.dict map)) := (reaches_readerMapSettings _).mpr
      ⟨map, rfl, hflawed.mapMembers_mono fun _ => readerColor_of_shortColor⟩
    cases heq : readerMapSettings .lastToFirst (.dict map) with
    | error failure =>
        rw [heq] at hread hreaches
        cases hreaches
        exact hread rfl
    | ok settings =>
        rw [heq] at hreaches
        have hvisits :
            RequestHandler.visits .ofEntries (run [.addBus ['1'] [['A']] true]) ≠ [] := by
          decide +kernel
        exact (hrender settings heq _ _).1 (RequestHandler.renderMap_of_nil hreaches hvisits)
  · intro hflawed order
    have hreaches : ¬ Reaches (fun settings => settings.colorPalette = [])
        (readerMapSettings order document) := by
      rw [reaches_readerMapSettings]
      rintro ⟨map, hmap, h⟩
      exact hflawed ⟨map, hmap, h.mapMembers_mono fun _ => shortColor_of_readerColor⟩
    refine ⟨fun heq => hreaches (heq ▸ rfl), fun settings heq calls it => ?_⟩
    rw [heq] at hreaches
    obtain ⟨document, hdocument⟩ : ∃ document,
        RequestHandler.renderMap it (run calls) ⟨settings⟩ = .ok document :=
      RequestHandler.exists_renderMap (run_inv calls).toStoreInv hreaches
    have hreturns : RequestHandler.renderMap it (run calls) ⟨settings⟩ ≠
        .error .undefinedBehaviour := by
      rw [hdocument]
      exact fun h => nomatch h
    exact ⟨hreturns, ⟨settings⟩, MapRender.deserializeMapRender_saveToProto _, hreturns⟩

def emptyPalette : Node Double :=
  .dict [("bus_label_font_size".toList, .int 20),
    ("bus_label_offset".toList, .array [.int 7, .int 15]), ("color_palette".toList, .array []),
    ("height".toList, .int 200), ("line_width".toList, .int 14), ("padding".toList, .int 30),
    ("stop_label_font_size".toList, .int 20),
    ("stop_label_offset".toList, .array [.int 7, .int (-3)]), ("stop_radius".toList, .int 5),
    ("underlayer_color".toList, .array [.int 255, .int 255, .int 255, .double (17 / 20)]),
    ("underlayer_width".toList, .int 3), ("width".toList, .int 600)]

theorem not_safeSettings_emptyPalette : ¬ SafeSettings emptyPalette := by
  intro hsafe
  obtain ⟨settings, hread, hpalette⟩ := exists_ok_of_any
    (x := readerMapSettings .firstToLast emptyPalette)
    (p := fun settings => settings.colorPalette = []) (by decide +kernel)
  have hvisits : RequestHandler.visits .ofEntries (run [.addBus ['1'] [['A']] true]) ≠ [] := by
    decide +kernel
  exact ((hsafe .firstToLast).2 settings hread _ _).1
    (RequestHandler.renderMap_of_nil hpalette hvisits)

end JsonReader

end TransportSystem
