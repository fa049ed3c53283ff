import Mathlib.Data.List.Induction
import Mathlib.Tactic.Linarith
import TransportSystem.RequestHandler

namespace TransportSystem

open RequestHandler (foldl_min_le_iff le_foldl_max_iff)

/-- The difference between the greatest and the least value of a coordinate. -/
def spread (f : Coordinates → Double) : List Coordinates → Double
  | [] => 0
  | first :: rest =>
      rest.foldl (fun m p => max m (f p)) (f first) - rest.foldl (fun m p => min m (f p)) (f first)

section Spread

variable (f : Coordinates → Double) (first : Coordinates) (rest : List Coordinates)

theorem foldl_min_le {c : Coordinates} (hc : c ∈ first :: rest) :
    rest.foldl (fun m p => min m (f p)) (f first) ≤ f c := by
  have hall := (foldl_min_le_iff f rest (f first) _).mp le_rfl
  rcases List.mem_cons.mp hc with rfl | hc
  · exact hall.1
  · exact hall.2 c hc

theorem le_foldl_max {c : Coordinates} (hc : c ∈ first :: rest) :
    f c ≤ rest.foldl (fun m p => max m (f p)) (f first) := by
  have hall := (le_foldl_max_iff f rest (f first) _).mp le_rfl
  rcases List.mem_cons.mp hc with rfl | hc
  · exact hall.1
  · exact hall.2 c hc

/-- The greatest and the least value are each taken at one of the points. -/
theorem exists_eq_foldl {op : Double → Double → Double} (hop : ∀ x y, op x y = x ∨ op x y = y) :
    ∃ c ∈ first :: rest, f c = rest.foldl (fun m p => op m (f p)) (f first) := by
  induction rest using List.reverseRecOn with
  | nil => exact ⟨first, by simp, rfl⟩
  | append_singleton rest p ih =>
      obtain ⟨c, hc, hvalue⟩ := ih
      rw [List.foldl_concat]
      rcases hop (rest.foldl (fun m p => op m (f p)) (f first)) (f p) with h | h
      · exact ⟨c, List.mem_append_left _ hc, by rw [h, hvalue]⟩
      · exact ⟨p, by simp, h.symm⟩

theorem spread_nonneg : 0 ≤ spread f (first :: rest) :=
  sub_nonneg.mpr (le_trans (foldl_min_le f first rest List.mem_cons_self)
    (le_foldl_max f first rest List.mem_cons_self))

variable {z side : Double}

/-- Scaled distances from the least value stay within a side exactly if the
scaled spread does. -/
theorem forall_from_min_iff (hz : 0 ≤ z) :
    (∀ c ∈ first :: rest, 0 ≤ (f c - rest.foldl (fun m p => min m (f p)) (f first)) * z ∧
        (f c - rest.foldl (fun m p => min m (f p)) (f first)) * z ≤ side) ↔
      spread f (first :: rest) * z ≤ side := by
  constructor
  · intro h
    obtain ⟨c, hc, hmax⟩ := exists_eq_foldl f first rest max_choice
    have hle := (h c hc).2
    rwa [hmax] at hle
  · intro h c hc
    have hmin := foldl_min_le f first rest hc
    have hmax := le_foldl_max f first rest hc
    exact ⟨mul_nonneg (sub_nonneg.mpr hmin) hz,
      (mul_le_mul_of_nonneg_right (sub_le_sub_right hmax _) hz).trans h⟩

theorem forall_to_max_iff (hz : 0 ≤ z) :
    (∀ c ∈ first :: rest, 0 ≤ (rest.foldl (fun m p => max m (f p)) (f first) - f c) * z ∧
        (rest.foldl (fun m p => max m (f p)) (f first) - f c) * z ≤ side) ↔
      spread f (first :: rest) * z ≤ side := by
  constructor
  · intro h
    obtain ⟨c, hc, hmin⟩ := exists_eq_foldl f first rest min_choice
    have hle := (h c hc).2
    rwa [hmin] at hle
  · intro h c hc
    have hmin := foldl_min_le f first rest hc
    have hmax := le_foldl_max f first rest hc
    exact ⟨mul_nonneg (sub_nonneg.mpr hmax) hz,
      (mul_le_mul_of_nonneg_right (sub_le_sub_left hmin _) hz).trans h⟩

end Spread

/-- The factor of a projector, from the two spreads and the two sides of the canvas. -/
def zoom (lng lat width height : Double) : Double :=
  match (if isZero lng then none else some (width / lng)),
      (if isZero lat then none else some (height / lat)) with
  | some widthZoom, some heightZoom => min widthZoom heightZoom
  | some widthZoom, none => widthZoom
  | none, some heightZoom => heightZoom
  | none, none => 0

/-- A spread that counts as zero is not enlarged beyond its side of the canvas by the factor
of the other one. -/
def Fits (lng lat width height : Double) : Prop :=
  (isZero lng = false → isZero lat = true → lat * width ≤ height * lng) ∧
    (isZero lng = true → isZero lat = false → lng * height ≤ width * lat)

section Zoom

variable {lng lat width height : Double}

theorem pos_of_isZero {value : Double} (h : 0 ≤ value) (hzero : isZero value = false) :
    0 < value := by
  refine lt_of_le_of_ne h ?_
  rintro rfl
  simp [isZero, epsilon] at hzero

theorem zoom_nonneg (hlng : 0 ≤ lng) (hlat : 0 ≤ lat) (hwidth : 0 ≤ width) (hheight : 0 ≤ height) :
    0 ≤ zoom lng lat width height := by
  have hw := div_nonneg hwidth hlng
  have hh := div_nonneg hheight hlat
  unfold zoom
  cases isZero lng <;> cases isZero lat
  · exact le_min hw hh
  · exact hw
  · exact hh
  · exact le_rfl

theorem zoom_fits_iff (hlng : 0 ≤ lng) (hlat : 0 ≤ lat) (hwidth : 0 ≤ width)
    (hheight : 0 ≤ height) :
    (lng * zoom lng lat width height ≤ width ∧ lat * zoom lng lat width height ≤ height) ↔
      Fits lng lat width height := by
  unfold zoom Fits
  cases hlngZero : isZero lng with
  | true =>
      cases hlatZero : isZero lat with
      | true => simpa using ⟨hwidth, hheight⟩
      | false =>
          have hpos := pos_of_isZero hlat hlatZero
          have hself : lat * (height / lat) ≤ height := (mul_div_cancel₀ height hpos.ne').le
          have hcross : lng * (height / lat) ≤ width ↔ lng * height ≤ width * lat := by
            rw [← mul_div_assoc, div_le_iff₀ hpos]
          simp [hself, hcross]
  | false =>
      have hpos := pos_of_isZero hlng hlngZero
      have hself : lng * (width / lng) ≤ width := (mul_div_cancel₀ width hpos.ne').le
      cases hlatZero : isZero lat with
      | true =>
          have hcross : lat * (width / lng) ≤ height ↔ lat * width ≤ height * lng := by
            rw [← mul_div_assoc, div_le_iff₀ hpos]
          simp [hself, hcross]
      | false =>
          have hpos' := pos_of_isZero hlat hlatZero
          have hself' : lat * (height / lat) ≤ height := (mul_div_cancel₀ height hpos'.ne').le
          simp only [Bool.false_eq_true, if_false, false_imp_iff, imp_true_iff,
            and_true, iff_true]
          exact ⟨(mul_le_mul_of_nonneg_left (min_le_left _ _) hlng).trans hself,
            (mul_le_mul_of_nonneg_left (min_le_right _ _) hlat).trans hself'⟩

end Zoom

/-- The points are projected onto the canvas within its padding. -/
def OnCanvas (points : List Coordinates) (maxWidth maxHeight padding : Double) : Prop :=
  ∀ c ∈ points,
    let point := (SphereProjector.ofPoints points maxWidth maxHeight padding).project c
    padding ≤ point.x ∧ point.x ≤ maxWidth - padding ∧
      padding ≤ point.y ∧ point.y ≤ maxHeight - padding

/-- The points stay on the canvas exactly if a spread below `EPSILON` fits with the factor that
the other one gives. -/
theorem onCanvas_iff {points : List Coordinates} {maxWidth maxHeight padding : Double}
    (hpoints : points ≠ []) (hwidth : 2 * padding ≤ maxWidth)
    (hheight : 2 * padding ≤ maxHeight) :
    OnCanvas points maxWidth maxHeight padding ↔
      Fits (spread Coordinates.lng points) (spread Coordinates.lat points)
        (maxWidth - 2 * padding) (maxHeight - 2 * padding) := by
  obtain ⟨first, rest, rfl⟩ := List.exists_cons_of_ne_nil hpoints
  have hlng := spread_nonneg Coordinates.lng first rest
  have hlat := spread_nonneg Coordinates.lat first rest
  rw [← sub_nonneg] at hwidth hheight
  have hzoom := zoom_nonneg hlng hlat hwidth hheight
  rw [← zoom_fits_iff hlng hlat hwidth hheight]
  generalize hz : zoom (spread Coordinates.lng (first :: rest))
    (spread Coordinates.lat (first :: rest)) (maxWidth - 2 * padding) (maxHeight - 2 * padding) = z
    at hzoom
  have hpoint (c : Coordinates) :
      (SphereProjector.ofPoints (first :: rest) maxWidth maxHeight padding).project c =
        ⟨(c.lng - rest.foldl (fun m p => min m p.lng) first.lng) * z + padding,
          (rest.foldl (fun m p => max m p.lat) first.lat - c.lat) * z + padding⟩ := by
    rw [← hz]
    rfl
  have hfirst (a : Double) : padding ≤ a + padding ↔ 0 ≤ a := le_add_iff_nonneg_left padding
  have hlast (a side : Double) : a + padding ≤ side - padding ↔ a ≤ side - 2 * padding := by
    constructor <;> intro h <;> linarith
  rw [← forall_from_min_iff Coordinates.lng first rest hzoom,
    ← forall_to_max_iff Coordinates.lat first rest hzoom, ← forall₂_and]
  refine forall₂_congr fun c _ => ?_
  rw [hpoint]
  simp only [hfirst, hlast, and_assoc]

/-- Two points of different longitude and latitude. -/
theorem onCanvas_pair : OnCanvas [⟨0, 0⟩, ⟨1, 2⟩] 100 50 10 :=
  (onCanvas_iff (by simp) (by norm_num) (by norm_num)).mpr
    ⟨by decide +kernel, by decide +kernel⟩

/-- Latitudes that are closer together than `EPSILON` are spread by the factor of the
longitudes, here far over the lower edge. -/
theorem not_onCanvas_flat : ¬ OnCanvas [⟨0, 0⟩, ⟨1 / 2000000, 1 / 1000000⟩] 100 1 0 := by
  intro h
  have hsouth := (h ⟨0, 0⟩ (by simp)).2.2.2
  revert hsouth
  decide +kernel

end TransportSystem
