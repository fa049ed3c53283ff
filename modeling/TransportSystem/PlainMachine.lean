import Mathlib.Data.Rat.Denumerable
import Mathlib.Logic.Equiv.List
import Mathlib.Tactic.DeriveEncodable
import TransportSystem.DamagedBase
import TransportSystem.Program

namespace TransportSystem

open Library.UniqueKeys

instance encodableUInt32 : Encodable UInt32 :=
  Encodable.ofLeftInverse UInt32.toNat UInt32.ofNat fun _ => UInt32.ofNat_toNat

instance encodableInt32 : Encodable Int32 :=
  Encodable.ofLeftInverse Int32.toInt Int32.ofInt fun _ => Int32.ofInt_toInt _

instance encodableChar : Encodable Char :=
  Encodable.ofLeftInverse Char.toNat Char.ofNat fun c => Char.ofNat_toNat c

instance decidableNodupKeys {K V : Type} (l : List (Σ _ : K, V)) [DecidableEq K] :
    Decidable l.NodupKeys :=
  inferInstanceAs (Decidable l.keys.Nodup)

instance {K V : Type} [DecidableEq K] [Encodable K] [Encodable V] :
    Encodable (UnorderedMap K V) :=
  Encodable.ofLeftInjection AList.entries
    (fun l => if h : l.NodupKeys then some ⟨l, h⟩ else none) fun m => dif_pos m.nodupKeys

deriving instance Encodable for SvgSerialize.Rgb, SvgSerialize.Rgba, SvgSerialize.Color,
  MapRendererSerialize.MapSize, MapRendererSerialize.BusLabel, MapRendererSerialize.StopLabel,
  MapRendererSerialize.ElementSize, MapRendererSerialize.MapSettings

deriving instance Encodable for RouterSerialize.RoutingSettings, RouterSerialize.VertexId,
  RouterSerialize.Edge, RouterSerialize.IncidenceList, RouterSerialize.DirectedWeightedGraph,
  RouterSerialize.MyUint32, RouterSerialize.ComponentTrip, RouterSerialize.RouteInternalData,
  RouterSerialize.RoutesInternalData, RouterSerialize.Router, RouterSerialize.TransportRouter

deriving instance Encodable for TransportCatalogueSerialize.Coordinates,
  TransportCatalogueSerialize.Stop, TransportCatalogueSerialize.Distance,
  TransportCatalogueSerialize.Bus, TransportCatalogueSerialize.TransportCatalogue,
  TransportCatalogueSerialize.Common

/-- Streams that hold a message as it is, or cannot be read. -/
def Protobuf.orUnreadable {W : Type} : Protobuf W :=
  ⟨Option (TransportCatalogueSerialize.Common W), some, id, fun _ => rfl⟩

namespace Machine

/-- The message of an empty file takes no bytes, as in the format of protobuf. -/
def plainBytes (out : Option (TransportCatalogueSerialize.Common Double)) : Str :=
  if Encodable.encode out = Encodable.encode (some emptyMessage) then []
  else Nat.toDigits 10 (Encodable.encode out)

def plainOpened : Option Str → Option (TransportCatalogueSerialize.Common Double)
  | none => none
  | some [] => some emptyMessage
  | some bytes => (Encodable.decode (Nat.ofDigitChars 10 bytes 0)).join

theorem plainOpened_plainBytes (out : Option (TransportCatalogueSerialize.Common Double)) :
    plainOpened (some (plainBytes out)) = out := by
  unfold plainBytes
  split
  · rename_i heq
    exact (Encodable.encode_injective heq).symm
  · obtain ⟨c, rest, hdigits⟩ := List.exists_cons_of_ne_nil
      (Nat.toDigits_ne_nil (b := 10) (n := Encodable.encode out))
    have hnumber : Nat.ofDigitChars 10 (c :: rest) 0 = Encodable.encode out := by
      rw [← hdigits]
      exact Nat.ofDigitChars_ten_toDigits
    rw [hdigits, plainOpened, hnumber, Encodable.encodek]
    · rfl
    · simp

def plain : Machine where
  m := ⟨id, id, id⟩
  stod := Json.stod
  protobuf := .orUnreadable
  bytes := plainBytes
  opened := plainOpened
  opened_bytes := plainOpened_plainBytes

end Machine

def Orders.ofEntries : Orders :=
  ⟨.firstToLast, .ofEntries, ⟨.ofEntries, .ofEntries, .ofEntries⟩, ⟨.ofEntries, .ofEntries⟩⟩

/-- No file is there, and every file can be opened. -/
def Files.none : Files := ⟨fun _ => .none, fun _ => true⟩

end TransportSystem
