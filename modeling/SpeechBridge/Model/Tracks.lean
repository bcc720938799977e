import SpeechBridge.Basic.OrderedMap

set_option autoImplicit false

/-! # Strings, track records and the types of the indexes

The data of `src/iTunesSpeechBridge.m`: the five strings the loop of `main` reads off an
iTunes track, and the container types of the `typedef`s.
-/

namespace SpeechBridge

/-! ## Strings -/

/-- `std::string`: a sequence of bytes. -/
structure StdString where
  bytes : List UInt8
  deriving Inhabited, Repr

/-- The bytes as numbers. `std::string` compares its bytes as unsigned characters. -/
def StdString.codes (s : StdString) : List Nat := s.bytes.map UInt8.toNat

theorem StdString.codes_injective : Function.Injective StdString.codes := by
  rintro ⟨a⟩ ⟨b⟩ h
  have hinj : Function.Injective UInt8.toNat := fun _ _ => UInt8.toNat_inj.mp
  exact congrArg StdString.mk (List.map_injective_iff.mpr hinj h)

/-- The byte order: lexicographic, a proper prefix comes first. -/
instance : LinearOrder StdString := LinearOrder.lift' StdString.codes StdString.codes_injective

/-! ## Tracks -/

/-- The strings `track_s`, `artist_s`, `album_s`, `genre_s` and `id_s` of one iteration. -/
structure TrackRecord where
  name : StdString
  artist : StdString
  album : StdString
  genre : StdString
  id : StdString
  deriving DecidableEq, Repr

/-- An entry of a `track_list`: name, id, genre. -/
abbrev Track := StdString × StdString × StdString

/-- What the id index holds: name, artist, album. -/
abbrev TrackDetails := StdString × StdString × StdString

/-- The local variable `track` of an iteration. -/
def TrackRecord.track (r : TrackRecord) : Track := (r.name, r.id, r.genre)

/-- The tuple the iteration assigns under the id. -/
def TrackRecord.details (r : TrackRecord) : TrackDetails := (r.name, r.artist, r.album)

/-! ## Container types -/

abbrev StrList := List StdString
abbrev TrackList := List Track
abbrev ArtistAlbumTrackMap := OrderedMap StdString (OrderedMap StdString TrackList)
abbrev TrackArtistMap := OrderedMap StdString StrList
abbrev TrackArtistAlbumMap := OrderedMap StdString (OrderedMap StdString StrList)
abbrev IdTrackArtistAlbumMap := OrderedMap StdString TrackDetails
abbrev GenreIdMap := OrderedMap StdString StrList

end SpeechBridge
