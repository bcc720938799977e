import SpeechBridge.Model.Tracks

set_option autoImplicit false

/-! # The index-building loop of `main`

`main` walks the tracks of the playlist, files each of them in five maps and four flat lists,
and normalizes the flat lists at the end. The loop body is kept in the three groups of
statements it consists of: the updates of the maps (`updateMaps`), the calls of `sort_vector`
on the lists they touched (`sortTouched`), and the pushes to the flat lists
(`updateCatalogues`).

`sort` and `unique` of the C++ library are parameters with their contracts
(`StdAlgorithms`).
-/

namespace SpeechBridge

open SortUnique OrderedMap

/-- The algorithms of the C++ library that `sort_vector` calls. -/
structure StdAlgorithms where
  sort : SortFn StdString
  unique : UniqueFn StdString
  deriving Inhabited

/-- The global variables the loop fills. -/
@[ext] structure Indexes where
  library : ArtistAlbumTrackMap
  artistsForTrack : TrackArtistMap
  artistsForTrackWithAlbum : TrackArtistAlbumMap
  idForTrackWithArtistAlbum : IdTrackArtistAlbumMap
  idsForGenre : GenreIdMap
  tracks : StrList
  albums : StrList
  artists : StrList
  genres : StrList

/-- The globals before the loop: everything is empty. -/
instance : Inhabited Indexes := ⟨⟨∅, ∅, ∅, ∅, ∅, [], [], [], []⟩⟩

/-- What `library[a][al]` evaluates to. -/
def Indexes.slot (s : Indexes) (a al : StdString) : TrackList := (s.library.value a).value al

/-- What `artists_for_track_with_album[t][a]` evaluates to. -/
def Indexes.albumsFor (s : Indexes) (t a : StdString) : StrList :=
  (s.artistsForTrackWithAlbum.value t).value a

section

variable (std : StdAlgorithms)

/-- `sort_vector`: sort, move the duplicates behind a new end, erase them. -/
def sortVector (list_ : StrList) : StrList :=
  let sorted := std.sort.run list_
  let uniqued := std.unique.run sorted
  eraseRange uniqued.range uniqued.newEnd uniqued.range.length

/-! ## One iteration -/

/-- The statements that file the track under its artist and album, its artist and album under
its name, its details under its id and its id under its genre. -/
def updateMaps (s : Indexes) (r : TrackRecord) : Indexes :=
  { s with
    library := s.library.subscript r.artist fun albums =>
      albums.subscript r.album fun slot => slot ++ [r.track]
    artistsForTrack := s.artistsForTrack.subscript r.name fun l => l ++ [r.artist]
    artistsForTrackWithAlbum := s.artistsForTrackWithAlbum.subscript r.name fun m =>
      m.subscript r.artist fun l => l ++ [r.album]
    idForTrackWithArtistAlbum := s.idForTrackWithArtistAlbum.subscript r.id fun _ => r.details
    idsForGenre := s.idsForGenre.subscript r.genre fun l => l ++ [r.id] }

/-- The three calls of `sort_vector` in the loop, on the lists of this track. The subscripts
are evaluated again and would create a missing key. -/
def sortTouched (s : Indexes) (r : TrackRecord) : Indexes :=
  { s with
    artistsForTrack := s.artistsForTrack.subscript r.name (sortVector std)
    artistsForTrackWithAlbum := s.artistsForTrackWithAlbum.subscript r.name fun m =>
      m.subscript r.artist (sortVector std)
    idsForGenre := s.idsForGenre.subscript r.genre (sortVector std) }

/-- The pushes to the flat lists. -/
def updateCatalogues (s : Indexes) (r : TrackRecord) : Indexes :=
  { s with
    tracks := s.tracks ++ [r.name]
    albums := s.albums ++ [r.album]
    artists := s.artists ++ [r.artist]
    genres := s.genres ++ [r.genre] }

/-- The body of the loop. -/
def iteration (s : Indexes) (r : TrackRecord) : Indexes :=
  updateCatalogues (sortTouched std (updateMaps s r) r) r

/-! ## The program -/

/-- The state between two iterations, after the records `rs` were processed. -/
def loop (rs : List TrackRecord) : Indexes := rs.foldl (iteration std) default

/-- The calls of `sort_vector` after the loop. -/
def sortCatalogues (s : Indexes) : Indexes :=
  { s with
    tracks := sortVector std s.tracks
    albums := sortVector std s.albums
    artists := sortVector std s.artists
    genres := sortVector std s.genres }

/-- The globals when `main` has acquired all data. -/
def main (rs : List TrackRecord) : Indexes := sortCatalogues std (loop std rs)

/-! ## `sort_vector` -/

/-- **`sort_vector` computes the canonical form.** Its meaning does not depend on the
implementations of the two algorithms. -/
theorem sortVector_eq_canonical (list_ : StrList) : sortVector std list_ = canonical list_ :=
  eraseRange_unique_sort std.sort std.unique list_

/-- **The result is a canonical form of the set of strings in the list**: strictly ascending,
with exactly the elements of the list, and equal for two lists exactly when they have the same
elements. -/
theorem sortVector_canonical_form :
    (∀ list_ : StrList, Enumerates (sortVector std list_) (· ∈ list_)) ∧
    ∀ l m : StrList, sortVector std l = sortVector std m ↔ ∀ x, x ∈ l ↔ x ∈ m := by
  constructor
  · intro list_
    rw [sortVector_eq_canonical]
    exact canonical_enumerates list_
  · intro l m
    rw [sortVector_eq_canonical, sortVector_eq_canonical]
    exact canonical_eq_iff

example : sortVector default [⟨[66]⟩, ⟨[65, 66]⟩, ⟨[66]⟩, ⟨[65]⟩]
    = [⟨[65]⟩, ⟨[65, 66]⟩, ⟨[66]⟩] := by decide

/-! ## What one iteration does to each index

On the three look-up maps the push and the call of `sort_vector` are two statements on one
reference, hence one. -/

@[simp] theorem iteration_library (s : Indexes) (r : TrackRecord) :
    (iteration std s r).library = s.library.subscript r.artist fun albums =>
      albums.subscript r.album fun slot => slot ++ [r.track] := rfl

@[simp] theorem iteration_artistsForTrack (s : Indexes) (r : TrackRecord) :
    (iteration std s r).artistsForTrack
      = s.artistsForTrack.subscript r.name fun l => canonical (l ++ [r.artist]) := by
  show (s.artistsForTrack.subscript r.name _).subscript r.name (sortVector std) = _
  rw [subscript_subscript]
  simp only [sortVector_eq_canonical]

@[simp] theorem iteration_artistsForTrackWithAlbum (s : Indexes) (r : TrackRecord) :
    (iteration std s r).artistsForTrackWithAlbum
      = s.artistsForTrackWithAlbum.subscript r.name fun m =>
          m.subscript r.artist fun l => canonical (l ++ [r.album]) := by
  show (s.artistsForTrackWithAlbum.subscript r.name _).subscript r.name
    (fun m => m.subscript r.artist (sortVector std)) = _
  -- once for the outer reference, and once below it for the inner one
  rw [subscript_subscript]
  simp only [subscript_subscript, sortVector_eq_canonical]

@[simp] theorem iteration_idForTrackWithArtistAlbum (s : Indexes) (r : TrackRecord) :
    (iteration std s r).idForTrackWithArtistAlbum
      = s.idForTrackWithArtistAlbum.subscript r.id fun _ => r.details := rfl

@[simp] theorem iteration_idsForGenre (s : Indexes) (r : TrackRecord) :
    (iteration std s r).idsForGenre
      = s.idsForGenre.subscript r.genre fun l => canonical (l ++ [r.id]) := by
  show (s.idsForGenre.subscript r.genre _).subscript r.genre (sortVector std) = _
  rw [subscript_subscript]
  simp only [sortVector_eq_canonical]

end

end SpeechBridge
