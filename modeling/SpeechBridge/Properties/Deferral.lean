import SpeechBridge.Abstract.Views

set_option autoImplicit false

/-! # Deferring the calls of `sort_vector`

The loop normalizes the three lists it touched in every iteration. It need not: the calls can
be skipped in any choice of iterations, if every stored list is normalized once after the loop
(`deferral`). The proof is a simulation. The state of the skipping loop, normalized, is the
state of the loop as written, because a step of either commutes with normalizing
(`sortLists_iterationSkipping`): duplicates that are removed early or late meet the same later
pushes.

The extreme choice, to skip all calls, is what the code does for its flat lists.
-/

namespace SpeechBridge

open SortUnique OrderedMap

section

variable (std : StdAlgorithms)

/-- The body of the loop, where the three calls of `sort_vector` may be skipped. -/
def iterationSkipping (s : Indexes) (r : TrackRecord) (skip : Bool) : Indexes :=
  updateCatalogues (if skip then updateMaps s r else sortTouched std (updateMaps s r) r) r

/-- The loop under a schedule that says for every record whether the calls of its iteration
are skipped. -/
def loopSkipping (schedule : List (TrackRecord × Bool)) : Indexes :=
  schedule.foldl (fun s p => iterationSkipping std s p.1 p.2) default

/-- One call of `sort_vector` on every list stored in the three look-up maps. -/
def sortLists (s : Indexes) : Indexes :=
  { s with
    artistsForTrack := s.artistsForTrack.map fun _ l => sortVector std l
    artistsForTrackWithAlbum := s.artistsForTrackWithAlbum.map fun _ m =>
      m.map fun _ l => sortVector std l
    idsForGenre := s.idsForGenre.map fun _ l => sortVector std l }

theorem iterationSkipping_false (s : Indexes) (r : TrackRecord) :
    iterationSkipping std s r false = iteration std s r := rfl

/-- Under the schedule that skips nothing this is the loop as written. -/
theorem loopSkipping_none (rs : List TrackRecord) :
    loopSkipping std (rs.map fun r => (r, false)) = loop std rs := by
  rw [loopSkipping, List.foldl_map, loop]
  simp only [iterationSkipping_false]

/-! ## The simulation -/

/-- What a skipping iteration does to a list of its track. -/
def pushSkipping (skip : Bool) (x : StdString) (l : StrList) : StrList :=
  if skip then l ++ [x] else sortVector std (l ++ [x])

/-- A push, normalized or not, and a normalization afterwards: the order does not matter. -/
theorem sortVector_push (skip : Bool) (l : StrList) (x : StdString) :
    sortVector std (pushSkipping std skip x l) = canonical (sortVector std l ++ [x]) := by
  simp only [pushSkipping, sortVector_eq_canonical, canonical_canonical_append]
  cases skip with
  | true => rfl
  | false => simpa using canonical_canonical_append (l ++ [x]) []

theorem sortVector_nil : sortVector std [] = [] := by
  rw [sortVector_eq_canonical, canonical_nil]

theorem iterationSkipping_artistsForTrack (s : Indexes) (r : TrackRecord) (skip : Bool) :
    (iterationSkipping std s r skip).artistsForTrack
      = s.artistsForTrack.subscript r.name (pushSkipping std skip r.artist) := by
  cases skip with
  | true => rfl
  | false => exact subscript_subscript ..

theorem iterationSkipping_artistsForTrackWithAlbum (s : Indexes) (r : TrackRecord)
    (skip : Bool) : (iterationSkipping std s r skip).artistsForTrackWithAlbum
      = s.artistsForTrackWithAlbum.subscript r.name fun m =>
          m.subscript r.artist (pushSkipping std skip r.album) := by
  cases skip with
  | true => rfl
  | false =>
      show (s.artistsForTrackWithAlbum.subscript r.name _).subscript r.name
        (fun m => m.subscript r.artist (sortVector std)) = _
      rw [subscript_subscript]
      simp only [subscript_subscript]
      rfl

theorem iterationSkipping_idsForGenre (s : Indexes) (r : TrackRecord) (skip : Bool) :
    (iterationSkipping std s r skip).idsForGenre
      = s.idsForGenre.subscript r.genre (pushSkipping std skip r.id) := by
  cases skip with
  | true => rfl
  | false => exact subscript_subscript ..

/-- Normalizing all lists of a map commutes with a push to one of them. -/
theorem map_sortVector_subscript (m : TrackArtistMap) (k x : StdString) (skip : Bool) :
    Std.ExtTreeMap.map (fun _ l => sortVector std l) (m.subscript k (pushSkipping std skip x))
      = subscript (Std.ExtTreeMap.map (fun _ l => sortVector std l) m) k
          fun l => canonical (l ++ [x]) :=
  map_subscript m k (sortVector_nil std) fun l => sortVector_push std skip l x

theorem sortLists_iterationSkipping (s : Indexes) (r : TrackRecord) (skip : Bool) :
    sortLists std (iterationSkipping std s r skip) = iteration std (sortLists std s) r := by
  ext1
  -- the three look-up maps are the fields that `sortLists` touches
  · cases skip <;> rfl
  · rw [iteration_artistsForTrack, sortLists, iterationSkipping_artistsForTrack]
    exact map_sortVector_subscript std _ _ _ skip
  · rw [iteration_artistsForTrackWithAlbum, sortLists, iterationSkipping_artistsForTrackWithAlbum]
    exact map_subscript _ _ map_default fun m => map_sortVector_subscript std m _ _ skip
  · cases skip <;> rfl
  · rw [iteration_idsForGenre, sortLists, iterationSkipping_idsForGenre]
    exact map_sortVector_subscript std _ _ _ skip
  all_goals cases skip <;> rfl

/-- **The skipping loop, normalized, is the loop as written**, in every field. -/
theorem sortLists_loopSkipping (schedule : List (TrackRecord × Bool)) :
    sortLists std (loopSkipping std schedule) = loop std (schedule.map Prod.fst) := by
  have hinit : sortLists std default = default := by
    -- there is no list to normalize yet
    ext1
    · rfl
    · exact map_default
    · exact map_default
    · rfl
    · exact map_default
    all_goals rfl
  -- a step of either loop commutes with normalizing, so the whole fold does
  rw [loop, List.foldl_map, loopSkipping, ← hinit]
  refine (List.foldl_hom (sortLists std) fun s p => ?_).symm
  rw [sortLists_iterationSkipping]

/-! ## The extreme choice: no call in the loop -/

/-- The stored lists of `s` are the values the records `rs` pushed, in order, like the flat
lists before their normalization. -/
structure AppendsOnly (s : Indexes) (rs : List TrackRecord) : Prop where
  artists_for : ∀ t, s.artistsForTrack.value t
    = (rs.filter fun r => r.name = t).map TrackRecord.artist
  albums_for : ∀ t a, s.albumsFor t a
    = (rs.filter fun r => r.name = t ∧ r.artist = a).map TrackRecord.album
  ids_for : ∀ g, s.idsForGenre.value g = (rs.filter fun r => r.genre = g).map TrackRecord.id
  tracks : s.tracks = rs.map TrackRecord.name
  albums : s.albums = rs.map TrackRecord.album
  artists : s.artists = rs.map TrackRecord.artist
  genres : s.genres = rs.map TrackRecord.genre

/-- The views of a loop without calls of `sort_vector`. -/
def rawView (rs : List TrackRecord) : Indexes :=
  { view rs with
    artistsForTrack := groupBy TrackRecord.name (List.map TrackRecord.artist) rs
    artistsForTrackWithAlbum := groupBy TrackRecord.name
      (groupBy TrackRecord.artist (List.map TrackRecord.album)) rs
    idsForGenre := groupBy TrackRecord.genre (List.map TrackRecord.id) rs }

theorem incremental_rawView :
    Incremental (fun s r => iterationSkipping std s r true) rawView where
  nil := by
    ext1
    · exact (incremental_map _).groupBy.groupBy.nil
    · exact (incremental_map _).groupBy.nil
    · exact (incremental_map _).groupBy.groupBy.nil
    · exact (incremental_lastOf _).groupBy.nil
    · exact (incremental_map _).groupBy.nil
    all_goals rfl
  concat := by
    intro rs r
    ext1
    · exact (incremental_map _).groupBy.groupBy.concat rs r
    · exact (incremental_map _).groupBy.concat rs r
    · exact (incremental_map _).groupBy.groupBy.concat rs r
    · exact (incremental_lastOf _).groupBy.concat rs r
    · exact (incremental_map _).groupBy.concat rs r
    all_goals exact (incremental_map _).concat rs r

theorem loopSkipping_all (rs : List TrackRecord) :
    loopSkipping std (rs.map fun r => (r, true)) = rawView rs := by
  rw [loopSkipping, List.foldl_map]
  exact (incremental_rawView std).foldl rs

theorem appendsOnly_loopSkipping_all (rs : List TrackRecord) :
    AppendsOnly (loopSkipping std (rs.map fun r => (r, true))) rs := by
  rw [loopSkipping_all]
  constructor
  · exact fun t => value_groupBy (incremental_map _) rs t
  · intro t a
    rw [Indexes.albumsFor, rawView, value_groupBy (incremental_map _).groupBy,
      value_groupBy (incremental_map _), group_group]
  · exact fun g => value_groupBy (incremental_map _) rs g
  all_goals rfl

/-- **The calls of `sort_vector` in the loop may be deferred freely**: whatever iterations skip
them, one normalization of every stored list after the loop gives the maps of the program as
written. When all iterations skip them this is the strategy of the flat lists: push in the
loop, normalize once. -/
theorem deferral :
    (∀ schedule : List (TrackRecord × Bool),
      (sortLists std (loopSkipping std schedule)).artistsForTrack
          = (main std (schedule.map Prod.fst)).artistsForTrack ∧
        (sortLists std (loopSkipping std schedule)).artistsForTrackWithAlbum
          = (main std (schedule.map Prod.fst)).artistsForTrackWithAlbum ∧
        (sortLists std (loopSkipping std schedule)).idsForGenre
          = (main std (schedule.map Prod.fst)).idsForGenre) ∧
    ∀ rs : List TrackRecord, AppendsOnly (loopSkipping std (rs.map fun r => (r, true))) rs := by
  refine ⟨fun schedule => ?_, appendsOnly_loopSkipping_all std⟩
  rw [sortLists_loopSkipping]
  exact ⟨rfl, rfl, rfl⟩

end

end SpeechBridge
