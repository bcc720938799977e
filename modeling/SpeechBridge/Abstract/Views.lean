import SpeechBridge.Basic.Grouping
import SpeechBridge.Model.Main

set_option autoImplicit false

/-! # The indexes as views of the processed records

What the indexes are for can be said without a loop: each of them is a view of one sequence
of track records, grouped by one or two of its fields. `view rs` writes these views down, and
`loop_eq_view` says that the loop maintains them: after the records `rs` the state is
`view rs`. The abstract state is thus the sequence of the processed records, its step is to
append one, and `incremental_view` is the simulation of that step by an iteration.

The second half reads the views: what every index answers at every key, in terms of the
processed records.
-/

namespace SpeechBridge

open SortUnique OrderedMap

/-- The indexes a sequence of processed records stands for. -/
def view (rs : List TrackRecord) : Indexes where
  library := groupBy TrackRecord.artist (groupBy TrackRecord.album (List.map TrackRecord.track)) rs
  artistsForTrack := groupBy TrackRecord.name (fun l => canonical (l.map TrackRecord.artist)) rs
  artistsForTrackWithAlbum := groupBy TrackRecord.name
    (groupBy TrackRecord.artist fun l => canonical (l.map TrackRecord.album)) rs
  idForTrackWithArtistAlbum := groupBy TrackRecord.id (lastOf TrackRecord.details) rs
  idsForGenre := groupBy TrackRecord.genre (fun l => canonical (l.map TrackRecord.id)) rs
  tracks := rs.map TrackRecord.name
  albums := rs.map TrackRecord.album
  artists := rs.map TrackRecord.artist
  genres := rs.map TrackRecord.genre

section

variable (std : StdAlgorithms)

/-- **One iteration appends one record.** Each index is updated by the incremental step of its
own summary, and the grouping laws lift the step to the map. -/
theorem incremental_view : Incremental (iteration std) view where
  nil := by
    ext1
    · exact (incremental_map _).groupBy.groupBy.nil
    · exact (incremental_canonical _).groupBy.nil
    · exact (incremental_canonical _).groupBy.groupBy.nil
    · exact (incremental_lastOf _).groupBy.nil
    · exact (incremental_canonical _).groupBy.nil
    all_goals rfl
  concat := by
    intro rs r
    ext1
    · rw [iteration_library]
      exact (incremental_map _).groupBy.groupBy.concat rs r
    · rw [iteration_artistsForTrack]
      exact (incremental_canonical _).groupBy.concat rs r
    · rw [iteration_artistsForTrackWithAlbum]
      exact (incremental_canonical _).groupBy.groupBy.concat rs r
    · rw [iteration_idForTrackWithArtistAlbum]
      exact (incremental_lastOf _).groupBy.concat rs r
    · rw [iteration_idsForGenre]
      exact (incremental_canonical _).groupBy.concat rs r
    · exact (incremental_map _).concat rs r
    · exact (incremental_map _).concat rs r
    · exact (incremental_map _).concat rs r
    · exact (incremental_map _).concat rs r

/-- **The loop maintains the views.** -/
theorem loop_eq_view (rs : List TrackRecord) : loop std rs = view rs :=
  (incremental_view std).foldl rs

/-! ## The catalogues of the finished program -/

@[simp] theorem main_tracks (rs : List TrackRecord) :
    (main std rs).tracks = canonical (rs.map TrackRecord.name) := by
  rw [main, loop_eq_view]
  exact sortVector_eq_canonical std _

@[simp] theorem main_albums (rs : List TrackRecord) :
    (main std rs).albums = canonical (rs.map TrackRecord.album) := by
  rw [main, loop_eq_view]
  exact sortVector_eq_canonical std _

@[simp] theorem main_artists (rs : List TrackRecord) :
    (main std rs).artists = canonical (rs.map TrackRecord.artist) := by
  rw [main, loop_eq_view]
  exact sortVector_eq_canonical std _

@[simp] theorem main_genres (rs : List TrackRecord) :
    (main std rs).genres = canonical (rs.map TrackRecord.genre) := by
  rw [main, loop_eq_view]
  exact sortVector_eq_canonical std _

/-! ## Reading the views -/

variable {rs : List TrackRecord}

theorem slot_loop (rs : List TrackRecord) (a al : StdString) :
    (loop std rs).slot a al
      = (rs.filter fun r => r.artist = a ∧ r.album = al).map TrackRecord.track := by
  rw [loop_eq_view, Indexes.slot, view, value_groupBy (incremental_map _).groupBy,
    value_groupBy (incremental_map _), group_group]

theorem mem_slot_loop {a al : StdString} {x : Track} :
    x ∈ (loop std rs).slot a al ↔ ∃ r ∈ rs, r.artist = a ∧ r.album = al ∧ r.track = x := by
  rw [slot_loop]
  simp [and_assoc]

theorem mem_library {a : StdString} :
    a ∈ (loop std rs).library ↔ ∃ r ∈ rs, r.artist = a := by
  rw [loop_eq_view]
  exact mem_groupBy

theorem mem_library_value {a al : StdString} :
    al ∈ (loop std rs).library.value a ↔ ∃ r ∈ rs, r.artist = a ∧ r.album = al := by
  rw [loop_eq_view, view, value_groupBy (incremental_map _).groupBy, mem_groupBy]
  simp only [mem_group, and_assoc]

theorem mem_artistsForTrack {t : StdString} :
    t ∈ (loop std rs).artistsForTrack ↔ ∃ r ∈ rs, r.name = t := by
  rw [loop_eq_view]
  exact mem_groupBy

theorem artistsForTrack_enumerates (rs : List TrackRecord) (t : StdString) :
    Enumerates ((loop std rs).artistsForTrack.value t)
      fun a => ∃ r ∈ rs, r.name = t ∧ r.artist = a := by
  rw [loop_eq_view, view, value_groupBy (incremental_canonical _)]
  refine (canonical_enumerates _).congr fun a => ?_
  simp only [List.mem_map, mem_group, and_assoc]

theorem mem_artistsForTrackWithAlbum {t : StdString} :
    t ∈ (loop std rs).artistsForTrackWithAlbum ↔ ∃ r ∈ rs, r.name = t := by
  rw [loop_eq_view]
  exact mem_groupBy

theorem mem_artistsForTrackWithAlbum_value {t a : StdString} :
    a ∈ (loop std rs).artistsForTrackWithAlbum.value t ↔ ∃ r ∈ rs, r.name = t ∧ r.artist = a := by
  rw [loop_eq_view, view, value_groupBy (incremental_canonical _).groupBy, mem_groupBy]
  simp only [mem_group, and_assoc]

theorem albumsFor_enumerates (rs : List TrackRecord) (t a : StdString) :
    Enumerates ((loop std rs).albumsFor t a)
      fun al => ∃ r ∈ rs, r.name = t ∧ r.artist = a ∧ r.album = al := by
  rw [loop_eq_view, Indexes.albumsFor, view, value_groupBy (incremental_canonical _).groupBy,
    value_groupBy (incremental_canonical _)]
  refine (canonical_enumerates _).congr fun al => ?_
  simp only [List.mem_map, mem_group_group, and_assoc]

theorem mem_idsForGenre {g : StdString} :
    g ∈ (loop std rs).idsForGenre ↔ ∃ r ∈ rs, r.genre = g := by
  rw [loop_eq_view]
  exact mem_groupBy

theorem idsForGenre_enumerates (rs : List TrackRecord) (g : StdString) :
    Enumerates ((loop std rs).idsForGenre.value g)
      fun i => ∃ r ∈ rs, r.genre = g ∧ r.id = i := by
  rw [loop_eq_view, view, value_groupBy (incremental_canonical _)]
  refine (canonical_enumerates _).congr fun i => ?_
  simp only [List.mem_map, mem_group, and_assoc]

theorem mem_idForTrackWithArtistAlbum {i : StdString} :
    i ∈ (loop std rs).idForTrackWithArtistAlbum ↔ ∃ r ∈ rs, r.id = i := by
  rw [loop_eq_view]
  exact mem_groupBy

/-- The id index holds the details of the last record with the id. -/
theorem getElem?_idForTrackWithArtistAlbum {i : StdString} {d : TrackDetails} :
    (loop std rs).idForTrackWithArtistAlbum[i]? = some d ↔
      ∃ before r after, rs = before ++ r :: after ∧ r.id = i ∧ (∀ r' ∈ after, r'.id ≠ i) ∧
        r.details = d := by
  rw [loop_eq_view]
  exact getElem?_groupBy_lastOf

/-! ## The entries of a processed record

Under the keys of a processed record no list is empty. -/

theorem track_mem_slot {r : TrackRecord} (hr : r ∈ rs) :
    r.track ∈ (loop std rs).slot r.artist r.album :=
  (mem_slot_loop std).mpr ⟨r, hr, rfl, rfl, rfl⟩

theorem artist_mem_artistsForTrack {r : TrackRecord} (hr : r ∈ rs) :
    r.artist ∈ (loop std rs).artistsForTrack.value r.name :=
  ((artistsForTrack_enumerates std rs r.name).mem_iff r.artist).mpr ⟨r, hr, rfl, rfl⟩

theorem album_mem_albumsFor {r : TrackRecord} (hr : r ∈ rs) :
    r.album ∈ (loop std rs).albumsFor r.name r.artist :=
  ((albumsFor_enumerates std rs r.name r.artist).mem_iff r.album).mpr ⟨r, hr, rfl, rfl, rfl⟩

theorem id_mem_idsForGenre {r : TrackRecord} (hr : r ∈ rs) :
    r.id ∈ (loop std rs).idsForGenre.value r.genre :=
  ((idsForGenre_enumerates std rs r.genre).mem_iff r.id).mpr ⟨r, hr, rfl, rfl⟩

end

end SpeechBridge
