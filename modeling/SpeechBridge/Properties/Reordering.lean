import SpeechBridge.Abstract.Views

set_option autoImplicit false

/-! # The order of the playlist

Nothing in `main` fixes the order in which iTunes enumerates the tracks. Lists that are
normalized do not depend on it, a slot of the library depends on it up to the order of its
entries, and the id index, which overwrites, depends on it unless records with the same id
agree on what it stores (`main_reordering`).
-/

namespace SpeechBridge

open SortUnique OrderedMap

/-- Two final states that differ in the order of the entries of a slot, and possibly in the id
index. -/
structure SameUpToOrder (s s' : Indexes) : Prop where
  artistsForTrack : s.artistsForTrack = s'.artistsForTrack
  artistsForTrackWithAlbum : s.artistsForTrackWithAlbum = s'.artistsForTrackWithAlbum
  idsForGenre : s.idsForGenre = s'.idsForGenre
  tracks : s.tracks = s'.tracks
  albums : s.albums = s'.albums
  artists : s.artists = s'.artists
  genres : s.genres = s'.genres
  library_keys : s.library.keys = s'.library.keys
  album_keys : ∀ a, (s.library.value a).keys = (s'.library.value a).keys
  slot : ∀ a al, (s.slot a al).Perm (s'.slot a al)

section

variable (std : StdAlgorithms) {rs rs' : List TrackRecord}

theorem library_keys_perm (h : rs.Perm rs') :
    (loop std rs).library.keys = (loop std rs').library.keys := by
  have hmem : ∀ a, a ∈ (loop std rs').library ↔ a ∈ (loop std rs).library := by
    intro a
    simp only [mem_library, h.mem_iff]
  exact (keys_enumerates _).unique ((keys_enumerates _).congr hmem)

theorem album_keys_perm (h : rs.Perm rs') (a : StdString) :
    ((loop std rs).library.value a).keys = ((loop std rs').library.value a).keys := by
  have hmem : ∀ al, al ∈ (loop std rs').library.value a ↔ al ∈ (loop std rs).library.value a := by
    intro al
    simp only [mem_library_value, h.mem_iff]
  exact (keys_enumerates _).unique ((keys_enumerates _).congr hmem)

theorem slot_perm (h : rs.Perm rs') (a al : StdString) :
    ((loop std rs).slot a al).Perm ((loop std rs').slot a al) := by
  rw [slot_loop, slot_loop]
  exact (h.filter _).map _

theorem main_sameUpToOrder (h : rs.Perm rs') : SameUpToOrder (main std rs) (main std rs') where
  artistsForTrack := by
    show (loop std rs).artistsForTrack = (loop std rs').artistsForTrack
    rw [loop_eq_view, loop_eq_view]
    exact groupBy_perm (canonical_map_perm _) h
  artistsForTrackWithAlbum := by
    show (loop std rs).artistsForTrackWithAlbum = (loop std rs').artistsForTrackWithAlbum
    rw [loop_eq_view, loop_eq_view]
    exact groupBy_perm (groupBy_perm (canonical_map_perm _)) h
  idsForGenre := by
    show (loop std rs).idsForGenre = (loop std rs').idsForGenre
    rw [loop_eq_view, loop_eq_view]
    exact groupBy_perm (canonical_map_perm _) h
  tracks := by
    rw [main_tracks, main_tracks]
    exact canonical_map_perm _ h
  albums := by
    rw [main_albums, main_albums]
    exact canonical_map_perm _ h
  artists := by
    rw [main_artists, main_artists]
    exact canonical_map_perm _ h
  genres := by
    rw [main_genres, main_genres]
    exact canonical_map_perm _ h
  library_keys := library_keys_perm std h
  album_keys := album_keys_perm std h
  slot := slot_perm std h

theorem idIndex_perm_iff (rs : List TrackRecord) :
    (∀ rs₁ rs₂, rs₁.Perm rs → rs₂.Perm rs →
        (main std rs₁).idForTrackWithArtistAlbum = (main std rs₂).idForTrackWithArtistAlbum) ↔
      ∀ r ∈ rs, ∀ r' ∈ rs, r.id = r'.id →
        r.name = r'.name ∧ r.artist = r'.artist ∧ r.album = r'.album := by
  have hmain : ∀ l, (main std l).idForTrackWithArtistAlbum
      = groupBy TrackRecord.id (lastOf TrackRecord.details) l := by
    intro l
    show (loop std l).idForTrackWithArtistAlbum = _
    rw [loop_eq_view]
    rfl
  -- the general law about maps of last values, at the details of a record
  simp only [hmain]
  rw [groupBy_lastOf_perm_iff]
  simp only [TrackRecord.details, Prod.mk.injEq]

/-- **What the order of the playlist can change**: the order of the entries within a slot, and
the id index exactly when two records share an id and differ in name, artist or album. -/
theorem main_reordering :
    (∀ rs rs' : List TrackRecord, rs.Perm rs' → SameUpToOrder (main std rs) (main std rs')) ∧
    ∀ rs : List TrackRecord,
      (∀ rs₁ rs₂, rs₁.Perm rs → rs₂.Perm rs →
        (main std rs₁).idForTrackWithArtistAlbum = (main std rs₂).idForTrackWithArtistAlbum) ↔
      ∀ r ∈ rs, ∀ r' ∈ rs, r.id = r'.id →
        r.name = r'.name ∧ r.artist = r'.artist ∧ r.album = r'.album :=
  ⟨fun _ _ h => main_sameUpToOrder std h, idIndex_perm_iff std⟩

/-- Two names under one id: the later record wins. -/
example : let r : TrackRecord := ⟨⟨[65]⟩, default, default, default, ⟨[49]⟩⟩
    let r' : TrackRecord := { r with name := ⟨[66]⟩ }
    (main default [r, r']).idForTrackWithArtistAlbum.toList = [(r.id, r'.details)] ∧
      (main default [r', r]).idForTrackWithArtistAlbum.toList = [(r.id, r.details)] := by decide

end

end SpeechBridge
