import SpeechBridge.Abstract.Views

set_option autoImplicit false

/-! # The flat catalogues and the keys of the indexes

The names a client can choose from are kept twice: as flat lists that are normalized once
after the loop, and as the keys the subscripts create on the way. Both enumerate the same
sets in ascending order, so they are equal as sequences (`catalogues_agree`).
-/

namespace SpeechBridge

open SortUnique OrderedMap

/-- The catalogue `c` is the ascending key sequence of the index `m`; every name in it has a
non-empty entry (the default value of a list or a map is the empty one), and every entry is in
the catalogue. -/
structure CatalogueOf {V : Type} [Inhabited V] (c : StrList) (m : OrderedMap StdString V) :
    Prop where
  eq_keys : c = m.keys
  entry : ∀ k ∈ c, k ∈ m ∧ m.value k ≠ default
  listed : ∀ k ∈ m, k ∈ c

/-- The catalogues of `s` agree with its keyed indexes. -/
structure CataloguesAgree (s : Indexes) : Prop where
  artists : CatalogueOf s.artists s.library
  tracks : CatalogueOf s.tracks s.artistsForTrack
  tracks_with_album : CatalogueOf s.tracks s.artistsForTrackWithAlbum
  genres : CatalogueOf s.genres s.idsForGenre
  /-- the albums are the inner keys of the library, over all artists -/
  albums : Enumerates s.albums fun al => ∃ a, a ∈ s.library ∧ al ∈ s.library.value a
  album_entry : ∀ al ∈ s.albums, ∃ a ∈ s.library, al ∈ s.library.value a ∧ s.slot a al ≠ []
  album_listed : ∀ a ∈ s.library, ∀ al ∈ s.library.value a, al ∈ s.albums
  artists_for_track : ∀ t, s.artistsForTrack.value t = (s.artistsForTrackWithAlbum.value t).keys

/-- The names of a field, normalized, are the catalogue of an index with this field as its key,
when the index has a non-empty entry for every record. -/
theorem catalogueOf_canonical_map {V : Type} [Inhabited V] {m : OrderedMap StdString V}
    {rs : List TrackRecord} {f : TrackRecord → StdString}
    (hkeys : ∀ k, k ∈ m ↔ ∃ r ∈ rs, f r = k) (hne : ∀ r ∈ rs, m.value (f r) ≠ default) :
    CatalogueOf (canonical (rs.map f)) m := by
  have hlist : ∀ k, k ∈ canonical (rs.map f) ↔ ∃ r ∈ rs, f r = k := by
    intro k
    rw [mem_canonical, List.mem_map]
  refine ⟨?_, ?_, ?_⟩
  · -- both sequences enumerate the same set in ascending order
    refine (canonical_enumerates (rs.map f)).unique (m.keys_enumerates.congr fun k => ?_)
    rw [hkeys, List.mem_map]
  · intro k hk
    obtain ⟨r, hr, rfl⟩ := (hlist k).mp hk
    exact ⟨(hkeys (f r)).mpr ⟨r, hr, rfl⟩, hne r hr⟩
  · intro k hk
    exact (hlist k).mpr ((hkeys k).mp hk)

section

variable (std : StdAlgorithms)

theorem artists_catalogueOf (rs : List TrackRecord) :
    CatalogueOf (main std rs).artists (main std rs).library := by
  rw [main_artists]
  refine catalogueOf_canonical_map (fun _ => mem_library std) fun r hr => ?_
  have halbum : r.album ∈ (loop std rs).library.value r.artist :=
    (mem_library_value std).mpr ⟨r, hr, rfl, rfl⟩
  exact Std.ExtTreeMap.ne_empty_of_mem halbum

theorem tracks_catalogueOf (rs : List TrackRecord) :
    CatalogueOf (main std rs).tracks (main std rs).artistsForTrack := by
  rw [main_tracks]
  refine catalogueOf_canonical_map (fun _ => mem_artistsForTrack std) fun r hr => ?_
  exact List.ne_nil_of_mem (artist_mem_artistsForTrack std hr)

theorem tracks_catalogueOf_with_album (rs : List TrackRecord) :
    CatalogueOf (main std rs).tracks (main std rs).artistsForTrackWithAlbum := by
  rw [main_tracks]
  refine catalogueOf_canonical_map (fun _ => mem_artistsForTrackWithAlbum std) fun r hr => ?_
  have hartist : r.artist ∈ (loop std rs).artistsForTrackWithAlbum.value r.name :=
    (mem_artistsForTrackWithAlbum_value std).mpr ⟨r, hr, rfl, rfl⟩
  exact Std.ExtTreeMap.ne_empty_of_mem hartist

theorem genres_catalogueOf (rs : List TrackRecord) :
    CatalogueOf (main std rs).genres (main std rs).idsForGenre := by
  rw [main_genres]
  refine catalogueOf_canonical_map (fun _ => mem_idsForGenre std) fun r hr => ?_
  exact List.ne_nil_of_mem (id_mem_idsForGenre std hr)

theorem mem_main_albums {rs : List TrackRecord} {al : StdString} :
    al ∈ (main std rs).albums ↔ ∃ r ∈ rs, r.album = al := by
  rw [main_albums, mem_canonical, List.mem_map]

theorem albums_enumerate (rs : List TrackRecord) : Enumerates (main std rs).albums
    fun al => ∃ a, a ∈ (main std rs).library ∧ al ∈ (main std rs).library.value a := by
  rw [main_albums]
  refine (canonical_enumerates _).congr fun al => ?_
  rw [List.mem_map]
  constructor
  · rintro ⟨r, hr, rfl⟩
    have hartist : r.artist ∈ (loop std rs).library := (mem_library std).mpr ⟨r, hr, rfl⟩
    have halbum : r.album ∈ (loop std rs).library.value r.artist :=
      (mem_library_value std).mpr ⟨r, hr, rfl, rfl⟩
    exact ⟨r.artist, hartist, halbum⟩
  · -- an album belongs to the union whatever artist it is filed under
    rintro ⟨a, _, hal⟩
    obtain ⟨r, hr, _, hal'⟩ := (mem_library_value std).mp hal
    exact ⟨r, hr, hal'⟩

/-- **After the loop the flat catalogues and the keyed indexes agree** as sequences. -/
theorem catalogues_agree (rs : List TrackRecord) : CataloguesAgree (main std rs) where
  artists := artists_catalogueOf std rs
  tracks := tracks_catalogueOf std rs
  tracks_with_album := tracks_catalogueOf_with_album std rs
  genres := genres_catalogueOf std rs
  albums := albums_enumerate std rs
  album_entry := by
    intro al hal
    obtain ⟨r, hr, rfl⟩ := (mem_main_albums std).mp hal
    have hartist : r.artist ∈ (loop std rs).library := (mem_library std).mpr ⟨r, hr, rfl⟩
    have halbum : r.album ∈ (loop std rs).library.value r.artist :=
      (mem_library_value std).mpr ⟨r, hr, rfl, rfl⟩
    have hslot : (loop std rs).slot r.artist r.album ≠ [] :=
      List.ne_nil_of_mem (track_mem_slot std hr)
    exact ⟨r.artist, hartist, halbum, hslot⟩
  album_listed := fun a ha al hal => ((albums_enumerate std rs).mem_iff al).mpr ⟨a, ha, hal⟩
  artists_for_track := by
    intro t
    have hkeys : Enumerates ((loop std rs).artistsForTrackWithAlbum.value t).keys
        fun a => ∃ r ∈ rs, r.name = t ∧ r.artist = a :=
      (keys_enumerates _).congr fun _ => mem_artistsForTrackWithAlbum_value std
    exact (artistsForTrack_enumerates std rs t).unique hkeys

end

end SpeechBridge
