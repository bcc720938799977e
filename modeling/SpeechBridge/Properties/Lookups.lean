import SpeechBridge.Abstract.Views

set_option autoImplicit false

/-! # The content of the keyed look-up indexes

Three of the maps hold lists that are sorted and freed of duplicates in every iteration, but
only the lists of the current track are. All lists are in this form nevertheless, and each of
them is complete: `LookupsExact` says what the three maps hold in every state between two
iterations.
-/

namespace SpeechBridge

open SortUnique OrderedMap

/-- The look-up indexes of `s` answer for the records `rs`, and have no other key. -/
structure LookupsExact (s : Indexes) (rs : List TrackRecord) : Prop where
  artists : ∀ t, Enumerates (s.artistsForTrack.value t)
    fun a => ∃ r ∈ rs, r.name = t ∧ r.artist = a
  artists_key : ∀ t, t ∈ s.artistsForTrack ↔ ∃ r ∈ rs, r.name = t
  albums : ∀ t a, Enumerates (s.albumsFor t a)
    fun al => ∃ r ∈ rs, r.name = t ∧ r.artist = a ∧ r.album = al
  albums_key : ∀ t a, (t ∈ s.artistsForTrackWithAlbum ∧ a ∈ s.artistsForTrackWithAlbum.value t) ↔
    ∃ r ∈ rs, r.name = t ∧ r.artist = a
  /-- no name is left with an empty inner map -/
  name_key : ∀ t, t ∈ s.artistsForTrackWithAlbum ↔ ∃ r ∈ rs, r.name = t
  ids : ∀ g, Enumerates (s.idsForGenre.value g) fun i => ∃ r ∈ rs, r.genre = g ∧ r.id = i
  ids_key : ∀ g, g ∈ s.idsForGenre ↔ ∃ r ∈ rs, r.genre = g

/-- **The look-up indexes are exact in every state between two iterations.** -/
theorem lookups_exact (std : StdAlgorithms) (rs : List TrackRecord) :
    LookupsExact (loop std rs) rs where
  artists := artistsForTrack_enumerates std rs
  artists_key := fun _ => mem_artistsForTrack std
  albums := albumsFor_enumerates std rs
  albums_key := by
    intro t a
    rw [mem_artistsForTrackWithAlbum, mem_artistsForTrackWithAlbum_value]
    -- a record behind the inner key is one behind the outer key
    refine and_iff_right_of_imp ?_
    rintro ⟨r, hr, ht, _⟩
    exact ⟨r, hr, ht⟩
  name_key := fun _ => mem_artistsForTrackWithAlbum std
  ids := idsForGenre_enumerates std rs
  ids_key := fun _ => mem_idsForGenre std

end SpeechBridge
