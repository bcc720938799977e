import SpeechBridge.Abstract.Views

set_option autoImplicit false

/-! # The library files every record exactly once

`library[a][al]` is reached through two subscripts, each of which may create its key. In every
state between two iterations the slots are exactly the groups of the processed records by
artist and album: no key without a record, no empty slot, no record lost or filed twice.
-/

namespace SpeechBridge

open SortUnique OrderedMap

/-- The records that can be read back from the slots: an entry holds name, id and genre, its
two keys are the artist and the album. -/
def filedRecords (lib : ArtistAlbumTrackMap) : List TrackRecord :=
  lib.toList.flatMap fun (a, albums) =>
    albums.toList.flatMap fun (al, slot) =>
      slot.map fun (name, id, genre) =>
        { name := name, artist := a, album := al, genre := genre, id := id }

/-- The number of entries in all slots. -/
def entryCount (lib : ArtistAlbumTrackMap) : Nat :=
  (lib.toList.map fun p => (p.2.toList.map fun q => q.2.length).sum).sum

theorem length_filedRecords (lib : ArtistAlbumTrackMap) :
    (filedRecords lib).length = entryCount lib := by
  simp only [filedRecords, entryCount, List.length_flatMap, List.length_map]

/-- `lib` files the records `rs`, and nothing else. -/
structure FilesExactly (lib : ArtistAlbumTrackMap) (rs : List TrackRecord) : Prop where
  /-- a slot lists its records in processing order, with multiplicity -/
  slot_eq : ∀ a al, (lib.value a).value al
    = (rs.filter fun r => r.artist = a ∧ r.album = al).map TrackRecord.track
  /-- a slot exists exactly when some record belongs to it -/
  key_iff : ∀ a al, (a ∈ lib ∧ al ∈ lib.value a) ↔ ∃ r ∈ rs, r.artist = a ∧ r.album = al
  artist_iff : ∀ a, a ∈ lib ↔ ∃ r ∈ rs, r.artist = a
  slot_ne_nil : ∀ (a : StdString) (albums : OrderedMap StdString TrackList) (al : StdString)
    (slot : TrackList), lib[a]? = some albums → albums[al]? = some slot → slot ≠ []
  /-- no record is lost, and none is filed twice -/
  filed_perm : (filedRecords lib).Perm rs
  entryCount_eq : entryCount lib = rs.length

section

variable (std : StdAlgorithms)

/-- Reading back the slot of an artist and an album gives the records of that group. -/
theorem map_track_group (rs : List TrackRecord) (a al : StdString) :
    ((group TrackRecord.album (group TrackRecord.artist rs a) al).map TrackRecord.track).map
        (fun (name, id, genre) =>
          ({ name := name, artist := a, album := al, genre := genre, id := id } : TrackRecord))
      = group TrackRecord.album (group TrackRecord.artist rs a) al := by
  rw [List.map_map]
  refine (List.map_congr_left fun r hr => ?_).trans (List.map_id _)
  obtain ⟨_, rfl, rfl⟩ := mem_group_group.mp hr
  rfl

theorem filedRecords_loop_perm (rs : List TrackRecord) :
    (filedRecords (loop std rs).library).Perm rs := by
  rw [loop_eq_view]
  -- ungroup the artists, then the albums of each artist; a slot reads back as its group
  refine flatMap_toList_groupBy_perm fun a => ?_
  refine flatMap_toList_groupBy_perm fun al => ?_
  exact List.Perm.of_eq (map_track_group rs a al)

theorem slot_ne_nil {rs : List TrackRecord} {a al : StdString}
    {albums : OrderedMap StdString TrackList} {slot : TrackList}
    (ha : (loop std rs).library[a]? = some albums) (hal : albums[al]? = some slot) :
    slot ≠ [] := by
  have hslot : slot = (loop std rs).slot a al := by
    rw [Indexes.slot, value_of_getElem? ha, value_of_getElem? hal]
  have hkey : al ∈ (loop std rs).library.value a := by
    rw [value_of_getElem? ha, mem_iff_exists]
    exact ⟨slot, hal⟩
  obtain ⟨r, hr, rfl, rfl⟩ := (mem_library_value std).mp hkey
  rw [hslot]
  exact List.ne_nil_of_mem (track_mem_slot std hr)

/-- **The library is exact in every state between two iterations.** -/
theorem library_filesExactly (rs : List TrackRecord) :
    FilesExactly (loop std rs).library rs where
  slot_eq := slot_loop std rs
  key_iff := by
    intro a al
    rw [mem_library, mem_library_value]
    -- a record behind the inner key is one behind the outer key
    refine and_iff_right_of_imp ?_
    rintro ⟨r, hr, ha, _⟩
    exact ⟨r, hr, ha⟩
  artist_iff := fun _ => mem_library std
  slot_ne_nil := fun _ _ _ _ => slot_ne_nil std
  filed_perm := filedRecords_loop_perm std rs
  entryCount_eq := by
    rw [← length_filedRecords]
    exact (filedRecords_loop_perm std rs).length_eq

/-- A record of empty strings has its slot under the empty artist and the empty album. -/
example : let r : TrackRecord := ⟨default, default, default, default, default⟩
    (loop default [r, r]).library.keys = [default] ∧
      (loop default [r, r]).slot default default = [r.track, r.track] := by decide

end

end SpeechBridge
