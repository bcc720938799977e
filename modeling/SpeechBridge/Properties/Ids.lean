import SpeechBridge.Abstract.Views

set_option autoImplicit false

/-! # The three indexes that hold ids

Ids occur in the slots of the library, as keys of `idForTrackWithArtistAlbum` and in the lists
of `idsForGenre`. The first accumulates, the second overwrites and the third merges.

* With arbitrary ids no index dangles, and the id index holds the last record of each id,
  which the other two still back (`no_dangling_id`).
* With distinct ids the three describe the same set of tracks (`idIndexes_agree`). The code
  relies on iTunes for that and does not check it.
-/

namespace SpeechBridge

open SortUnique OrderedMap

/-- The ids of the entries of `library[a][al]`. -/
def Indexes.slotIds (s : Indexes) (a al : StdString) : StrList :=
  (s.slot a al).map fun x => x.2.1

section

variable (std : StdAlgorithms) {rs : List TrackRecord}

theorem slotIds_loop (rs : List TrackRecord) (a al : StdString) :
    (loop std rs).slotIds a al
      = (rs.filter fun r => r.artist = a ∧ r.album = al).map TrackRecord.id := by
  rw [Indexes.slotIds, slot_loop, List.map_map]
  rfl

theorem mem_slotIds {a al i : StdString} :
    i ∈ (loop std rs).slotIds a al ↔ ∃ r ∈ rs, r.artist = a ∧ r.album = al ∧ r.id = i := by
  rw [slotIds_loop]
  simp [and_assoc]

/-! ## Repeated ids: no dangling id, and the last word -/

theorem mem_some_genre_iff {i : StdString} :
    (∃ g, i ∈ (loop std rs).idsForGenre.value g) ↔ ∃ r ∈ rs, r.id = i := by
  constructor
  · rintro ⟨g, hg⟩
    obtain ⟨r, hr, _, hi⟩ := ((idsForGenre_enumerates std rs g).mem_iff i).mp hg
    exact ⟨r, hr, hi⟩
  · rintro ⟨r, hr, rfl⟩
    exact ⟨r.genre, id_mem_idsForGenre std hr⟩

theorem mem_some_slot_iff {i : StdString} :
    (∃ a al, i ∈ (loop std rs).slotIds a al) ↔ ∃ r ∈ rs, r.id = i := by
  constructor
  · rintro ⟨a, al, h⟩
    obtain ⟨r, hr, _, _, hi⟩ := (mem_slotIds std).mp h
    exact ⟨r, hr, hi⟩
  · rintro ⟨r, hr, hi⟩
    exact ⟨r.artist, r.album, (mem_slotIds std).mpr ⟨r, hr, rfl, rfl, hi⟩⟩

/-- `r` is the last of the records `rs` with its id. -/
def IsLastWithId (rs : List TrackRecord) (r : TrackRecord) : Prop :=
  ∃ before after, rs = before ++ r :: after ∧ ∀ r' ∈ after, r'.id ≠ r.id

theorem IsLastWithId.mem {r : TrackRecord} (h : IsLastWithId rs r) : r ∈ rs := by
  obtain ⟨before, after, rfl, _⟩ := h
  simp

theorem exists_last_of_getElem? {i : StdString} {d : TrackDetails}
    (h : (loop std rs).idForTrackWithArtistAlbum[i]? = some d) :
    ∃ r, IsLastWithId rs r ∧ r.id = i ∧ r.details = d := by
  obtain ⟨before, r, after, hrs, rfl, hafter, hd⟩ :=
    (getElem?_idForTrackWithArtistAlbum std).mp h
  exact ⟨r, ⟨before, after, hrs, hafter⟩, rfl, hd⟩

/-- **No id dangles, and the id index is the latest word**, whatever ids repeat: the three
indexes know the same ids, and the entry of an id describes its last record, which is still in
its slot of the library and in the list of its genre. -/
theorem no_dangling_id (rs : List TrackRecord) :
    (∀ i, (i ∈ (loop std rs).idForTrackWithArtistAlbum ↔
        ∃ g, i ∈ (loop std rs).idsForGenre.value g) ∧
      (i ∈ (loop std rs).idForTrackWithArtistAlbum ↔
        ∃ a al t g, (t, i, g) ∈ (loop std rs).slot a al)) ∧
    ∀ i t a al, (loop std rs).idForTrackWithArtistAlbum[i]? = some (t, a, al) →
      ∃ r, IsLastWithId rs r ∧ r.id = i ∧ r.name = t ∧ r.artist = a ∧ r.album = al ∧
        (t, i, r.genre) ∈ (loop std rs).slot a al ∧
        i ∈ (loop std rs).idsForGenre.value r.genre := by
  refine ⟨fun i => ⟨?_, ?_⟩, ?_⟩
  -- each of the three knows exactly the ids of the processed records
  · rw [mem_idForTrackWithArtistAlbum, mem_some_genre_iff]
  · rw [mem_idForTrackWithArtistAlbum, ← mem_some_slot_iff std]
    simp [Indexes.slotIds]
  · intro i t a al h
    obtain ⟨r, hlast, rfl, hd⟩ := exists_last_of_getElem? std h
    obtain ⟨rfl, rfl, rfl⟩ : r.name = t ∧ r.artist = a ∧ r.album = al := by
      simpa [TrackRecord.details] using hd
    -- the last record with the id was processed, so the other two indexes back it
    have hslot : r.track ∈ (loop std rs).slot r.artist r.album := track_mem_slot std hlast.mem
    have hgenre : r.id ∈ (loop std rs).idsForGenre.value r.genre :=
      id_mem_idsForGenre std hlast.mem
    exact ⟨r, hlast, rfl, rfl, rfl, rfl, hslot, hgenre⟩

/-! ## Distinct ids: the three indexes agree -/

/-- `i` occurs in exactly one slot of the library and in exactly one list of a genre, in both
once, and is a key of the id index. -/
structure OccursOnce (s : Indexes) (i : StdString) : Prop where
  slot : ∃ a al, (s.slotIds a al).count i = 1 ∧
    ∀ a' al', i ∈ s.slotIds a' al' → a' = a ∧ al' = al
  genre : ∃ g, (s.idsForGenre.value g).count i = 1 ∧
    ∀ g', i ∈ s.idsForGenre.value g' → g' = g
  key : i ∈ s.idForTrackWithArtistAlbum

/-- `i` occurs in none of the three indexes. -/
structure OccursNowhere (s : Indexes) (i : StdString) : Prop where
  slot : ∀ a al, i ∉ s.slotIds a al
  genre : ∀ g, i ∉ s.idsForGenre.value g
  key : i ∉ s.idForTrackWithArtistAlbum

/-- The three indexes describe one set of tracks. -/
structure IdIndexesAgree (s : Indexes) : Prop where
  mem_slot_iff : ∀ a al t i g, (t, i, g) ∈ s.slot a al ↔
    s.idForTrackWithArtistAlbum[i]? = some (t, a, al) ∧ i ∈ s.idsForGenre.value g
  once_or_nowhere : ∀ i, OccursOnce s i ∨ OccursNowhere s i

section Distinct

variable (hid : (rs.map TrackRecord.id).Nodup)

include hid

/-- A record is known by its id. -/
theorem eq_of_id_eq {r r' : TrackRecord} (hr : r ∈ rs) (hr' : r' ∈ rs) (h : r.id = r'.id) :
    r = r' := List.inj_on_of_nodup_map hid hr hr' h

/-- No later record overwrites an entry of the id index. -/
theorem getElem?_id_of_mem {r : TrackRecord} (hr : r ∈ rs) :
    (loop std rs).idForTrackWithArtistAlbum[r.id]? = some r.details := by
  have hkey : r.id ∈ (loop std rs).idForTrackWithArtistAlbum :=
    (mem_idForTrackWithArtistAlbum std).mpr ⟨r, hr, rfl⟩
  obtain ⟨d, hd⟩ := (mem_iff_exists _ _).mp hkey
  -- the last record with the id is the only one
  obtain ⟨r', hlast, hid', rfl⟩ := exists_last_of_getElem? std hd
  rw [hd, eq_of_id_eq hid hlast.mem hr hid']

theorem mem_slot_iff_of_distinct (a al t i g : StdString) :
    (t, i, g) ∈ (loop std rs).slot a al ↔
      (loop std rs).idForTrackWithArtistAlbum[i]? = some (t, a, al) ∧
        i ∈ (loop std rs).idsForGenre.value g := by
  constructor
  · intro h
    obtain ⟨r, hr, rfl, rfl, htrack⟩ := (mem_slot_loop std).mp h
    obtain ⟨rfl, rfl, rfl⟩ : r.name = t ∧ r.id = i ∧ r.genre = g := by
      simpa [TrackRecord.track] using htrack
    have hdetails : (loop std rs).idForTrackWithArtistAlbum[r.id]? = some r.details :=
      getElem?_id_of_mem std hid hr
    exact ⟨hdetails, id_mem_idsForGenre std hr⟩
  · rintro ⟨hd, hg⟩
    -- the record behind the id index and the one behind the genre are the same
    obtain ⟨r, hlast, rfl, hdetails⟩ := exists_last_of_getElem? std hd
    obtain ⟨r', hr', rfl, hid'⟩ := ((idsForGenre_enumerates std rs g).mem_iff r.id).mp hg
    obtain rfl : r = r' := eq_of_id_eq hid hlast.mem hr' hid'.symm
    obtain ⟨rfl, rfl, rfl⟩ : r.name = t ∧ r.artist = a ∧ r.album = al := by
      simpa [TrackRecord.details] using hdetails
    exact track_mem_slot std hr'

theorem slotIds_nodup (a al : StdString) : ((loop std rs).slotIds a al).Nodup := by
  rw [slotIds_loop]
  exact hid.sublist (List.filter_sublist.map _)

theorem occursOnce_of_mem {r : TrackRecord} (hr : r ∈ rs) : OccursOnce (loop std rs) r.id where
  slot := by
    have hmem : r.id ∈ (loop std rs).slotIds r.artist r.album :=
      (mem_slotIds std).mpr ⟨r, hr, rfl, rfl, rfl⟩
    refine ⟨r.artist, r.album, ?_, ?_⟩
    · exact List.count_eq_one_of_mem (slotIds_nodup std hid _ _) hmem
    · intro a' al' h
      obtain ⟨r', hr', rfl, rfl, hid'⟩ := (mem_slotIds std).mp h
      rw [eq_of_id_eq hid hr' hr hid']
      exact ⟨rfl, rfl⟩
  genre := by
    have hnodup : ((loop std rs).idsForGenre.value r.genre).Nodup :=
      (idsForGenre_enumerates std rs r.genre).nodup
    refine ⟨r.genre, ?_, ?_⟩
    · exact List.count_eq_one_of_mem hnodup (id_mem_idsForGenre std hr)
    · intro g' h
      obtain ⟨r', hr', rfl, hid'⟩ := ((idsForGenre_enumerates std rs g').mem_iff r.id).mp h
      rw [eq_of_id_eq hid hr' hr hid']
  key := (mem_idForTrackWithArtistAlbum std).mpr ⟨r, hr, rfl⟩

end Distinct

theorem occursNowhere_of_not_mem {i : StdString} (h : ¬ ∃ r ∈ rs, r.id = i) :
    OccursNowhere (loop std rs) i where
  slot := fun a al hmem => h ((mem_some_slot_iff std).mp ⟨a, al, hmem⟩)
  genre := fun g hmem => h ((mem_some_genre_iff std).mp ⟨g, hmem⟩)
  key := fun hmem => h ((mem_idForTrackWithArtistAlbum std).mp hmem)

/-- **With distinct ids the three indexes agree** in every state between two iterations. -/
theorem idIndexes_agree (rs : List TrackRecord) (hid : (rs.map TrackRecord.id).Nodup) :
    IdIndexesAgree (loop std rs) where
  mem_slot_iff := mem_slot_iff_of_distinct std hid
  once_or_nowhere := by
    intro i
    by_cases h : ∃ r ∈ rs, r.id = i
    · obtain ⟨r, hr, rfl⟩ := h
      exact Or.inl (occursOnce_of_mem std hid hr)
    · exact Or.inr (occursNowhere_of_not_mem std h)

/-- Two tracks of one name, artist and album with their own ids. -/
theorem idIndexes_agree_two :
    let a : TrackRecord := ⟨⟨[83]⟩, ⟨[65]⟩, ⟨[66]⟩, ⟨[71]⟩, ⟨[49]⟩⟩
    let b : TrackRecord := ⟨⟨[83]⟩, ⟨[65]⟩, ⟨[66]⟩, ⟨[71]⟩, ⟨[50]⟩⟩
    ([a, b].map TrackRecord.id).Nodup ∧ IdIndexesAgree (loop default [a, b]) :=
  ⟨by decide, idIndexes_agree default _ (by decide)⟩

end

end SpeechBridge
