import SpeechBridge.Abstract.Views

set_option autoImplicit false

/-! # The look-up chain from a name to its tracks

To play a track by its name a client asks for its artists, for each artist for the albums with
such a track, and for each album for the entries with the name. `walk` follows this chain
through the three indexes and stops with `none` at a look-up that finds no key or an empty
list.

The chain composes three indexes that are built by different rules. It reaches every track of
the name, each as often as it was processed, because the two deduplicated lists name every
group of records exactly once (`reached_perm`).
-/

namespace SpeechBridge

open SortUnique OrderedMap

/-! ## The chain -/

/-- The concatenation of what a loop over a list collects; it stops at the first failure. -/
def collect {α β : Type} (f : α → Option (List β)) : List α → Option (List β)
  | [] => some []
  | a :: l => do
      let found ← f a
      let rest ← collect f l
      return found ++ rest

/-- `library[a][al]`, reduced to the entries named `t`. -/
def walkAlbum (s : Indexes) (t a al : StdString) : Option TrackList := do
  let albums ← s.library.lookup a
  let slot ← albums.lookupNonempty al
  return slot.filter fun x => x.1 = t

/-- The albums `artists_for_track_with_album[t][a]` one after the other. -/
def walkArtist (s : Indexes) (t a : StdString) : Option TrackList := do
  let inner ← s.artistsForTrackWithAlbum.lookup t
  let albums ← inner.lookupNonempty a
  collect (walkAlbum s t a) albums

/-- The artists `artists_for_track[t]` one after the other. -/
def walk (s : Indexes) (t : StdString) : Option TrackList := do
  let artists ← s.artistsForTrack.lookupNonempty t
  collect (walkArtist s t) artists

/-- What the chain collects when a missing key is read as an empty list. -/
def reached (s : Indexes) (t : StdString) : TrackList :=
  (s.artistsForTrack.value t).flatMap fun a =>
    (s.albumsFor t a).flatMap fun al => (s.slot a al).filter fun x => x.1 = t

theorem collect_eq_some {α β : Type} {f : α → Option (List β)} {g : α → List β} {l : List α}
    (h : ∀ a ∈ l, f a = some (g a)) : collect f l = some (l.flatMap g) := by
  induction l with
  | nil => rfl
  | cons a l ih =>
      have hrest : collect f l = some (l.flatMap g) := ih fun b hb => h b (List.mem_cons_of_mem a hb)
      rw [collect, h a List.mem_cons_self, hrest]
      rfl

section

variable (std : StdAlgorithms) {rs : List TrackRecord}

/-! ## Every look-up succeeds -/

theorem walkAlbum_loop {t a al : StdString} (h : ∃ r ∈ rs, r.artist = a ∧ r.album = al) :
    walkAlbum (loop std rs) t a al
      = some (((loop std rs).slot a al).filter fun x => x.1 = t) := by
  obtain ⟨r, hr, rfl, rfl⟩ := h
  have hartist : r.artist ∈ (loop std rs).library := (mem_library std).mpr ⟨r, hr, rfl⟩
  have halbum : r.album ∈ (loop std rs).library.value r.artist :=
    (mem_library_value std).mpr ⟨r, hr, rfl, rfl⟩
  have hne : (loop std rs).slot r.artist r.album ≠ [] := List.ne_nil_of_mem (track_mem_slot std hr)
  unfold walkAlbum
  rw [lookup_of_mem hartist, Option.bind_eq_bind, Option.bind_some,
    lookupNonempty_of_mem halbum hne]
  rfl

theorem walkArtist_loop {t a : StdString} (h : ∃ r ∈ rs, r.name = t ∧ r.artist = a) :
    walkArtist (loop std rs) t a = some (((loop std rs).albumsFor t a).flatMap fun al =>
      ((loop std rs).slot a al).filter fun x => x.1 = t) := by
  obtain ⟨r, hr, rfl, rfl⟩ := h
  have hname : r.name ∈ (loop std rs).artistsForTrackWithAlbum :=
    (mem_artistsForTrackWithAlbum std).mpr ⟨r, hr, rfl⟩
  have hartist : r.artist ∈ (loop std rs).artistsForTrackWithAlbum.value r.name :=
    (mem_artistsForTrackWithAlbum_value std).mpr ⟨r, hr, rfl, rfl⟩
  have hne : (loop std rs).albumsFor r.name r.artist ≠ [] :=
    List.ne_nil_of_mem (album_mem_albumsFor std hr)
  unfold walkArtist
  rw [lookup_of_mem hname, Option.bind_eq_bind, Option.bind_some,
    lookupNonempty_of_mem hartist hne]
  refine collect_eq_some fun al hal => ?_
  obtain ⟨r', hr', _, ha', hal'⟩ := ((albumsFor_enumerates std rs _ _).mem_iff al).mp hal
  exact walkAlbum_loop std ⟨r', hr', ha', hal'⟩

theorem walk_loop_eq_reached {t : StdString} (h : ∃ r ∈ rs, r.name = t) :
    walk (loop std rs) t = some (reached (loop std rs) t) := by
  obtain ⟨r, hr, rfl⟩ := h
  have hname : r.name ∈ (loop std rs).artistsForTrack :=
    (mem_artistsForTrack std).mpr ⟨r, hr, rfl⟩
  have hne : (loop std rs).artistsForTrack.value r.name ≠ [] :=
    List.ne_nil_of_mem (artist_mem_artistsForTrack std hr)
  unfold walk
  rw [lookupNonempty_of_mem hname hne]
  refine collect_eq_some fun a ha => ?_
  exact walkArtist_loop std (((artistsForTrack_enumerates std rs r.name).mem_iff a).mp ha)

/-! ## Every track is reached as often as it was processed -/

/-- The entries of a slot with a name are the tracks of the group of name, artist and
album. -/
theorem filter_slot_loop (rs : List TrackRecord) (t a al : StdString) :
    ((loop std rs).slot a al).filter (fun x => x.1 = t)
      = (group TrackRecord.album (group TrackRecord.artist (group TrackRecord.name rs t) a)
          al).map TrackRecord.track := by
  rw [slot_loop, List.filter_map, group_group, group, List.filter_filter, List.filter_filter]
  refine congrArg (List.map TrackRecord.track) (List.filter_congr fun r _ => ?_)
  have hname : r.track.1 = r.name := rfl
  rw [Bool.eq_iff_iff]
  simp only [Function.comp_apply, Bool.and_eq_true, decide_eq_true_eq, hname]
  tauto

/-- Below one artist the slots of the listed albums reach the tracks of the name by that
artist. -/
theorem reached_artist_perm (rs : List TrackRecord) (t a : StdString) :
    (((loop std rs).albumsFor t a).flatMap fun al =>
      ((loop std rs).slot a al).filter fun x => x.1 = t).Perm
    ((group TrackRecord.artist (group TrackRecord.name rs t) a).map TrackRecord.track) := by
  have halbums := albumsFor_enumerates std rs t a
  -- no album is missing, so the groups by album cover the group of the artist
  have hcov : ∀ r ∈ group TrackRecord.artist (group TrackRecord.name rs t) a,
      r.album ∈ (loop std rs).albumsFor t a := by
    intro r hr
    obtain ⟨hr', ht, ha⟩ := mem_group_group.mp hr
    exact (halbums.mem_iff r.album).mpr ⟨r, hr', ht, ha, rfl⟩
  simp only [filter_slot_loop, ← List.map_flatMap]
  -- and none is listed twice, so no track is counted twice
  exact (flatMap_group_perm halbums.nodup hcov).map TrackRecord.track

theorem reached_perm (rs : List TrackRecord) (t : StdString) :
    (reached (loop std rs) t).Perm ((rs.filter fun r => r.name = t).map TrackRecord.track) := by
  set named := group TrackRecord.name rs t with hnamed
  have hartists := artistsForTrack_enumerates std rs t
  have hcov : ∀ r ∈ named, r.artist ∈ (loop std rs).artistsForTrack.value t := by
    intro r hr
    obtain ⟨hr', ht⟩ := mem_group.mp hr
    exact (hartists.mem_iff r.artist).mpr ⟨r, hr', ht, rfl⟩
  have houter : (((loop std rs).artistsForTrack.value t).flatMap
      (group TrackRecord.artist named)).Perm named := flatMap_group_perm hartists.nodup hcov
  calc (reached (loop std rs) t).Perm
        (((loop std rs).artistsForTrack.value t).flatMap fun a =>
          (group TrackRecord.artist named a).map TrackRecord.track) :=
          List.Perm.flatMap_left _ fun a _ => reached_artist_perm std rs t a
    _ = (((loop std rs).artistsForTrack.value t).flatMap (group TrackRecord.artist named)).map
          TrackRecord.track := List.map_flatMap.symm
    List.Perm _ (named.map TrackRecord.track) := houter.map TrackRecord.track

/-- **The look-up chain is complete.** From the name of a processed record every look-up
succeeds on an existing key with a non-empty result, and what is collected are the tracks of
that name, each as often as it was processed. From any other name the chain ends at its first
look-up: there is no key, and no track to find. -/
theorem walk_loop (rs : List TrackRecord) (t : StdString) :
    ((∃ r ∈ rs, r.name = t) → ∃ l, walk (loop std rs) t = some l ∧
      l.Perm ((rs.filter fun r => r.name = t).map TrackRecord.track)) ∧
    ((¬ ∃ r ∈ rs, r.name = t) → t ∉ (loop std rs).artistsForTrack ∧
      walk (loop std rs) t = none ∧ (rs.filter fun r => r.name = t) = []) := by
  constructor
  · intro h
    exact ⟨_, walk_loop_eq_reached std h, reached_perm std rs t⟩
  · intro h
    have hkey : t ∉ (loop std rs).artistsForTrack := fun hmem =>
      h ((mem_artistsForTrack std).mp hmem)
    refine ⟨hkey, ?_, ?_⟩
    · rw [walk, lookupNonempty_of_not_mem hkey]
      rfl
    · rw [List.filter_eq_nil_iff]
      intro r hr hname
      exact h ⟨r, hr, by simpa using hname⟩

/-- The chain does not succeed from every name: before the first record there is no key. -/
theorem walk_not_total :
    ¬ ∀ (rs : List TrackRecord) (t : StdString), ∃ l, walk (loop default rs) t = some l ∧
      l.Perm ((rs.filter fun r => r.name = t).map TrackRecord.track) := by
  intro h
  obtain ⟨l, hl, _⟩ := h [] default
  have hnone : walk (loop default []) default = none := by decide
  rw [hnone] at hl
  cases hl

end

end SpeechBridge
