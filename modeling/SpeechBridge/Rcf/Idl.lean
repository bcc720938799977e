import SpeechBridge.Rcf.Marshal

set_option autoImplicit false

/-! # Interfaces

An interface is a name and a list of functions, which `src/RCF/include/RCF/Idl.hpp` numbers in
the order of their declaration. `I_ITSB` is the interface of the program, `src/include/IPC.h`.
-/

namespace SpeechBridge.Rcf

open SpeechBridge.Sf

/-- The types of the parameters of a function and of its result, if it has one. -/
structure Method where
  parameters : List SfType
  result : Option SfType
  deriving DecidableEq, Repr

def Method.results (m : Method) : List SfType := m.result.toList

/-- An interface has a name. `RCF_MAKE_NEXT_DISPATCH_ID` has ids for 36 functions. -/
structure Interface where
  name : StdString
  methods : List Method
  named : name.bytes ≠ []
  few : methods.length ≤ 36

namespace Interface

variable (I : Interface)

abbrev Fn : Type := Fin I.methods.length

def method (fn : I.Fn) : Method := I.methods.get fn

/-- Functions are numbered from zero on. -/
def fnId (fn : I.Fn) : Int32 := Int32.ofNat fn.val

/-- The function with an id. -/
def function (fnId : Int32) : Option I.Fn :=
  if h : 0 ≤ fnId.toInt ∧ fnId.toInt.toNat < I.methods.length then some ⟨_, h.2⟩ else none

theorem fnId_toInt (fn : I.Fn) : (I.fnId fn).toInt = fn.val := by
  have hlt := fn.isLt
  have hfew := I.few
  exact Int32.toInt_ofNat_of_lt (by omega)

theorem function_fnId (fn : I.Fn) : I.function (I.fnId fn) = some fn := by
  have hnat : (I.fnId fn).toInt.toNat = fn.val := by rw [I.fnId_toInt, Int.toNat_natCast]
  have hcond : 0 ≤ (I.fnId fn).toInt ∧ (I.fnId fn).toInt.toNat < I.methods.length := by
    rw [hnat, I.fnId_toInt]
    exact ⟨Int.natCast_nonneg _, fn.isLt⟩
  rw [function, dif_pos hcond]
  exact congrArg some (Fin.ext hnat)

theorem fnId_ne (fn : I.Fn) : I.fnId fn ≠ -1 := by
  intro h
  have hint := I.fnId_toInt fn
  rw [h] at hint
  have hneg : (-1 : Int32).toInt = -1 := rfl
  omega

end Interface

/-! ## The interface of the program -/

namespace I_ITSB

def play_playlist : Method := ⟨[.string], none⟩
def get_playlists : Method := ⟨[], some (.vector .string)⟩
def play_artist : Method := ⟨[.string], none⟩
def get_artists : Method := ⟨[], some (.vector .string)⟩
def play_genre : Method := ⟨[.string], none⟩
def get_genres : Method := ⟨[], some (.vector .string)⟩
def play_album : Method := ⟨[.string], none⟩
def play_album_by_artist : Method := ⟨[.string, .string], none⟩
def get_albums : Method := ⟨[], some (.vector .string)⟩
def play_track_by_artist : Method := ⟨[.string, .string], none⟩
def play_track_by_artist_from_album : Method := ⟨[.string, .string, .string], none⟩
def get_tracks : Method := ⟨[], some (.vector .string)⟩

end I_ITSB

/-- The name is `"I_ITSB"`. -/
def I_ITSB : Interface where
  name := ⟨[73, 95, 73, 84, 83, 66]⟩
  methods := [I_ITSB.play_playlist, I_ITSB.get_playlists, I_ITSB.play_artist, I_ITSB.get_artists,
    I_ITSB.play_genre, I_ITSB.get_genres, I_ITSB.play_album, I_ITSB.play_album_by_artist,
    I_ITSB.get_albums, I_ITSB.play_track_by_artist, I_ITSB.play_track_by_artist_from_album,
    I_ITSB.get_tracks]
  named := by decide
  few := by decide

end SpeechBridge.Rcf
