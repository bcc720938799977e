import SpeechBridge.Sf.Serializer

set_option autoImplicit false

/-! # Archives

What a reader takes for the archive of a value. It is more than what is written: there may be
blanks in front of every node, and every node may have an id, a type and a label. None of that
changes the value, and no two values have the same archive (`archives_read`).
-/

namespace SpeechBridge.Sf

open SpeechBridge.Rcf

/-! ## The start of a node -/

/-- At most 127 bytes, behind their number. -/
def blank (bytes : List UInt8) : List UInt8 := [BLANK] ++ ([UInt8.ofNat bytes.length] ++ bytes)

theorem reads_blank {bytes : List UInt8} (h : bytes.length < 128) (default : Node) :
    (IStream.beginOnce default).Reads (blank bytes) none := by
  have hcount : (UInt8.ofNat bytes.length).toNat = bytes.length := by
    rw [UInt8.toNat_ofNat']
    omega
  have hlt : UInt8.ofNat bytes.length < 128 := by
    rw [UInt8.lt_iff_toNat_lt, hcount]
    exact h
  have hskip : (IStream.skipBlank (UInt8.ofNat bytes.length)).Reads bytes () := by
    refine (Decoder.Reads.verify hlt _).nil_bind ?_
    rw [hcount]
    exact (Decoder.Reads.items bytes _).bind_nil (Decoder.Reads.pure ())
  refine (Decoder.Reads.itemIf (by decide) _).bind ?_
  exact (Decoder.Reads.item _ _).bind (hskip.bind_nil (Decoder.Reads.pure none))

/-- A round that skips a blank moves forward. -/
theorem beginOnce_progress {node : Node} {buf : List UInt8} {pos pos' : Nat}
    (h : IStream.beginOnce node buf pos = .ok (none, pos')) : pos < pos' := by
  obtain ⟨o, pos₁, hitem, hrest⟩ := Decoder.bind_eq_ok h
  cases o with
  | none => cases hrest
  | some byte =>
      have hpos := Decoder.itemIf_some hitem
      have hle := (sound_beginWith node byte).forward hrest
      omega

/-- The start of the node of a value. -/
inductive Opening : List UInt8 → Prop
  | node {node : Node} (hfits : node.Fits) (hvalue : node.ref = 0) :
      Opening (OStream.beginNode node)
  | skip {bytes x : List UInt8} (hshort : bytes.length < 128) (hx : Opening x) :
      Opening (blank bytes ++ x)

theorem Opening.reads {x : List UInt8} (h : Opening x) :
    ∃ node : Node, node.ref = 0 ∧ (IStream.beginNode .plain).Reads x node := by
  induction h with
  | @node node hfits hvalue =>
      refine ⟨node.over .plain, ?_, reads_beginNode hfits .plain⟩
      exact if_neg (not_not.mpr hvalue)
  | skip hshort _ ih =>
      obtain ⟨node, hvalue, hreads⟩ := ih
      exact ⟨node, hvalue, Decoder.Reads.untilSome_skip (sound_beginOnce .plain)
        beginOnce_progress (reads_blank hshort .plain) hreads⟩

theorem opening_plain : Opening (OStream.beginNode .plain) := .node plain_fits rfl

/-! ## Values -/

/-- A node with the contents. -/
def Framed (contents x : List UInt8) : Prop :=
  ∃ y, Opening y ∧ x = y ++ (contents ++ OStream.endNode)

theorem framed_invokeWrite (contents : List UInt8) : Framed contents (invokeWrite contents) :=
  ⟨_, opening_plain, rfl⟩

theorem Framed.reads {α : Type} {serializeContents : Decoder UInt8 Failure α}
    {contents x : List UInt8} {t : α} (hx : Framed contents x)
    (h : serializeContents.Reads contents t) : (invokeRead serializeContents).Reads x t := by
  obtain ⟨y, hy, rfl⟩ := hx
  obtain ⟨node, hvalue, hreads⟩ := hy.reads
  refine hreads.bind ?_
  refine (Decoder.Reads.verify hvalue _).nil_bind ?_
  exact h.bind (reads_endNode.bind_nil (Decoder.Reads.pure t))

/-- The archive of a count. -/
def CountArchive (n : Nat) (x : List UInt8) : Prop :=
  Framed (OStream.put (LittleEndian.bytes 4 n)) x

theorem countArchive_write {n : Nat} (h : n < 2 ^ 32) :
    CountArchive n (writeUInt32 (UInt32.ofNat n)) := by
  unfold CountArchive writeUInt32
  rw [toNat_count h]
  exact framed_invokeWrite _

theorem CountArchive.reads {n : Nat} {x : List UInt8} (hx : CountArchive n x)
    (hn : n < 2 ^ 32) : readUInt32.Reads x (UInt32.ofNat n) := by
  refine Framed.reads hx ?_
  have h := reads_readInt32 (UInt32.ofNat n)
  rwa [toNat_count hn] at h

/-- The archives of a string. -/
def StringArchive (s : StdString) (x : List UInt8) : Prop :=
  ∃ count, CountArchive s.bytes.length count ∧ Framed (count ++ s.bytes) x

theorem stringArchive_write {s : StdString} (h : s.bytes.length < 2 ^ 32) :
    StringArchive s (writeString s) := by
  refine ⟨_, countArchive_write h, ?_⟩
  unfold writeString
  simp only [toNat_count h, List.take_length]
  exact framed_invokeWrite _

theorem StringArchive.reads {s : StdString} {x : List UInt8} (hx : StringArchive s x)
    (h : s.bytes.length < 2 ^ 32) : readString.Reads x s := by
  obtain ⟨count, hcount, hframed⟩ := hx
  refine hframed.reads ((hcount.reads h).bind ?_)
  rw [toNat_count h]
  exact (Decoder.Reads.pieces (by decide) s.bytes le_rfl _).bind_nil (Decoder.Reads.pure s)

section

variable {α : Type} {R : α → List UInt8 → Prop} {l : List α}

/-- The archives of a vector, when `R` says what the archives of its elements are. -/
def VectorArchive (R : α → List UInt8 → Prop) (l : List α) (x : List UInt8) : Prop :=
  ∃ count xs, CountArchive l.length count ∧ List.Forall₂ R l xs ∧ Framed (count ++ xs.flatten) x

theorem vectorArchive_write {write : α → List UInt8} (h : l.length < 2 ^ 32)
    (hwrite : ∀ a ∈ l, R a (write a)) : VectorArchive R l (writeVector write l) := by
  have hall : List.Forall₂ R l (l.map write) :=
    List.forall₂_map_right_iff.mpr (List.forall₂_same.mpr hwrite)
  refine ⟨_, _, countArchive_write h, hall, ?_⟩
  unfold writeVector
  simp only [toNat_count h, List.take_length, List.flatMap_def]
  exact framed_invokeWrite _

theorem VectorArchive.reads {read : Decoder UInt8 Failure α} {x : List UInt8}
    (hx : VectorArchive R l x) (h : l.length < 2 ^ 32)
    (hread : ∀ a ∈ l, ∀ y, R a y → read.Reads y a) : (readVector read).Reads x l := by
  obtain ⟨count, xs, hcount, hxs, hframed⟩ := hx
  refine hframed.reads ((hcount.reads h).bind ?_)
  rw [toNat_count h]
  refine Decoder.Reads.times_flatten ?_
  exact ((List.forall₂_and_left _ _).mpr ⟨hread, hxs⟩).imp fun a y hay => hay.1 y hay.2

end

namespace SfType

/-- The archives of a value. -/
def Archive : (t : SfType) → t.Value → List UInt8 → Prop
  | string => StringArchive
  | vector t => VectorArchive t.Archive

/-- What is written is one of the archives. -/
theorem archive_write (t : SfType) (a : t.Value) (h : t.Counted a) : t.Archive a (t.write a) := by
  induction t with
  | string => exact stringArchive_write h
  | vector t ih => exact vectorArchive_write h.1 fun b hb => ih b (h.2 b hb)

/-- Every archive is read. -/
theorem Archive.reads {t : SfType} {a : t.Value} {x : List UInt8} (hx : t.Archive a x)
    (h : t.Counted a) : t.read.Reads x a := by
  induction t generalizing x with
  | string => exact StringArchive.reads hx h
  | vector t ih =>
      refine VectorArchive.reads hx h.1 ?_
      intro b hb y hy
      exact ih hy (h.2 b hb)

end SfType

/-- **Archives are read.** What is written of a value is one of its archives. Whatever blanks, ids,
types and labels an archive has, the reader finds its value and its end, and nothing that starts
with it starts with an archive of another value. -/
theorem archives_read {t : SfType} {a : t.Value} {x : List UInt8} (h : t.Counted a)
    (hx : t.Archive a x) (rest : List UInt8) :
    t.Archive a (t.write a) ∧ t.read (x ++ rest) 0 = .ok (a, x.length) ∧
      ∀ {b : t.Value} {y rest' : List UInt8}, t.Counted b → t.Archive b y →
        x ++ rest = y ++ rest' → a = b ∧ x = y ∧ rest = rest' := by
  refine ⟨t.archive_write a h, (hx.reads h).at_start rest, ?_⟩
  intro b y rest' hb hy heq
  exact (hx.reads h).unique (hy.reads hb) heq

/-- A blank in front of a string. -/
theorem archives_read_blank :
    SfType.string.Archive (⟨[65]⟩ : StdString) (writeString ⟨[65]⟩) ∧
      SfType.string.read (blank [7] ++ writeString ⟨[65]⟩ ++ [9]) 0
        = .ok ((⟨[65]⟩ : StdString), (blank [7] ++ writeString ⟨[65]⟩).length) ∧
      ∀ {b : SfType.string.Value} {y rest' : List UInt8}, SfType.string.Counted b →
        SfType.string.Archive b y → blank [7] ++ writeString ⟨[65]⟩ ++ [9] = y ++ rest' →
          (⟨[65]⟩ : StdString) = b ∧ blank [7] ++ writeString ⟨[65]⟩ = y ∧ [9] = rest' := by
  have hcounted : SfType.string.Counted (⟨[65]⟩ : StdString) := by
    show [(65 : UInt8)].length < 2 ^ 32
    decide
  obtain ⟨count, hcount, y, hy, hwrite⟩ := stringArchive_write (s := ⟨[65]⟩) hcounted
  have harchive : SfType.string.Archive (⟨[65]⟩ : StdString) (blank [7] ++ writeString ⟨[65]⟩) := by
    refine ⟨count, hcount, blank [7] ++ y, .skip (by decide) hy, ?_⟩
    rw [hwrite]
    exact (List.append_assoc _ _ _).symm
  exact archives_read hcounted harchive [9]

end SpeechBridge.Sf
