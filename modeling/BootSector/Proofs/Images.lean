import BootSector.Sequence.Consumer
import BootSector.Settings
import Mathlib.Data.List.Forall2

/-!
# The bytes of an image

Settings describe an image layout if the size is positive and the filler and every part of the
signature is a byte (`exists_layout_iff`), and the layout then has the configured numbers
(`layout_eq_ok_iff`).

The sequence of an image is one list of bytes in disguise (`sequence_eq`): the content, as much
filler as is missing up to the threshold, and the signature.  Whatever a consumer does, it is handed
the bytes of that list, and if it stops, then an initial part of them (`delivers_bytes`).

An image is never too short.  It has exactly the size of its layout if the content ends at the
threshold or before it, and the signature is not longer than the size; the threshold of a layout
with a longer signature is zero, and its images are all too long.
-/

namespace BootSector

/-! ### Layouts from settings -/

namespace Settings

variable {s : Settings} {l : ImageLayout}

/-- **A number is read as a byte if it is one**, and as no other byte. -/
theorem byte?_eq_some_iff {n : Int64} {b : UInt8} :
    byte? n = some b ↔ (b.toNat : Int) = n.toInt := by
  have hlow : (0 ≤ n) ↔ 0 ≤ n.toInt := Int64.le_iff_toInt_le
  have hhigh : (n ≤ 255) ↔ n.toInt ≤ 255 := Int64.le_iff_toInt_le
  have hvalue (h : 0 ≤ n.toInt ∧ n.toInt ≤ 255) : (n.toUInt64.toUInt8.toNat : Int) = n.toInt := by
    have hword : n.toUInt64.toNat = n.toNatClampNeg := Int64.toNat_toUInt64_of_le (hlow.mpr h.1)
    have hclamp : n.toNatClampNeg = n.toInt.toNat := rfl
    rw [UInt64.toNat_toUInt8, hword, hclamp]
    omega
  unfold byte?
  constructor
  · intro h
    split at h
    · rename_i hrange
      obtain rfl := Option.some.inj h
      exact hvalue ⟨hlow.mp hrange.1, hhigh.mp hrange.2⟩
    · cases h
  · intro h
    have hlt : b.toNat < 256 := b.toNat_lt
    have hrange : 0 ≤ n.toInt ∧ n.toInt ≤ 255 := by omega
    have hbyte : n.toUInt64.toUInt8 = b := by
      apply UInt8.toNat_inj.mp
      have := hvalue hrange
      omega
    rw [if_pos ⟨hlow.mpr hrange.1, hhigh.mpr hrange.2⟩, hbyte]

theorem exists_byte?_iff {n : Int64} : (∃ b, byte? n = some b) ↔ 0 ≤ n ∧ n ≤ 255 := by
  unfold byte?
  split <;> simp_all

/-- The bytes of some numbers, if all of them are bytes. -/
theorem mapM_byte?_eq_some_iff {ns : List Int64} {bs : Bytes} :
    ns.mapM byte? = some bs ↔ List.Forall₂ (fun n b => byte? n = some b) ns bs := by
  induction ns generalizing bs with
  | nil => simp [List.forall₂_nil_left_iff]
  | cons n ns ih =>
    rw [List.forall₂_cons_left_iff, List.mapM_cons]
    simp only [Option.bind_eq_bind, Option.bind_eq_some_iff, Option.pure_def, Option.some.injEq, ih]
    constructor
    · rintro ⟨b, hb, rest, hrest, rfl⟩
      exact ⟨b, rest, hb, hrest, rfl⟩
    · rintro ⟨b, rest, hb, hrest, rfl⟩
      exact ⟨b, hb, rest, hrest, rfl⟩

theorem exists_mapM_byte?_iff {ns : List Int64} :
    (∃ bs, ns.mapM byte? = some bs) ↔ ∀ n ∈ ns, 0 ≤ n ∧ n ≤ 255 := by
  simp only [mapM_byte?_eq_some_iff]
  induction ns with
  | nil => simp [List.forall₂_nil_left_iff]
  | cons n ns ih =>
    rw [List.forall_mem_cons, ← ih, ← exists_byte?_iff]
    constructor
    · rintro ⟨_, hb | ⟨hb, hbs⟩⟩
      exact ⟨⟨_, hb⟩, _, hbs⟩
    · rintro ⟨⟨b, hb⟩, bs, hbs⟩
      exact ⟨b :: bs, .cons hb hbs⟩

/-- The layout has the numbers of the settings, if they pass all checks. -/
theorem layout_eq_ok_iff : s.layout = .ok l ↔
    0 < s.size ∧ byte? s.fill = some l.fill ∧ s.signature.mapM byte? = some l.signature ∧
      l.size = s.size := by
  unfold layout
  by_cases hpos : 0 < s.size
  · rw [if_neg (Int64.not_le.mpr hpos)]
    cases hfill : byte? s.fill with
    | none => simp
    | some fill =>
      cases hsignature : s.signature.mapM byte? with
      | none => simp
      | some signature =>
        simp only [hpos, Except.ok.injEq, Option.some.injEq, true_and]
        constructor
        · rintro rfl
          exact ⟨rfl, rfl, rfl⟩
        · rintro ⟨rfl, rfl, hsize⟩
          rw [← hsize]
  · rw [if_pos (Int64.not_lt.mp hpos)]
    simp [hpos]

/-- **The settings describe a layout** exactly if the size is positive and all the rest are bytes.
-/
theorem exists_layout_iff : (∃ l, s.layout = .ok l) ↔
    0 < s.size ∧ (0 ≤ s.fill ∧ s.fill ≤ 255) ∧ ∀ n ∈ s.signature, 0 ≤ n ∧ n ≤ 255 := by
  rw [← exists_byte?_iff, ← exists_mapM_byte?_iff]
  simp only [layout_eq_ok_iff]
  constructor
  · rintro ⟨l, hsize, hfill, hsignature, -⟩
    exact ⟨hsize, ⟨_, hfill⟩, _, hsignature⟩
  · rintro ⟨hsize, ⟨fill, hfill⟩, signature, hsignature⟩
    exact ⟨⟨s.size, signature, fill⟩, hsize, hfill, hsignature, rfl⟩

theorem length_signature_of_layout (h : s.layout = .ok l) :
    l.signature.length = s.signature.length := by
  obtain ⟨-, -, hsignature, -⟩ := layout_eq_ok_iff.mp h
  exact (mapM_byte?_eq_some_iff.mp hsignature).length_eq.symm

end Settings

/-! ### The bytes of a layout -/

namespace ImageLayout

variable {l : ImageLayout}

/-- For a positive size, no difference of words wraps around. -/
theorem threshold_of_pos (h : 0 < l.size) :
    (l.threshold : Int) = max 0 (l.size.toInt - l.signature.length) := by
  have hpos : 0 < l.size.toInt := Int64.lt_iff_toInt_lt.mp h
  have hsize : l.size.toInt < 2 ^ 63 := l.size.toInt_lt
  have hmax : Int64.maxValue.toInt = 2 ^ 63 - 1 := by decide
  have hmin : Int64.minValue.toInt = -2 ^ 63 := by decide
  -- a length beyond all words counts as the greatest word, which no size exceeds
  have hlength : (Int64.ofIntClamp l.signature.length).toInt =
      min (l.signature.length : Int) (2 ^ 63 - 1) := by
    by_cases hle : (l.signature.length : Int) ≤ 2 ^ 63 - 1
    · rw [Int64.toInt_ofIntClamp (by omega) (by omega)]
      omega
    · have hclamp : Int64.ofIntClamp l.signature.length = Int64.maxValue := by
        rw [Int64.ofIntClamp, dif_pos (by omega), dif_neg (by omega)]
      rw [hclamp, hmax]
      omega
  have hdiff : (l.size - Int64.ofIntClamp l.signature.length).toInt =
      l.size.toInt - min (l.signature.length : Int) (2 ^ 63 - 1) := by
    rw [Int64.toInt_sub, hlength]
    exact Int.bmod_eq_of_le (by omega) (by omega)
  have hclamp : l.threshold = (l.size - Int64.ofIntClamp l.signature.length).toInt.toNat := rfl
  rw [hclamp, hdiff]
  omega

/-- An image is handed out like a list of bytes. -/
theorem sequence_eq (l : ImageLayout) (content : Bytes) :
    l.sequence content =
      .ofList (content ++ List.replicate (l.threshold - content.length) l.fill ++ l.signature) := by
  have hcount : (l.padding content).toNat = l.threshold - content.length := by
    unfold padding
    omega
  have hlists := Sequence.concat_ofList
    [content, List.replicate (l.threshold - content.length) l.fill, l.signature]
  rw [sequence, Sequence.replicate_eq_ofList, hcount]
  simpa using hlists

/-- **The image is the content, the filler and the signature.** -/
theorem bytes_eq (l : ImageLayout) (content : Bytes) :
    l.bytes content =
      content ++ List.replicate (l.threshold - content.length) l.fill ++ l.signature := by
  rw [bytes, sequence_eq, Sequence.toList_ofList]

theorem sequence_eq_ofList_bytes (l : ImageLayout) (content : Bytes) :
    l.sequence content = .ofList (l.bytes content) := by
  rw [bytes_eq, sequence_eq]

/-- **The image is delivered** to every consumer. -/
theorem delivers_bytes (l : ImageLayout) (content : Bytes) :
    (l.sequence content).Delivers (l.bytes content) :=
  Sequence.delivers_iff.mpr (l.sequence_eq_ofList_bytes content)

theorem length_bytes (l : ImageLayout) (content : Bytes) :
    (l.bytes content).length = max content.length l.threshold + l.signature.length := by
  rw [bytes_eq, List.length_append, List.length_append, List.length_replicate]
  omega

theorem oversize_eq_false_iff {content : Bytes} :
    l.oversize content = false ↔ content.length ≤ l.threshold := by
  rw [oversize, decide_eq_false_iff_not, Nat.not_lt]

end ImageLayout

/-! ### Images from settings -/

namespace Settings

open Sequence

/-- **How much filler an image needs**, by the numbers of the settings. -/
def missing (s : Settings) (content : Bytes) : Nat :=
  (max 0 (max 0 (s.size.toInt - s.signature.length) - content.length)).toNat

/-- **The images of a layout**, by the numbers of the settings that describe it. -/
structure Images (s : Settings) (l : ImageLayout) : Prop where
  /-- The filler is the configured number. -/
  fill : (l.fill.toNat : Int) = s.fill.toInt
  /-- The bytes of the signature are the configured numbers. -/
  signature : l.signature.map (fun b => (b.toNat : Int)) = s.signature.map Int64.toInt
  /-- An image is the content, the filler that is missing, and the signature. -/
  bytes (content : Bytes) : l.bytes content =
    content ++ List.replicate (s.missing content) l.fill ++ l.signature
  /-- It starts with the whole content. -/
  starts (content : Bytes) : content <+: l.bytes content
  /-- It ends with the signature. -/
  ends (content : Bytes) : l.signature <:+ l.bytes content
  /-- The first bytes that are asked for are the first bytes of the image. -/
  taken (content : Bytes) (t : Nat) : (l.sequence content).take t = (l.bytes content).take t
  /-- A consumer that stops after some bytes was handed the first bytes of the image. -/
  handed (content : Bytes) {σ : Type} (c : Consumer σ UInt8) (start : σ) (t : Nat) :
    c.StopsAfter start t →
      (l.sequence content).handed c start = (l.bytes content).take (min t (l.bytes content).length)

/-- **Images from settings.**  Settings describe a layout exactly if the size is positive and the
filler and all of the signature are bytes; and then the images of the layout have the configured
size, filler and signature. -/
theorem images_of_settings (s : Settings) :
    ((∃ l, s.layout = .ok l) ↔
      0 < s.size ∧ (0 ≤ s.fill ∧ s.fill ≤ 255) ∧ ∀ n ∈ s.signature, 0 ≤ n ∧ n ≤ 255) ∧
    ∀ l, s.layout = .ok l → s.Images l := by
  refine ⟨exists_layout_iff, fun l h => ?_⟩
  obtain ⟨hpos, hfill, hsignature, hsize⟩ := layout_eq_ok_iff.mp h
  have hthreshold := ImageLayout.threshold_of_pos (l := l) (hsize ▸ hpos)
  rw [hsize, length_signature_of_layout h] at hthreshold
  have hbytes (content : Bytes) : l.bytes content =
      content ++ List.replicate (s.missing content) l.fill ++ l.signature := by
    have hmissing : l.threshold - content.length = s.missing content := by
      unfold missing
      omega
    rw [ImageLayout.bytes_eq, hmissing]
  constructor
  case fill => exact byte?_eq_some_iff.mp hfill
  case signature =>
    have hforall := mapM_byte?_eq_some_iff.mp hsignature
    apply List.forall₂_eq_eq_eq ▸ List.forall₂_map_left_iff.mpr (List.forall₂_map_right_iff.mpr ?_)
    exact hforall.flip.imp fun b n hb => byte?_eq_some_iff.mp hb
  case bytes => exact hbytes
  case starts =>
    intro content
    rw [hbytes, List.append_assoc]
    exact List.prefix_append _ _
  case ends =>
    intro content
    rw [hbytes]
    exact List.suffix_append _ _
  case taken =>
    intro content t
    rw [ImageLayout.sequence_eq_ofList_bytes, take_ofList]
  case handed =>
    intro content σ c start t hstops
    rw [(l.delivers_bytes content).handed_eq_take hstops, ← List.take_eq_take_min]

/-- An image of eight bytes, and what a consumer gets of it that stops after three. -/
theorem images_of_eight_bytes :
    ∃ (s : Settings) (l : ImageLayout) (content : Bytes), s.layout = .ok l ∧ s.Images l ∧
      l.bytes content = [1, 2, 0xFF, 0xFF, 0xFF, 0xFF, 0xFF, 0xAB] ∧
      Consumer.StopsAfter (@keepSome UInt8) (3, []) 3 ∧
      (l.sequence content).handed keepSome (3, []) = [1, 2, 0xFF] := by
  let s : Settings := { size := 8, signature := [0xAB], fill := 0xFF }
  let l : ImageLayout := { size := 8, signature := [0xAB], fill := 0xFF }
  have hlayout : s.layout = .ok l := rfl
  have himages : s.Images l := (images_of_settings s).2 l hlayout
  have hstops : Consumer.StopsAfter (@keepSome UInt8) (3, []) 3 :=
    Consumer.stopsAfter_keepSome 2 []
  have hbytes : l.bytes [1, 2] = [1, 2, 0xFF, 0xFF, 0xFF, 0xFF, 0xFF, 0xAB] := himages.bytes [1, 2]
  refine ⟨s, l, [1, 2], hlayout, himages, hbytes, hstops, ?_⟩
  rw [himages.handed [1, 2] keepSome (3, []) 3 hstops, hbytes]
  rfl

/-! ### Images that miss their size -/

/-- **An image has its size** exactly if the content ends at the threshold or before it, and the
signature is not longer than the size.  An image that is oversize is longer, and so is every image
with a longer signature. -/
theorem size_exact_iff (s : Settings) (l : ImageLayout) (content : Bytes) (h : s.layout = .ok l) :
    (((l.bytes content).length : Int) = l.size.toInt ↔
      l.oversize content = false ∧ (l.signature.length : Int) ≤ l.size.toInt) ∧
    (l.oversize content = true → l.size.toInt < (l.bytes content).length) ∧
    (l.size.toInt < l.signature.length → l.size.toInt < (l.bytes content).length) := by
  obtain ⟨hpos, -, -, hsize⟩ := layout_eq_ok_iff.mp h
  have hthreshold := ImageLayout.threshold_of_pos (l := l) (hsize ▸ hpos)
  have hlength := l.length_bytes content
  refine ⟨?_, ?_, ?_⟩
  · rw [ImageLayout.oversize_eq_false_iff, hlength]
    omega
  · intro hoversize
    have hlt : ¬ content.length ≤ l.threshold := by
      rw [← ImageLayout.oversize_eq_false_iff, hoversize]
      decide
    omega
  · omega

/-- A layout of four bytes, with content up to the threshold and with one byte more. -/
theorem size_exact_four_bytes :
    ∃ (s : Settings) (l : ImageLayout) (fitting longer : Bytes), s.layout = .ok l ∧
      l.oversize fitting = false ∧ ((l.bytes fitting).length : Int) = l.size.toInt ∧
      l.oversize longer = true ∧ l.size.toInt < (l.bytes longer).length := by
  let s : Settings := { size := 4 }
  let l : ImageLayout := { size := 4 }
  have hlayout : s.layout = .ok l := rfl
  have hfitting : l.oversize [1, 2] = false := by decide
  have hlonger : l.oversize [1, 2, 3] = true := by decide
  exact ⟨s, l, [1, 2], [1, 2, 3], hlayout,
    hfitting, (size_exact_iff s l [1, 2] hlayout).1.mpr ⟨hfitting, by decide⟩,
    hlonger, (size_exact_iff s l [1, 2, 3] hlayout).2.1 hlonger⟩

/-- An image that is not oversize, and still longer than its size: the signature has two bytes, and
the size is one. -/
theorem long_signature_misses_size :
    ∃ (s : Settings) (l : ImageLayout) (content : Bytes), s.layout = .ok l ∧
      ¬ (l.oversize content = false ↔ ((l.bytes content).length : Int) = l.size.toInt) :=
  ⟨{ size := 1 }, { size := 1 }, [], rfl, by decide⟩

end Settings

end BootSector
