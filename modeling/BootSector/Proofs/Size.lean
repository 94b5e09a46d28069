import BootSector.Proofs.Grammar
import BootSector.Token.Arithmetic

/-!
# The size of an instruction

`Instruction.length` is a 16-bit word: it repeats modulo 2¹⁶ and cuts the length of a text.
`Instruction.size` counts the same bytes as a natural number.  The two are tied to the encoding in
three steps:

* `length_of_encode`: whatever the label table, an encoding has exactly `size` bytes;
* `toNat_length`: `length` is `size` modulo 2¹⁶;
* `size_le_of_reads`: a statement has at most 65535 bytes.  The grammar bounds texts and, at each
  level of repetition, the product of the wrapped length and the count; by induction the wrapped
  length of the body is exact, so the product is the true size.

So `length` is exact for every instruction that is read from a line (`encode_length_exact`).
-/

namespace BootSector.Instruction

/-! ### The exact size -/

/-- **The number of bytes of an instruction**, as a natural number. -/
def size : Instruction → Nat
  | byte _ | simple _ => 1
  | text bytes => bytes.length
  | times count body => body.size * count.toNat
  | origin _ => 0
  | offset .. | moveByte .. | orBytes .. | interrupt _ => 2
  | jump .. => 2
  | moveAddress .. | moveWord .. => 3
  | absent => 0

/-- An encoding has exactly `size` bytes, for every instruction and every label table. -/
theorem length_of_encode {strict : Bool} {labels : LabelTable} {i : Instruction} {code : Bytes}
    (h : i.encode strict labels = .ok code) : code.length = i.size := by
  induction i generalizing code with
  | times count body ih =>
    rw [encode] at h
    split at h
    · rename_i once honce
      obtain rfl := Except.ok.inj h
      rw [List.length_flatten, List.map_replicate, List.sum_replicate_nat, ih honce, size,
        Nat.mul_comm]
    · cases h
  | offset label amount | moveAddress register label =>
    rw [encode] at h
    split at h
    · obtain rfl := Except.ok.inj h
      rfl
    · cases h
  | jump opcode position target =>
    rw [encode] at h
    split at h
    · split_ifs at h
      obtain rfl := Except.ok.inj h
      rfl
    · cases h
  | absent => cases h
  | _ =>
    obtain rfl := Except.ok.inj h
    rfl

/-- The length is the size modulo 2¹⁶. -/
theorem toNat_length (i : Instruction) : i.length.toNat = i.size % 65536 := by
  induction i with
  | text bytes => exact UInt16.toNat_ofNat'
  | times count body ih =>
    rw [length, UInt16.toNat_mul, ih, size]
    exact Nat.mod_mul_mod body.size count.toNat 65536
  | _ => rfl

/-- For an instruction below 64K the length is the size. -/
theorem toNat_length_of_le {i : Instruction} (h : i.size ≤ 65535) : i.length.toNat = i.size := by
  rw [toNat_length]
  exact Nat.mod_eq_of_lt (Nat.lt_succ_of_le h)

/-- The length of a repetition that fits does not wrap around. -/
theorem toNat_length_times {count : UInt16} {body : Instruction}
    (h : count.toNat * body.length.toNat ≤ 65535) :
    (times count body).length.toNat = count.toNat * body.length.toNat := by
  rw [length, UInt16.toNat_mul, Nat.mul_comm body.length.toNat]
  exact Nat.mod_eq_of_lt (Nat.lt_succ_of_le h)

/-! ### Statements -/

/-- A statement has at most 65535 bytes. -/
theorem size_le_of_reads {tokens : List Token} {i : Instruction} (h : Reads tokens i) :
    i.size ≤ 65535 := by
  induction h with
  | text ht hlen => exact hlen
  | times ht hn hbody horg hfits ih =>
    -- the check at this level was made with the wrapped length, which is exact one level below
    rw [toNat_length_of_le ih] at hfits
    exact hfits
  | _ => simp only [size, Nat.reduceLeDiff]

/-- The length of an instruction that is read from tokens is its size. -/
theorem toNat_length_of_ofTokens {tokens : List Token} {i : Instruction}
    (h : ofTokens tokens = .ok i) : i.length.toNat = i.size :=
  toNat_length_of_le (size_le_of_reads (reads_of_ofTokens h))

/-- **Length and encoding agree.**  The instruction of a source line encodes, against every label
table and in both modes, to exactly as many bytes as its length says, and these are at most 65535.
For any instruction at all, the number of bytes agrees with the length modulo 2¹⁶. -/
theorem encode_length_exact :
    (∀ (loc : Location) (line : Bytes) (tokens : List Token) (i : Instruction),
      Token.ofLine loc line = .ok tokens → ofTokens tokens = .ok i →
      i.size ≤ 65535 ∧ i.length.toNat = i.size ∧
      ∀ (strict : Bool) (labels : LabelTable) (code : Bytes),
        i.encode strict labels = .ok code → code.length = i.length.toNat) ∧
    (∀ (i : Instruction) (strict : Bool) (labels : LabelTable) (code : Bytes),
      i.encode strict labels = .ok code → code.length % 65536 = i.length.toNat) := by
  constructor
  · intro loc line tokens i _ hi
    have hsize : i.size ≤ 65535 := size_le_of_reads (reads_of_ofTokens hi)
    refine ⟨hsize, toNat_length_of_le hsize, fun strict labels code hcode => ?_⟩
    rw [length_of_encode hcode, toNat_length_of_le hsize]
  · intro i strict labels code hcode
    rw [length_of_encode hcode, toNat_length]

/-- A repetition inside a repetition: six moves of two bytes each. -/
theorem encode_length_exact_nested :
    ∃ tokens i code,
      Token.ofLine ⟨0, 0⟩ (Bytes.ofString "times 3 times 2 mov al 0x41") = .ok tokens ∧
      ofTokens tokens = .ok i ∧ i.encode true LabelTable.empty = .ok code ∧
      code.length = i.length.toNat ∧ code.length = 12 := by
  let tokens : List Token :=
    [.ofKind .times, .number 3, .ofKind .times, .number 2, .ofKind .mov,
     { kind := .register8, text := Bytes.ofString "al" }, .byte 0x41]
  let i : Instruction := .times 3 (.times 2 (.moveByte 0 0x41))
  let code : Bytes := [0xB0, 0x41, 0xB0, 0x41, 0xB0, 0x41, 0xB0, 0x41, 0xB0, 0x41, 0xB0, 0x41]
  have htokens :
      Token.ofLine ⟨0, 0⟩ (Bytes.ofString "times 3 times 2 mov al 0x41") = .ok tokens := rfl
  have hi : ofTokens tokens = .ok i := rfl
  have hcode : i.encode true LabelTable.empty = .ok code := rfl
  have hexact := encode_length_exact.1 _ _ tokens i htokens hi
  exact ⟨tokens, i, code, htokens, hi, hcode, hexact.2.2 _ _ code hcode, rfl⟩

end BootSector.Instruction
