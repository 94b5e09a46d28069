import BootSector.Proofs.References

/-!
# Repeated jumps

A repetition encodes its body once and copies the bytes, at any depth (`encode_nested`).  A jump
has its position from the line that it is read on, which is where the first copy stands.  So all
copies have the displacement of the first one (`exists_copies_of_encode`).  The first copy goes to
the target, and the `k`-th copy, which stands `2 * k` bytes behind it, goes `2 * k` bytes beyond the
target.
-/

namespace BootSector

namespace Instruction

/-! ### Repetitions -/

/-- An instruction below some repetitions, the outermost first. -/
def nested : List UInt16 → Instruction → Instruction
  | [], body => body
  | count :: counts, body => times count (nested counts body)

/-- The number of copies that some repetitions make together. -/
def copies : List UInt16 → Nat
  | [] => 1
  | count :: counts => count.toNat * copies counts

theorem size_nested (counts : List UInt16) (body : Instruction) :
    (nested counts body).size = body.size * copies counts := by
  induction counts with
  | nil => rw [nested, copies, Nat.mul_one]
  | cons count counts ih =>
    rw [nested, size, ih, copies, Nat.mul_assoc, Nat.mul_comm (copies counts)]

/-- **Repetitions copy the bytes of their body**, and fail only with it. -/
theorem encode_nested (strict : Bool) (labels : LabelTable) (counts : List UInt16)
    (body : Instruction) :
    (nested counts body).encode strict labels =
      match body.encode strict labels with
      | .ok once => .ok (List.replicate (copies counts) once).flatten
      | .error e => .error e := by
  induction counts with
  | nil =>
    cases h : body.encode strict labels with
    | ok once => simp only [nested, h, copies, List.replicate_one, List.flatten_singleton]
    | error e => simp only [nested, h]
  | cons count counts ih =>
    cases h : body.encode strict labels with
    | ok once =>
      -- copies of copies are copies
      have hflat :
          (List.replicate count.toNat (List.replicate (copies counts) once).flatten).flatten =
            (List.replicate (count.toNat * copies counts) once).flatten := by
        rw [← List.map_replicate, ← List.flatten_flatten, List.flatten_replicate_replicate]
      simp only [nested, encode, ih, h, copies, hflat]
    | error e => simp only [nested, encode, ih, h]

/-- Each copy is found in the bytes of all copies. -/
theorem take_drop_flatten_replicate {n k : Nat} (once : Bytes) (h : k < n) :
    (((List.replicate n once).flatten).drop (once.length * k)).take once.length = once := by
  obtain ⟨m, rfl⟩ : ∃ m, n = k + (m + 1) := ⟨n - k - 1, by omega⟩
  have hbefore : ((List.replicate k once).flatten).length = once.length * k := by
    rw [List.length_flatten, List.map_replicate, List.sum_replicate_nat, Nat.mul_comm]
  rw [← List.replicate_append_replicate, List.flatten_append, ← hbefore, List.drop_left,
    List.replicate_succ, List.flatten_cons, List.take_left]

/-! ### Jumps -/

theorem position_of_reads_nested {tokens : List Token} {counts : List UInt16} {opcode : UInt8}
    {position : UInt16} {target : JumpTarget}
    (h : Reads tokens (nested counts (.jump opcode position target))) :
    ∃ t ∈ tokens, (t.kind = .jz ∨ t.kind = .jmp) ∧ position = t.position := by
  induction counts generalizing tokens with
  | nil => exact position_of_reads h
  | cons count counts ih =>
    cases h with
    | times ht hn hbody horg hfits =>
      obtain ⟨t, htoken, hkind, hposition⟩ := ih hbody
      exact ⟨t, List.mem_cons_of_mem _ (List.mem_cons_of_mem _ htoken), hkind, hposition⟩

/-- **Where the processor goes** from a jump at an address, by its displacement byte. -/
def landing (address : Nat) (displacement : UInt8) : Int :=
  (address + 2 + displacement.toInt8.toInt) % 65536

/-- A displacement that is right at one address misses by as much as the jump is moved. -/
theorem landing_add {position target : UInt16} (h : inRange position target = true) (k : Nat) :
    landing (position.toNat + k) (displacement position target) = (target.toNat + k) % 65536 := by
  obtain ⟨d, hd⟩ := inRange_iff.mp h
  have hbyte := eq_of_lands hd
  obtain ⟨-, -, hland⟩ := hd
  rw [landing, hbyte]
  push_cast
  omega

/-- **The copies of a repeated jump** have the displacement of the first. -/
theorem exists_copies_of_encode {strict : Bool} {labels : LabelTable} {counts : List UInt16}
    {opcode : UInt8} {position : UInt16} {target : JumpTarget} {code : Bytes}
    (h : (nested counts (.jump opcode position target)).encode strict labels = .ok code) :
    ∃ addr, JumpsTo labels addr target ∧ (strict = true → inRange position addr = true) ∧
      code = (List.replicate (copies counts) [opcode, displacement position addr]).flatten := by
  rw [encode_nested] at h
  split at h
  · rename_i once honce
    obtain ⟨addr, haddr, rfl, hrange⟩ := exists_jumpsTo_of_encode honce
    exact ⟨addr, haddr, hrange, (Except.ok.inj h).symm⟩
  · cases h

end Instruction

/-! ### Repeated jumps of a program -/

open Instruction (JumpsTo copies landing nested)

/-- The position of a repeated jump is the address of its statement. -/
theorem Sweep.PlacedIn.position_eq_address {s : Sweep} {st : Statement} {counts : List UInt16}
    {opcode : UInt8} {position : UInt16} {target : JumpTarget} (h : s.PlacedIn st)
    (hjump : st.instruction = nested counts (.jump opcode position target)) :
    position = st.address := by
  obtain ⟨tokens, htokens, hinstruction⟩ := h.reads
  rw [hjump] at hinstruction
  obtain ⟨t, ht, hkind, rfl⟩ := Instruction.position_of_reads_nested
    (Instruction.reads_of_ofTokens hinstruction)
  rw [h.address]
  exact Token.atLocation_of_ofLine htokens (Token.mem_of_mem_behindLabel ht) hkind

/-- **Only the first copy of a repeated jump lands on the target.**  In strict mode, the copies of a
jump that a statement repeats, at any depth, all have one displacement byte.  The `k`-th copy stands
`2 * k` bytes behind the first one and goes `2 * k` bytes beyond the target, modulo 2¹⁶: to the
target if it is the first copy, and else not. -/
theorem Assembler.landing_of_repeated (a : Assembler) (source : Bytes) (p : Program) (code : Bytes)
    (i : Nat) (st : Statement) (counts : List UInt16) (opcode : UInt8) (position : UInt16)
    (target : JumpTarget) (hstrict : a.strict = true) (hparse : a.parse source = .ok p)
    (hcode : p.encode = .ok code) (hst : p.statements[i]? = some st)
    (hjump : st.instruction = nested counts (.jump opcode position target)) :
    ∃ addr b, JumpsTo p.labels addr target ∧ st.length.toNat = 2 * copies counts ∧
      ∀ k < copies counts,
        (code.drop (p.offset i + 2 * k)).take 2 = [opcode, b] ∧
        st.address.toNat + 2 * k + 2 ≤ 0x10000 ∧
        landing (st.address.toNat + 2 * k) b = (addr.toNat + 2 * k) % 65536 ∧
        (landing (st.address.toNat + 2 * k) b = addr.toNat ↔ k = 0) := by
  obtain ⟨-, s, hs, rfl⟩ := parse_eq_ok_iff.mp hparse
  obtain ⟨_, rfl, hencodes⟩ := Program.encodes_of_encodeOnto hcode
  have hmem : st ∈ s.statements.toList := List.mem_of_getElem? hst
  obtain ⟨n, s₀, hs₀, hplaced⟩ := exists_placedIn_of_mem hs hmem
  obtain rfl : position = st.address := hplaced.position_eq_address hjump
  have hlength : st.length.toNat = 2 * copies counts := by
    rw [length_eq_size hs hmem, hjump, Instruction.size_nested]
    rfl
  -- the bytes of the statement are its copies
  obtain ⟨-, hown⟩ := hencodes.slice (fun st hst => length_eq_size hs hst) hst
  rw [Program.encodeStatement_eq_ok_iff, hjump] at hown
  obtain ⟨addr, haddr, hrange, hcopies⟩ := Instruction.exists_copies_of_encode hown
  refine ⟨addr, Instruction.displacement st.address addr, haddr, hlength, fun k hk => ?_⟩
  have hend : st.address.toNat + st.length.toNat ≤ 0x10000 := by
    refine (address_of_placedIn hs₀ hplaced fun hzero => ?_).2
    rw [hzero] at hlength
    have hnone : 0 = 2 * copies counts := hlength
    omega
  have hland : landing (st.address.toNat + 2 * k) (Instruction.displacement st.address addr) =
      (addr.toNat + 2 * k) % 65536 := by
    rw [Instruction.landing_add (hrange hstrict), Int.natCast_mul]
    rfl
  refine ⟨?_, by omega, hland, ?_⟩
  · have hcopy := Instruction.take_drop_flatten_replicate
      [opcode, Instruction.displacement st.address addr] hk
    rw [← hcopies, hlength, List.drop_take, List.take_take, List.drop_drop] at hcopy
    have hmin : min 2 (2 * copies counts - 2 * k) = 2 := by omega
    simpa only [List.length_cons, List.length_nil, Nat.zero_add, Nat.reduceAdd, hmin] using hcopy
  · have hlt : addr.toNat < 65536 := addr.toNat_lt
    rw [hland]
    omega

/-- Two repetitions of a jump back to their own line, behind another byte: the last of the four
copies goes to itself. -/
theorem Assembler.landing_of_repeated_twice :
    ∃ (a : Assembler) (source : Bytes) (p : Program) (code : Bytes) (st : Statement) (addr : UInt16)
      (b : UInt8),
      a.strict = true ∧ a.parse source = .ok p ∧ p.encode = .ok code ∧
      p.statements[1]? = some st ∧
      st.instruction = nested [2, 2] (.jump 0xEB 0x7C01 (.label (Bytes.ofString "back"))) ∧
      JumpsTo p.labels addr (.label (Bytes.ofString "back")) ∧ addr = 0x7C01 ∧
      (code.drop 7).take 2 = [0xEB, b] ∧ landing 0x7C07 b = 0x7C07 := by
  let a : Assembler := { origin := 0x7C00, strict := true }
  let source := Bytes.ofString "hlt\nback: times 2 times 2 jmp back"
  let back := Bytes.ofString "back"
  let st : Statement := ⟨2, Bytes.ofString "back: times 2 times 2 jmp back", 0x7C01,
    nested [2, 2] (.jump 0xEB 0x7C01 (.label back))⟩
  let p : Program :=
    ⟨[⟨1, Bytes.ofString "hlt", 0x7C00, .simple 0xF4⟩, st], LabelTable.empty.bind back 0x7C01, true⟩
  let code : Bytes := [0xF4, 0xEB, 0xFE, 0xEB, 0xFE, 0xEB, 0xFE, 0xEB, 0xFE]
  have hparse : a.parse source = .ok p := rfl
  have hcode : p.encode = .ok code := rfl
  obtain ⟨addr, b, haddr, -, hcopies⟩ := landing_of_repeated a source p code 1 st [2, 2] 0xEB 0x7C01
    (.label back) rfl hparse hcode rfl rfl
  obtain rfl : addr = 0x7C01 := Option.some.inj (haddr.symm.trans rfl)
  obtain ⟨hbytes, -, hland, -⟩ := hcopies 3 (by decide)
  exact ⟨a, source, p, code, st, _, b, rfl, hparse, hcode, rfl, rfl, haddr, rfl, hbytes, hland⟩

/-- **The second copy of a repeated jump misses the target.**  Both copies of a jump to address zero
go back by two bytes, but the second one stands at address two. -/
theorem Assembler.landing_misses_target :
    ∃ (a : Assembler) (source : Bytes) (p : Program) (code : Bytes) (st : Statement),
      a.strict = true ∧ a.parse source = .ok p ∧ p.encode = .ok code ∧
      p.statements[0]? = some st ∧ st.instruction = nested [2] (.jump 0xEB 0 (.address 0)) ∧
      1 < copies [2] ∧ JumpsTo p.labels 0 (.address 0) ∧
      (code.drop (p.offset 0 + 2 * 1)).take 2 = [0xEB, 0xFE] ∧
      landing (st.address.toNat + 2 * 1) 0xFE ≠ (0 : UInt16).toNat := by
  let a : Assembler := { strict := true }
  let source := Bytes.ofString "times 2 jmp 0"
  let st : Statement := ⟨1, source, 0, nested [2] (.jump 0xEB 0 (.address 0))⟩
  let code : Bytes := [0xEB, 0xFE, 0xEB, 0xFE]
  have hparse : a.parse source = .ok ⟨[st], .empty, true⟩ := rfl
  exact ⟨a, source, _, code, st, rfl, hparse, rfl, rfl, rfl, by decide, rfl, rfl, by decide⟩

end BootSector
