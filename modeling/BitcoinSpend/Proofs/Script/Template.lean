import BitcoinSpend.Proofs.Script.Machine.Standard

/-!
# Standard scripts in bytes

The standard scripts are recognized on the tokens of a script, but what they are is a matter of its
bytes. A list of tokens that an instruction row has is the disassembly of one byte string only
(`Instruction.disassemble_eq_iff`), so each template has exactly one spelling in bytes. `PushRow`
says on the bytes alone what a script is that does nothing but push; the main result is
`templates_in_bytes`.
-/

namespace BitcoinSpend.Script

variable {script : Bytes} {l : Literal}

/-! ## Templates -/

/-- Tokens of a row of instructions are the disassembly of what the row covers, and of nothing
else. -/
theorem Instruction.disassemble_eq_iff {is : List Instruction} (h : WellFormed is) :
    disassemble script = is.flatMap tokens ↔ script = is.flatMap encode := by
  constructor
  · intro htokens
    have hassemble := assemble_disassemble script
    rw [htokens, assemble_flatMap_tokens h] at hassemble
    exact (Except.ok.inj hassemble).symm
  · intro hscript
    rw [hscript, disassemble_flatMap_encode h]

/-- A literal of a script in text form has the size of its data. -/
theorem exists_data_of_hasSize {size : Nat} (hmem : .literal l ∈ disassemble script)
    (hsize : l.hasSize size = true) : ∃ data : Bytes, data.length = size ∧ l = .ofBytes data := by
  have hl := Instruction.eq_ofBytes_of_mem hmem
  have hdata := Literal.hasSize_ofBytes l.data
  rw [← hl] at hdata
  simp only [Literal.hasSize, decide_eq_true_eq] at hdata hsize
  exact ⟨l.data, by omega, hl⟩

/-- Disassembling names opcodes by their first mnemonic. -/
theorem eq_op_of_mem {t : Token} {o : Opcode} (hmem : t ∈ disassemble script)
    (ho : t.opcode? = some o) : t = .op o := by
  obtain ⟨i, -, hi⟩ := List.mem_flatMap.mp hmem
  cases i with
  | direct | undefined | truncated =>
      obtain rfl := List.mem_singleton.mp hi
      cases ho
  | sized f data =>
      rcases List.mem_cons.mp hi with rfl | hdata
      · cases ho
        rfl
      · obtain rfl := List.mem_singleton.mp hdata
        cases ho
  | op o' =>
      obtain rfl := List.mem_singleton.mp hi
      cases ho
      rfl

/-- A payment to a script has the size of its digest checked. -/
theorem scriptHash?_eq_some_iff {tokens : List Token} :
    scriptHash? tokens = some l ↔ tokens = payToScriptHash l ∧ l.hasSize 20 = true := by
  constructor
  · intro h
    obtain ⟨rfl, -⟩ := eq_of_scriptHash h
    refine ⟨rfl, ?_⟩
    by_contra hother
    rw [payToScriptHash, scriptHash?, if_neg hother] at h
    cases h
  · rintro ⟨rfl, hsize⟩
    exact if_pos hsize

/-- A payment to a script is found in one byte string for each digest. -/
theorem scriptHash?_disassemble_iff :
    scriptHash? (disassemble script) = some l ↔
      ∃ digest : Bytes, l = .ofBytes digest ∧ digest.length = 20 ∧
        script = [0xa9, 0x14] ++ digest ++ [0x87] := by
  have hrow {digest : Bytes} (hlength : digest.length = 20) :
      disassemble script = payToScriptHash (.ofBytes digest) ↔
        script = [0xa9, 0x14] ++ digest ++ [0x87] := by
    have hwell : Instruction.WellFormed [.op (.stack (.hash .hash160)), .direct digest,
        .op (.stack (.inspect .equal))] :=
      .cons _ _ (.op _ nofun) (.cons _ _ (.direct digest (by omega)
        (by unfold Instruction.maxDirect; omega)) (.cons _ _ (.op _ nofun) .nil))
    have hencode : [0xa9] ++ (UInt8.ofNat digest.length :: digest) ++ [0x87] =
        [0xa9, 0x14] ++ digest ++ [0x87] := by
      rw [hlength]
      rfl
    rw [← hencode]
    exact Instruction.disassemble_eq_iff hwell
  rw [scriptHash?_eq_some_iff]
  constructor
  · rintro ⟨htokens, hsize⟩
    have hmem : .literal l ∈ disassemble script := by simp [htokens, payToScriptHash]
    obtain ⟨digest, hlength, rfl⟩ := exists_data_of_hasSize hmem hsize
    exact ⟨digest, rfl, hlength, (hrow hlength).mp htokens⟩
  · rintro ⟨digest, rfl, hlength, hscript⟩
    refine ⟨(hrow hlength).mpr hscript, ?_⟩
    have hsize := Literal.hasSize_ofBytes digest
    rwa [hlength] at hsize

/-- A version-zero witness program is found in one byte string for each program. -/
theorem witnessProgram?_disassemble_iff {size : Nat} (hpos : 1 ≤ size)
    (hmax : size ≤ Instruction.maxDirect) :
    witnessProgram? size (disassemble script) = some l ↔
      ∃ program : Bytes, l = .ofBytes program ∧ program.length = size ∧
        script = 0x00 :: UInt8.ofNat size :: program := by
  have hrow {program : Bytes} (hlength : program.length = size) :
      disassemble script = [.op (.stack (.constant .zero)), .push program] ↔
        script = 0x00 :: UInt8.ofNat size :: program := by
    subst hlength
    have hwell : Instruction.WellFormed [.op (.stack (.constant .zero)), .direct program] :=
      .cons _ _ (.op _ nofun) (.cons _ _ (.direct program hpos hmax) .nil)
    have hencode : [0x00] ++ ((UInt8.ofNat program.length :: program) ++ []) =
        0x00 :: UInt8.ofNat program.length :: program := by
      rw [List.append_nil]
      rfl
    rw [← hencode]
    exact Instruction.disassemble_eq_iff hwell
  constructor
  · intro h
    obtain ⟨version, htokens, hversion, hsize⟩ := eq_of_witnessProgram h
    have hfirst : version ∈ disassemble script := by simp [htokens]
    have hsecond : .literal l ∈ disassemble script := by simp [htokens]
    obtain rfl := eq_op_of_mem hfirst hversion
    obtain ⟨program, hlength, rfl⟩ := exists_data_of_hasSize hsecond hsize
    exact ⟨program, rfl, hlength, (hrow hlength).mp htokens⟩
  · rintro ⟨program, rfl, hlength, hscript⟩
    have hsize := Literal.hasSize_ofBytes program
    rw [hlength] at hsize
    rw [(hrow hlength).mpr hscript]
    exact if_pos ⟨rfl, hsize⟩

/-! ## Pushes -/

/-- The byte strings that are cut completely into pushes with all of their data and opcodes from
the one that pushes minus one up to the one that pushes sixteen. -/
inductive PushRow : Bytes → Prop
  | nil : PushRow []
  | direct (code : UInt8) (data rest : Bytes) :
      code ≤ 0x4b → data.length = code.toNat → PushRow rest → PushRow (code :: data ++ rest)
  | sized (f : LengthField) (size data rest : Bytes) :
      size.length = f.width → data.length = Bytes.toNatLE size → PushRow rest →
      PushRow (f.code :: (size ++ data) ++ rest)
  | opcode (code : UInt8) (rest : Bytes) :
      0x4f ≤ code → code ≤ 0x60 → PushRow rest → PushRow ([code] ++ rest)

/-- The opcodes without data of their own are the one that pushes nothing and those above the
pushes. -/
theorem Opcode.code_eq_zero_or_ge {o : Opcode} (hfield : ∀ f, o ≠ .pushData f) :
    o = .stack (.constant .zero) ∨ 0x4f ≤ o.code := by
  have hall : ∀ o ∈ Opcode.all, o = .stack (.constant .zero) ∨ 0x4f ≤ o.code ∨
      o ∈ [LengthField.one, .two, .four].map Opcode.pushData := by decide +kernel
  rcases hall o o.mem_all with hzero | hge | hmem
  · exact .inl hzero
  · exact .inr hge
  · obtain ⟨f, -, rfl⟩ := List.mem_map.mp hmem
    exact absurd rfl (hfield f)

/-- From the one that pushes minus one up to the one that pushes sixteen, every byte is an
opcode. -/
theorem Opcode.exists_code {code : UInt8} (hge : 0x4f ≤ code) (hle : code ≤ 0x60) :
    ∃ o : Opcode, o.code = code ∧ ∀ f, o ≠ .pushData f := by
  have hall : ∀ n : Fin 256, 0x4f ≤ n.val → n.val ≤ 0x60 →
      ∃ o ∈ Opcode.all, o.code = UInt8.ofNat n := by decide +kernel
  obtain ⟨o, -, hcode⟩ := hall ⟨code.toNat, code.toNat_lt⟩ (UInt8.le_iff_toNat_le.mp hge)
    (UInt8.le_iff_toNat_le.mp hle)
  rw [UInt8.ofNat_toNat] at hcode
  refine ⟨o, hcode, fun f hf ↦ ?_⟩
  rw [← hcode, hf] at hge
  cases f <;> exact absurd hge (by decide)

/-- A complete instruction whose tokens push may stand in front of a row of pushes. -/
theorem Instruction.pushRow_encode_append {i : Instruction} (h : i.Complete)
    (hpush : isPushOnly i.tokens = true) {rest : Bytes} (hrest : PushRow rest) :
    PushRow (i.encode ++ rest) := by
  cases h with
  | direct data hpos hmax =>
      unfold maxDirect at hmax
      have hcode : (UInt8.ofNat data.length).toNat = data.length := by
        rw [UInt8.toNat_ofNat']
        omega
      refine .direct _ data rest ?_ hcode.symm hrest
      rw [UInt8.le_iff_toNat_le, hcode]
      exact hmax
  | sized f data hfits =>
      refine .sized f _ data rest (Bytes.length_ofNatLE _ _) ?_ hrest
      rw [Bytes.toNatLE_ofNatLE, Nat.mod_eq_of_lt hfits]
  | op o hfield =>
      rcases Opcode.code_eq_zero_or_ge hfield with rfl | hge
      · exact .direct 0x00 [] rest (by decide) rfl hrest
      · have hle : o.code ≤ 0x60 := by
          simpa [isPushOnly, tokens, Token.isPush, Token.isLiteral, Token.opcode?] using hpush
        exact .opcode o.code rest hge hle hrest
  | undefined code => cases hpush

/-- Instructions whose tokens do nothing but push cover a row of pushes. -/
theorem Instruction.WellFormed.pushRow {is : List Instruction} (h : WellFormed is)
    (hpush : isPushOnly (is.flatMap tokens) = true) : PushRow (is.flatMap encode) := by
  induction h with
  | nil => exact .nil
  | cons i rest hcomplete _ ih =>
      rw [List.flatMap_cons, isPushOnly, List.all_append, Bool.and_eq_true] at hpush
      obtain ⟨hfirst, hrest⟩ := hpush
      rw [List.flatMap_cons]
      exact pushRow_encode_append hcomplete hfirst (ih hrest)
  | truncated => cases hpush

/-- A row of pushes is cut into instructions that do nothing but push. -/
theorem PushRow.exists_instructions (h : PushRow script) :
    ∃ is, Instruction.WellFormed is ∧ script = is.flatMap Instruction.encode ∧
      isPushOnly (is.flatMap Instruction.tokens) = true := by
  induction h with
  | nil => exact ⟨[], .nil, rfl, rfl⟩
  | direct code data rest hcode hlength _ ih =>
      obtain ⟨is, hwell, rfl, hpush⟩ := ih
      rw [UInt8.le_iff_toNat_le] at hcode
      by_cases hzero : code = 0x00
      · subst hzero
        obtain rfl := List.length_eq_zero_iff.mp hlength
        exact ⟨.op (.stack (.constant .zero)) :: is, .cons _ _ (.op _ nofun) hwell, rfl, hpush⟩
      · have hpos : code.toNat ≠ 0 := fun hcode ↦ hzero (UInt8.toNat_inj.mp hcode)
        have hcomplete : (Instruction.direct data).Complete :=
          .direct data (by omega) (by rw [hlength]; exact hcode)
        refine ⟨.direct data :: is, .cons _ _ hcomplete hwell, ?_, hpush⟩
        rw [List.flatMap_cons, Instruction.encode, hlength, UInt8.ofNat_toNat]
  | sized f size data rest hsize hlength _ ih =>
      obtain ⟨is, hwell, rfl, hpush⟩ := ih
      have hfits : data.length < Bytes.capacity f.width := by
        rw [hlength, ← hsize]
        exact size.toNatLE_lt
      refine ⟨.sized f data :: is, .cons _ _ (.sized f data hfits) hwell, ?_, ?_⟩
      · rw [List.flatMap_cons, Instruction.encode, hlength, ← hsize, Bytes.ofNatLE_toNatLE]
      · cases f <;> exact hpush
  | opcode code rest hge hle _ ih =>
      obtain ⟨is, hwell, rfl, hpush⟩ := ih
      obtain ⟨o, rfl, hfield⟩ := Opcode.exists_code hge hle
      refine ⟨.op o :: is, .cons _ _ (.op o hfield) hwell, rfl, ?_⟩
      rw [isPushOnly, List.all_eq_true] at hpush ⊢
      intro t ht
      rcases List.mem_cons.mp ht with rfl | ht
      · simp [Token.isPush, Token.opcode?, hle]
      · exact hpush t ht

/-- A script does nothing but push exactly if it is a row of pushes. -/
theorem isPushOnly_disassemble_iff : isPushOnly (disassemble script) = true ↔ PushRow script := by
  constructor
  · intro h
    obtain ⟨hwell, hcovers⟩ := Instruction.parse_wellFormed script
    rw [← hcovers]
    exact hwell.pushRow h
  · intro h
    obtain ⟨is, hwell, rfl, hpush⟩ := h.exists_instructions
    rw [Instruction.disassemble_flatMap_encode hwell]
    exact hpush

/-! ## All templates -/

/-- A template is recognized if it is for some digest. -/
theorem isSome_iff_exists_digest {found : Option Literal} {p : Bytes → Prop}
    (h : ∀ l, found = some l ↔ ∃ digest, l = .ofBytes digest ∧ p digest) :
    found.isSome = true ↔ ∃ digest, p digest := by
  rw [Option.isSome_iff_exists]
  constructor
  · rintro ⟨l, hl⟩
    obtain ⟨digest, -, hdigest⟩ := (h l).mp hl
    exact ⟨digest, hdigest⟩
  · rintro ⟨digest, hdigest⟩
    exact ⟨.ofBytes digest, (h _).mpr ⟨digest, rfl, hdigest⟩⟩

/-- The standard scripts are found in the disassembly of exactly those byte strings that have the
bytes of the template, and only pushes are found exactly in rows of pushes. -/
theorem templates_in_bytes (script : Bytes) :
    ((scriptHash? (disassemble script)).isSome = true ↔
      ∃ digest : Bytes, digest.length = 20 ∧ script = [0xa9, 0x14] ++ digest ++ [0x87]) ∧
    ((witnessKeyHash? (disassemble script)).isSome = true ↔
      ∃ digest : Bytes, digest.length = 20 ∧ script = [0x00, 0x14] ++ digest) ∧
    ((witnessScriptHash? (disassemble script)).isSome = true ↔
      ∃ digest : Bytes, digest.length = 32 ∧ script = [0x00, 0x20] ++ digest) ∧
    (isPushOnly (disassemble script) = true ↔ PushRow script) := by
  refine ⟨isSome_iff_exists_digest fun l ↦ scriptHash?_disassemble_iff,
    isSome_iff_exists_digest fun l ↦ ?_, isSome_iff_exists_digest fun l ↦ ?_,
    isPushOnly_disassemble_iff⟩
  · exact witnessProgram?_disassemble_iff (by decide) (by decide)
  · exact witnessProgram?_disassemble_iff (by decide) (by decide)

end BitcoinSpend.Script
