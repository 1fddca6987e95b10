import Mathlib.Data.List.Basic
import BitcoinSpend.Script.Instruction

/-!
# Canonical scripts in text form

Disassembling writes a byte string in one way only. `Canonical` describes the texts that come out,
one rule for each kind of instruction, without looking at the disassembler. The main result,
`canonical_round_trip`, says that assembling undoes disassembling, that the canonical lists of texts
are exactly those that disassembling gives, and that on them disassembling undoes assembling. Read
`Canonical` and `Instruction.WellFormed` first; `canonical_iff` joins the two.
-/

namespace BitcoinSpend

/-! ## Hexadecimal texts -/

namespace Hex

/-- Two lower-case hexadecimal digits for each of `size` bytes. -/
def IsText (size : Nat) (text : String) : Prop :=
  text.toList.length = 2 * size ∧ ∀ c ∈ text.toList, c ∈ "0123456789abcdef".toList

/-- Every hexadecimal digit in lower case is the digit of a number below sixteen. -/
theorem exists_digit {c : Char} (h : c ∈ "0123456789abcdef".toList) :
    ∃ n : Fin 16, digit n = c := by
  have hlist : "0123456789abcdef".toList = (List.range 16).map digit := by decide
  rw [hlist] at h
  obtain ⟨n, hn, hdigit⟩ := List.mem_map.mp h
  exact ⟨⟨n, List.mem_range.mp hn⟩, hdigit⟩

/-- The digit of a number below sixteen is a hexadecimal digit in lower case. -/
theorem digit_mem {n : Nat} (h : n < 16) : digit n ∈ "0123456789abcdef".toList := by
  have hall : ∀ n : Fin 16, digit n ∈ "0123456789abcdef".toList := by decide
  exact hall ⟨n, h⟩

/-- A written byte string is hexadecimal text for as many bytes. -/
theorem isText_encode (bs : Bytes) : IsText bs.length (encode bs) := by
  refine ⟨by rw [toList_encode, length_flatMap_ofByte], fun c hc ↦ ?_⟩
  rw [toList_encode, List.mem_flatMap] at hc
  obtain ⟨b, -, hc⟩ := hc
  have hb := b.toNat_lt
  simp only [ofByte, List.mem_cons, List.not_mem_nil, or_false] at hc
  rcases hc with rfl | rfl
  · exact digit_mem (by omega)
  · exact digit_mem (by omega)

/-- Pairs of hexadecimal digits are the digits of bytes. -/
theorem exists_flatMap_ofByte (size : Nat) (cs : List Char) (hlength : cs.length = 2 * size)
    (hdigits : ∀ c ∈ cs, c ∈ "0123456789abcdef".toList) :
    ∃ bs : Bytes, bs.length = size ∧ bs.flatMap ofByte = cs := by
  induction size generalizing cs with
  | zero => exact ⟨[], rfl, (List.length_eq_zero_iff.mp hlength).symm⟩
  | succ size ih =>
      match cs, hlength with
      | c :: d :: cs, hlength =>
        obtain ⟨high, rfl⟩ := exists_digit (hdigits c (by simp))
        obtain ⟨low, rfl⟩ := exists_digit (hdigits d (by simp))
        obtain ⟨bs, hsize, hbs⟩ := ih cs (by simp only [List.length_cons] at hlength; omega)
          fun e he ↦ hdigits e (by simp [he])
        have hbyte : (UInt8.ofNat (16 * high + low)).toNat = 16 * high + low := by
          rw [UInt8.toNat_ofNat']
          omega
        refine ⟨UInt8.ofNat (16 * high + low) :: bs, by simp [hsize], ?_⟩
        rw [List.flatMap_cons, hbs, ofByte, hbyte]
        simp only [List.cons_append, List.nil_append, List.cons.injEq, and_true]
        constructor <;> congr 1 <;> omega

/-- Hexadecimal texts are the written byte strings. -/
theorem isText_iff {size : Nat} {text : String} :
    IsText size text ↔ ∃ bs : Bytes, bs.length = size ∧ encode bs = text := by
  constructor
  · intro ⟨hlength, hdigits⟩
    obtain ⟨bs, hsize, hbs⟩ := exists_flatMap_ofByte size text.toList hlength hdigits
    exact ⟨bs, hsize, by rw [encode, hbs, String.ofList_toList]⟩
  · rintro ⟨bs, rfl, rfl⟩
    exact isText_encode bs

end Hex

namespace Script

/-! ## Canonical texts -/

/-- A first byte that announces a push, and too few bytes behind it: fewer than the announced data,
fewer than a length field, or fewer than the length field announces. -/
inductive RunsPastEnd : Bytes → Prop
  | direct (code : UInt8) (data : Bytes) :
      1 ≤ code.toNat → code.toNat ≤ 75 → data.length < code.toNat → RunsPastEnd (code :: data)
  | field (f : LengthField) (size : Bytes) :
      size.length < f.width → RunsPastEnd (f.code :: size)
  | sized (f : LengthField) (size data : Bytes) :
      size.length = f.width → data.length < Bytes.toNatLE size →
      RunsPastEnd (f.code :: (size ++ data))

/-- The lists of texts that write a script in the one way that disassembling chooses. -/
inductive Canonical : List String → Prop
  | nil : Canonical []
  | mnemonic (o : Opcode) (rest : List String) :
      (∀ f, o ≠ .pushData f) → Canonical rest → Canonical (o.name :: rest)
  | literal (size : Nat) (text : String) (rest : List String) :
      1 ≤ size → size ≤ 75 → Hex.IsText size text → Canonical rest → Canonical (text :: rest)
  | sized (f : LengthField) (size : Nat) (text : String) (rest : List String) :
      size < Bytes.capacity f.width → Hex.IsText size text → Canonical rest →
      Canonical (f.name :: text :: rest)
  | undefined (code : UInt8) (rest : List String) :
      0xba ≤ code → Canonical rest → Canonical (("OP_INVALID_" ++ Hex.encode [code]) :: rest)
  | truncated (bytes : Bytes) :
      RunsPastEnd bytes → Canonical ["OP_INVALID_" ++ Hex.encode bytes]

/-- The texts of a script. -/
def textsOf (script : Bytes) : List String :=
  (disassemble script).map Token.text

/-- The script that some texts write. -/
def assembleTexts (texts : List String) : Except AssemblyError Bytes :=
  assemble (texts.map Token.ofText)

namespace Instruction

/-! ## Well-formed instructions -/

/-- What each instruction that ends before the end of its script looks like. -/
inductive Complete : Instruction → Prop
  | direct (data : Bytes) : 1 ≤ data.length → data.length ≤ maxDirect → Complete (.direct data)
  | sized (f : LengthField) (data : Bytes) :
      data.length < Bytes.capacity f.width → Complete (.sized f data)
  | op (o : Opcode) : (∀ f, o ≠ .pushData f) → Complete (.op o)
  | undefined (code : UInt8) : 0xba ≤ code → Complete (.undefined code)

/-- The rows of instructions that byte strings are cut into: complete instructions, and at the end
perhaps a truncated push. -/
inductive WellFormed : List Instruction → Prop
  | nil : WellFormed []
  | cons (i : Instruction) (rest : List Instruction) :
      i.Complete → WellFormed rest → WellFormed (i :: rest)
  | truncated (bytes : Bytes) : RunsPastEnd bytes → WellFormed [.truncated bytes]

/-- A push with a length field begins with the byte of its opcode. -/
theorem code_of_length_field {code : UInt8} {f : LengthField} (h : lengthField? code = some f) :
    code = f.code := by
  unfold lengthField? at h
  split at h
  · next hcode => cases h; exact hcode
  · split at h
    · next hcode => cases h; exact hcode
    · split at h
      · next hcode => cases h; exact hcode
      · cases h

/-- The bytes that announce no data and write no opcode are those above all codes. -/
theorem undefined_iff {code : UInt8} :
    ¬(1 ≤ code.toNat ∧ code.toNat ≤ maxDirect) ∧ Opcode.ofCode? code = none ↔ 0xba ≤ code := by
  have hall : ∀ n : Fin 256, ¬(1 ≤ n.val ∧ n.val ≤ maxDirect) ∧
      Opcode.ofCode? (UInt8.ofNat n) = none ↔ 0xba ≤ n.val := by decide +kernel
  have h := hall ⟨code.toNat, code.toNat_lt⟩
  rw [UInt8.ofNat_toNat] at h
  rw [UInt8.le_iff_toNat_le]
  exact h

/-- A byte that writes no opcode announces no length field. -/
theorem lengthField?_eq_none {code : UInt8} (h : Opcode.ofCode? code = none) :
    lengthField? code = none := by
  refine Option.eq_none_iff_forall_ne_some.mpr fun f hf ↦ ?_
  have hop := Opcode.ofCode?_code (.pushData f)
  rw [code_of_length_field hf] at h
  rw [Opcode.code, h] at hop
  cases hop

/-- The byte of an opcode announces no data, and a length field only if the opcode has one. -/
theorem op_code_facts (o : Opcode) :
    ¬(1 ≤ o.code.toNat ∧ o.code.toNat ≤ maxDirect) ∧
      ∀ f, lengthField? o.code = some f → o = .pushData f := by
  have hall : ∀ o ∈ Opcode.all, ¬(1 ≤ o.code.toNat ∧ o.code.toNat ≤ maxDirect) ∧
      ∀ f ∈ [LengthField.one, .two, .four], lengthField? o.code = some f → o = .pushData f := by
    decide +kernel
  obtain ⟨hdirect, hfield⟩ := hall o o.mem_all
  exact ⟨hdirect, fun f ↦ hfield f (by cases f <;> decide)⟩

/-! ## Cutting instructions off -/

/-- The first instruction is either complete, and is what it covers followed by the rest, or it is a
push that runs past the end and takes everything. -/
theorem first_cases (code : UInt8) (rest : Bytes) :
    ((first code rest).1.Complete ∧
        (first code rest).1.encode ++ (first code rest).2 = code :: rest) ∨
      (RunsPastEnd (code :: rest) ∧ first code rest = (.truncated (code :: rest), [])) := by
  unfold first
  dsimp only
  split
  · next hdirect =>
    split
    · next hshort =>
      refine .inr ⟨.direct code rest hdirect.1 hdirect.2 ?_, rfl⟩
      rw [List.length_take] at hshort
      omega
    · next hlong =>
      have hlength : (rest.take code.toNat).length = code.toNat := by
        rw [List.length_take] at hlong ⊢
        omega
      refine .inl ⟨.direct _ (by omega) (by omega), ?_⟩
      rw [encode, hlength, UInt8.ofNat_toNat, List.cons_append, List.take_append_drop]
  · next hdirect =>
    split
    · next f hf =>
      obtain rfl := code_of_length_field hf
      split
      · next hshort =>
        refine .inr ⟨?_, rfl⟩
        -- Either the length field is cut short already, or only the data behind it is.
        by_cases hfield : rest.length < f.width
        · exact .field f rest hfield
        · have hsize : (rest.take f.width).length = f.width := by
            rw [List.length_take]
            omega
          rw [← List.take_append_drop f.width rest]
          refine .sized f _ _ hsize ?_
          rcases hshort with hshort | hshort
          · omega
          · rw [List.length_take] at hshort
            omega
      · next hlong =>
        obtain ⟨hsize, hdata⟩ := not_or.mp hlong
        have hwidth : (rest.take f.width).length = f.width := by
          rw [List.length_take] at hsize ⊢
          omega
        have hlength : ((rest.drop f.width).take (Bytes.toNatLE (rest.take f.width))).length
            = Bytes.toNatLE (rest.take f.width) := by
          rw [List.length_take] at hdata ⊢
          omega
        have hbytes := Bytes.ofNatLE_toNatLE (rest.take f.width)
        have hlt := Bytes.toNatLE_lt (rest.take f.width)
        rw [hwidth] at hbytes hlt
        refine .inl ⟨.sized f _ (by rw [hlength]; exact hlt), ?_⟩
        rw [encode, hlength, hbytes, List.cons_append, List.append_assoc, List.take_append_drop,
          List.take_append_drop]
    · next hf =>
      split
      · next o ho =>
        have hcode : o.code = code := by simpa using List.find?_some ho
        refine .inl ⟨.op o fun f h ↦ ?_, by rw [encode, hcode]; rfl⟩
        subst h
        -- An opcode with a length field was caught by the field above.
        rw [← hcode] at hf
        cases f <;> cases hf
      · next ho => exact .inl ⟨.undefined code (undefined_iff.mp ⟨hdirect, ho⟩), rfl⟩

/-- The byte of a length field is followed by the length, and that by the data. -/
theorem first_field (f : LengthField) (rest : Bytes) :
    first f.code rest =
      if (rest.take f.width).length < f.width ∨
          ((rest.drop f.width).take (Bytes.toNatLE (rest.take f.width))).length
            < Bytes.toNatLE (rest.take f.width) then (.truncated (f.code :: rest), [])
      else (.sized f ((rest.drop f.width).take (Bytes.toNatLE (rest.take f.width))),
        (rest.drop f.width).drop (Bytes.toNatLE (rest.take f.width))) := by
  cases f <;> rfl

/-- A complete instruction is cut off in front of anything. -/
theorem first_encode {i : Instruction} (h : i.Complete) (rest : Bytes) :
    ∃ code tail, i.encode = code :: tail ∧ first code (tail ++ rest) = (i, rest) := by
  cases h with
  | direct data hpos hmax =>
      have hcode : (UInt8.ofNat data.length).toNat = data.length := by
        rw [UInt8.toNat_ofNat']
        unfold maxDirect at hmax
        omega
      refine ⟨_, data, rfl, ?_⟩
      simp [first, hcode, hpos, hmax]
  | sized f data hfits =>
      have hsize : Bytes.toNatLE (Bytes.ofNatLE f.width data.length) = data.length := by
        rw [Bytes.toNatLE_ofNatLE, Nat.mod_eq_of_lt hfits]
      refine ⟨f.code, Bytes.ofNatLE f.width data.length ++ data, rfl, ?_⟩
      rw [first_field]
      simp [hsize]
  | op o hfield =>
      obtain ⟨hdirect, hf⟩ := op_code_facts o
      refine ⟨o.code, [], rfl, ?_⟩
      have hnone : lengthField? o.code = none :=
        Option.eq_none_iff_forall_ne_some.mpr fun f h ↦ hfield f (hf f h)
      rw [first, if_neg hdirect, hnone]
      simp [Opcode.ofCode?_code]
  | undefined code hcode =>
      obtain ⟨hdirect, hop⟩ := undefined_iff.mpr hcode
      have hnone := lengthField?_eq_none hop
      refine ⟨code, [], rfl, ?_⟩
      rw [first, if_neg hdirect, hnone]
      simp [hop]

/-- A push that runs past the end is cut off as a whole. -/
theorem first_truncated {code : UInt8} {rest : Bytes} (h : RunsPastEnd (code :: rest)) :
    first code rest = (.truncated (code :: rest), []) := by
  generalize hbytes : code :: rest = bytes at h
  cases h with
  | direct code' data hpos hmax hshort =>
      cases hbytes
      have hdata : (rest.take code.toNat).length < code.toNat := by
        rw [List.length_take]
        omega
      simp only [first, if_pos (show 1 ≤ code.toNat ∧ code.toNat ≤ maxDirect from ⟨hpos, hmax⟩),
        if_pos hdata]
  | field f size hshort =>
      cases hbytes
      have hsize : (rest.take f.width).length < f.width := by
        rw [List.length_take]
        omega
      rw [first_field, if_pos (.inl hsize)]
  | sized f size data hsize hshort =>
      cases hbytes
      have hdata : (data.take (Bytes.toNatLE size)).length < Bytes.toNatLE size := by
        rw [List.length_take]
        omega
      rw [first_field, ← hsize, List.take_left, List.drop_left, if_pos (.inr hdata)]

/-- The instructions of a script are well formed, and they cover it. -/
theorem parse_wellFormed (script : Bytes) :
    WellFormed (parse script) ∧ (parse script).flatMap encode = script := by
  induction script using parse.induct with
  | case1 =>
      rw [parse]
      exact ⟨.nil, rfl⟩
  | case2 code rest ih =>
      rw [parse]
      -- A truncated push covers everything, so nothing is left for the induction hypothesis.
      rcases first_cases code rest with ⟨hcomplete, hcovers⟩ | ⟨hpast, hfirst⟩
      · exact ⟨.cons _ _ hcomplete ih.1, by rw [List.flatMap_cons, ih.2, hcovers]⟩
      · rw [hfirst, parse]
        exact ⟨.truncated _ hpast, by simp [encode]⟩

/-- Well-formed instructions are the instructions of the bytes that they cover. -/
theorem parse_flatMap_encode {is : List Instruction} (h : WellFormed is) :
    parse (is.flatMap encode) = is := by
  induction h with
  | nil => rw [List.flatMap_nil, parse]
  | cons i rest hcomplete _ ih =>
      obtain ⟨code, tail, hencode, hfirst⟩ := first_encode hcomplete (rest.flatMap encode)
      rw [List.flatMap_cons, hencode, List.cons_append, parse, hfirst, ih]
  | truncated bytes hpast =>
      obtain ⟨code, rest, rfl⟩ : ∃ code rest, bytes = code :: rest := by
        cases hpast <;> exact ⟨_, _, rfl⟩
      rw [List.flatMap_singleton, encode, parse, first_truncated hpast, parse]

/-- Disassembling the bytes of well-formed instructions gives their tokens. -/
theorem disassemble_flatMap_encode {is : List Instruction} (h : WellFormed is) :
    disassemble (is.flatMap encode) = is.flatMap tokens := by
  rw [disassemble, parse_flatMap_encode h]

/-- A script of one opcode has one token. -/
theorem disassemble_opcode {o : Opcode} (hfield : ∀ f, o ≠ .pushData f) :
    disassemble [o.code] = [.op o] := by
  have hwell : WellFormed [.op o] := .cons _ _ (.op o hfield) .nil
  exact disassemble_flatMap_encode hwell

/-! ## Assembling instructions -/

/-- Data that a single byte can measure is pushed directly. -/
theorem shortestPush_direct {data : Bytes} (hpos : 1 ≤ data.length)
    (hmax : data.length ≤ maxDirect) : shortestPush data = encode (.direct data) := by
  rw [shortestPush, if_neg (by omega), if_pos hmax]

/-- Data that a length field can measure is pushed in the shortest way. -/
theorem literalPush_of_fits {f : LengthField} {data : Bytes}
    (h : data.length < Bytes.capacity f.width) : literalPush data = .ok (shortestPush data) := by
  have hfour : Bytes.capacity f.width ≤ Bytes.capacity LengthField.four.width := by
    cases f <;> decide
  rw [literalPush, if_pos (Nat.lt_of_lt_of_le h hfour)]

/-- Data that a single byte can measure has a direct push. -/
theorem literalPush_direct {data : Bytes} (hpos : 1 ≤ data.length)
    (hmax : data.length ≤ maxDirect) : literalPush data = .ok (encode (.direct data)) := by
  have hone : maxDirect < Bytes.capacity LengthField.one.width := by decide
  rw [literalPush_of_fits (Nat.lt_of_le_of_lt hmax hone), shortestPush_direct hpos hmax]

/-- An opcode without a length field has its byte. -/
theorem encode_token_op {o : Opcode} (hfield : ∀ f, o ≠ .pushData f) :
    (Token.op o).encode = .ok [o.code] := by
  cases o with
  | pushData f => exact absurd rfl (hfield f)
  | nop | reserved | forbidden | branch | signature | disabled | stack => rfl

/-- A marker for bytes that are no instruction has these bytes. -/
theorem encode_token_invalid (bs : Bytes) : (Token.invalid (Hex.encode bs)).encode = .ok bs := by
  rw [Token.encode, Hex.decode?_encode]

/-- A token that has bytes on its own is assembled by itself, whatever follows. -/
theorem assemble_cons_of_encode {t : Token} {front : Bytes} (h : t.encode = .ok front)
    (rest : List Token) : assemble (t :: rest) = (assemble rest).map (front ++ ·) := by
  rw [assemble]
  · rw [h]
    cases assemble rest <;> rfl
  · rintro f l tail rfl -
    cases h

/-- A push with a length field that can measure its data is assembled by itself, whatever follows. -/
theorem assemble_sized {f : LengthField} {l : Literal}
    (h : l.data.length < Bytes.capacity f.width) (rest : List Token) :
    assemble (.op (.pushData f) :: .literal l :: rest) =
      (assemble rest).map (encode (.sized f l.data) ++ ·) := by
  rw [assemble, sizedPush, if_pos h]
  cases assemble rest <;> rfl

/-- A complete instruction assembles to what it covers, whatever follows. -/
theorem assemble_tokens_append {i : Instruction} (h : i.Complete) (rest : List Token) :
    assemble (i.tokens ++ rest) = (assemble rest).map (i.encode ++ ·) := by
  cases h with
  | direct data hpos hmax =>
      have htoken : (Token.push data).encode = .ok (encode (.direct data)) :=
        literalPush_direct hpos hmax
      exact assemble_cons_of_encode htoken rest
  | sized f data hfits => exact assemble_sized (l := .ofBytes data) hfits rest
  | op o hfield => exact assemble_cons_of_encode (encode_token_op hfield) rest
  | undefined code _ => exact assemble_cons_of_encode (encode_token_invalid [code]) rest

/-- Well-formed instructions assemble to what they cover. -/
theorem assemble_flatMap_tokens {is : List Instruction} (h : WellFormed is) :
    assemble (is.flatMap tokens) = .ok (is.flatMap encode) := by
  induction h with
  | nil => rfl
  | cons i rest hcomplete _ ih =>
      rw [List.flatMap_cons, assemble_tokens_append hcomplete, ih, List.flatMap_cons]
      rfl
  | truncated bytes _ =>
      rw [List.flatMap_singleton, List.flatMap_singleton, tokens,
        assemble_cons_of_encode (encode_token_invalid bytes)]
      exact congrArg Except.ok (List.append_nil bytes)

/-- Assembling the tokens of a script gives the script. -/
theorem assemble_disassemble (script : Bytes) : assemble (disassemble script) = .ok script := by
  obtain ⟨hwell, hcovers⟩ := parse_wellFormed script
  rw [disassemble, assemble_flatMap_tokens hwell, hcovers]

/-- A literal of a script in text form is written as the literal for its data is. -/
theorem eq_ofBytes_of_mem {script : Bytes} {l : Literal} (h : .literal l ∈ disassemble script) :
    l = .ofBytes l.data := by
  obtain ⟨i, -, hi⟩ := List.mem_flatMap.mp h
  cases i with
  | direct data =>
      cases List.mem_singleton.mp hi
      rfl
  | sized f data =>
      rcases List.mem_cons.mp hi with hfield | hdata
      · cases hfield
      · cases List.mem_singleton.mp hdata
        rfl
  | op | undefined | truncated => cases List.mem_singleton.mp hi

end Instruction

/-! ## Texts of tokens -/

/-- A text that does not begin with `OP_`, or that begins like a marker for bytes that are no
instruction, is no mnemonic. -/
theorem Opcode.ofName?_eq_none {text : String}
    (h : ¬"OP_".toList <+: text.toList ∨ Token.invalidMarker.toList <+: text.toList) :
    ofName? text = none := by
  have hall : ∀ o ∈ all, "OP_".toList <+: o.name.toList ∧
      ¬Token.invalidMarker.toList <+: o.name.toList := by decide +kernel
  refine Option.eq_none_iff_forall_ne_some.mpr fun o ho ↦ ?_
  have hname : o.name = text := by simpa using List.find?_some ho
  obtain ⟨hmnemonic, hmarker⟩ := hall o o.mem_all
  rw [hname] at hmnemonic hmarker
  exact h.elim (fun h ↦ h hmnemonic) hmarker

/-- Such a text is no synonym either. -/
theorem Synonym.ofName?_eq_none {text : String}
    (h : ¬"OP_".toList <+: text.toList ∨ Token.invalidMarker.toList <+: text.toList) :
    ofName? text = none := by
  refine Option.eq_none_iff_forall_ne_some.mpr fun a ha ↦ ?_
  have hname : a.name = text := by simpa using List.find?_some ha
  have hall : ∀ a : Synonym, "OP_".toList <+: a.name.toList ∧
      ¬Token.invalidMarker.toList <+: a.name.toList := by
    intro a
    cases a <;> decide
  obtain ⟨hmnemonic, hmarker⟩ := hall a
  rw [hname] at hmnemonic hmarker
  exact h.elim (fun h ↦ h hmnemonic) hmarker

/-- A mnemonic reads back as its opcode. -/
theorem Token.ofText_name (o : Opcode) : ofText o.name = .op o := by
  rw [ofText, Opcode.ofName?_name]

/-- Hexadecimal text as written reads back as the literal that it was written from. -/
theorem Token.ofText_encode (bs : Bytes) : ofText (Hex.encode bs) = .push bs := by
  have hmnemonic : ¬"OP_".toList <+: (Hex.encode bs).toList := by
    rw [← List.isPrefixOf_iff_prefix, Hex.toList_encode, Hex.not_isPrefixOf_flatMap_ofByte]
    exact Bool.false_ne_true
  have hmarker : invalidMarker.toList.isPrefixOf (Hex.encode bs).toList = false := by
    rw [Bool.eq_false_iff, ne_eq, List.isPrefixOf_iff_prefix]
    exact fun h ↦ hmnemonic (.trans (by decide) h)
  have hread := readLiteral?_encode bs
  rw [ofText, Opcode.ofName?_eq_none (.inl hmnemonic), Synonym.ofName?_eq_none (.inl hmnemonic)]
  simp only [hmarker, Bool.false_eq_true, if_false]
  split
  · next data h =>
    obtain rfl : bs = data := Option.some.inj (hread.symm.trans h)
    rfl
  · next h =>
    rw [hread] at h
    cases h

/-- A marker reads back with what stands behind it. -/
theorem Token.ofText_invalid (payload : String) :
    ofText (invalidMarker ++ payload) = .invalid payload := by
  have htoList : (invalidMarker ++ payload).toList = invalidMarker.toList ++ payload.toList :=
    String.toList_append
  have hmarker : invalidMarker.toList <+: (invalidMarker ++ payload).toList := by
    rw [htoList]
    exact List.prefix_append _ _
  rw [ofText, Opcode.ofName?_eq_none (.inr hmarker), Synonym.ofName?_eq_none (.inr hmarker)]
  dsimp only
  rw [if_pos (List.isPrefixOf_iff_prefix.mpr hmarker), htoList,
    show invalidMarker.length = invalidMarker.toList.length from rfl, List.drop_left,
    String.ofList_toList]

/-- The texts of an instruction read back as its tokens. -/
theorem map_ofText_tokens (i : Instruction) :
    (i.tokens.map Token.text).map Token.ofText = i.tokens := by
  have hpush : ∀ bs, Token.ofText (Token.push bs).text = .push bs := Token.ofText_encode
  have hop : ∀ o, Token.ofText (Token.op o).text = .op o := Token.ofText_name
  have hinvalid : ∀ payload, Token.ofText (Token.invalid payload).text = .invalid payload :=
    Token.ofText_invalid
  cases i <;> simp [Instruction.tokens, hpush, hop, hinvalid]

/-- The texts of a script read back as its tokens. -/
theorem map_ofText_textsOf (script : Bytes) :
    (textsOf script).map Token.ofText = disassemble script := by
  rw [textsOf, disassemble]
  induction Instruction.parse script with
  | nil => rfl
  | cons i rest ih =>
      rw [List.flatMap_cons, List.map_append, List.map_append, map_ofText_tokens, ih]

/-! ## The round trip -/

open Instruction in
/-- The canonical lists of texts are the texts of well-formed instructions. -/
theorem canonical_iff {texts : List String} :
    Canonical texts ↔ ∃ is, WellFormed is ∧ (is.flatMap tokens).map Token.text = texts := by
  constructor
  · intro h
    induction h with
    | nil => exact ⟨[], .nil, rfl⟩
    | mnemonic o rest hfield _ ih =>
        obtain ⟨is, his, rfl⟩ := ih
        exact ⟨.op o :: is, .cons _ _ (.op o hfield) his, rfl⟩
    | literal size text rest hpos hmax htext _ ih =>
        obtain ⟨is, his, rfl⟩ := ih
        obtain ⟨data, rfl, rfl⟩ := Hex.isText_iff.mp htext
        exact ⟨.direct data :: is, .cons _ _ (.direct data hpos hmax) his, rfl⟩
    | sized f size text rest hfits htext _ ih =>
        obtain ⟨is, his, rfl⟩ := ih
        obtain ⟨data, rfl, rfl⟩ := Hex.isText_iff.mp htext
        exact ⟨.sized f data :: is, .cons _ _ (.sized f data hfits) his, rfl⟩
    | undefined code rest hcode _ ih =>
        obtain ⟨is, his, rfl⟩ := ih
        exact ⟨.undefined code :: is, .cons _ _ (.undefined code hcode) his, rfl⟩
    | truncated bytes hpast => exact ⟨[.truncated bytes], .truncated bytes hpast, rfl⟩
  · rintro ⟨is, his, rfl⟩
    induction his with
    | nil => exact .nil
    | cons i rest hcomplete _ ih =>
        rw [List.flatMap_cons, List.map_append]
        cases hcomplete with
        | direct data hpos hmax => exact .literal _ _ _ hpos hmax (Hex.isText_encode data) ih
        | sized f data hfits => exact .sized f _ _ _ hfits (Hex.isText_encode data) ih
        | op o hfield => exact .mnemonic o _ hfield ih
        | undefined code hcode => exact .undefined code _ hcode ih
    | truncated bytes hpast => exact .truncated bytes hpast

open Instruction in
/-- Assembling the texts of well-formed instructions gives a script with these texts. -/
theorem assemble_texts_wellFormed {is : List Instruction} (h : WellFormed is) :
    textsOf (is.flatMap encode) = (is.flatMap tokens).map Token.text ∧
      assembleTexts ((is.flatMap tokens).map Token.text) = .ok (is.flatMap encode) := by
  have htexts : textsOf (is.flatMap encode) = (is.flatMap tokens).map Token.text := by
    rw [textsOf, disassemble_flatMap_encode h]
  refine ⟨htexts, ?_⟩
  rw [← htexts, assembleTexts, map_ofText_textsOf, disassemble_flatMap_encode h,
    assemble_flatMap_tokens h]

/-- Disassembling and assembling are inverse to each other between all byte strings and the
canonical lists of texts. -/
theorem canonical_round_trip :
    (∀ script, assembleTexts (textsOf script) = .ok script) ∧
      (∀ texts, (∃ script, textsOf script = texts) ↔ Canonical texts) ∧
      ∀ texts, Canonical texts →
        ∃ script, assembleTexts texts = .ok script ∧ textsOf script = texts := by
  -- Every part goes through the instructions: both sides are images of the well-formed rows.
  refine ⟨fun script ↦ ?_, fun texts ↦ ⟨?_, fun h ↦ ?_⟩, fun texts h ↦ ?_⟩
  · obtain ⟨hwellFormed, hcovers⟩ := Instruction.parse_wellFormed script
    have hassemble := (assemble_texts_wellFormed hwellFormed).2
    rwa [hcovers] at hassemble
  · rintro ⟨script, rfl⟩
    exact canonical_iff.mpr ⟨_, (Instruction.parse_wellFormed script).1, rfl⟩
  · obtain ⟨is, his, rfl⟩ := canonical_iff.mp h
    exact ⟨_, (assemble_texts_wellFormed his).1⟩
  · obtain ⟨is, his, rfl⟩ := canonical_iff.mp h
    exact ⟨_, (assemble_texts_wellFormed his).2, (assemble_texts_wellFormed his).1⟩

/-- An empty push behind a length field, a byte without an opcode and a length field that is cut
short are canonical. -/
theorem canonical_round_trip_empty_push :
    Canonical ["OP_PUSHDATA1", "", "OP_INVALID_ff", "OP_INVALID_4d00"] ∧
      ∃ script,
        assembleTexts ["OP_PUSHDATA1", "", "OP_INVALID_ff", "OP_INVALID_4d00"] = .ok script ∧
        textsOf script = ["OP_PUSHDATA1", "", "OP_INVALID_ff", "OP_INVALID_4d00"] := by
  have hcut : Canonical ["OP_INVALID_4d00"] :=
    .truncated [0x4d, 0x00] (.field .two [0x00] (by decide))
  have h : Canonical ["OP_PUSHDATA1", "", "OP_INVALID_ff", "OP_INVALID_4d00"] :=
    .sized .one 0 "" _ (by decide) ⟨rfl, by simp⟩ (.undefined 0xff _ (by decide) hcut)
  exact ⟨h, canonical_round_trip.2.2 _ h⟩

end Script

end BitcoinSpend
