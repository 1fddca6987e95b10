import BitcoinSpend.Proofs.Script.Committed

/-!
# Respelled scripts

Assembling tokens and disassembling the bytes gives the same script in another spelling. `Respelled`
says which one, token by token, and `respelled_of_assemble` that it comes out. Signatures commit to
the same bytes in both spellings unless a literal pushes one of them in a spelling in which it is
taken out of one script and not of the other. Read `Spelling` and `DroppedAlike` first; the other
main result is `assemble_committedTokens_respelled`.
-/

namespace BitcoinSpend.Script

/-- The tokens of one instruction, and its tokens in disassembled form: an opcode by its first
mnemonic, no data as the opcode for zero, other data in lower case and without blanks, and a length
field in front of data without a direct push. -/
inductive Spelling : List Token → List Token → Prop where
  | opcode {t : Token} {o : Opcode} :
      t.opcode? = some o → (∀ f, o ≠ .pushData f) → Spelling [t] [.op o]
  | empty {l : Literal} : l.data = [] → Spelling [.literal l] [.op (.stack (.constant .zero))]
  | direct {l : Literal} :
      1 ≤ l.data.length → l.data.length ≤ Instruction.maxDirect →
      Spelling [.literal l] [.push l.data]
  | long {f : LengthField} {l : Literal} :
      Instruction.maxDirect < l.data.length → l.data.length < Bytes.capacity f.width →
      shortestPush l.data = Instruction.encode (.sized f l.data) →
      Spelling [.literal l] [.op (.pushData f), .push l.data]
  | sized {f : LengthField} {l : Literal} :
      l.data.length < Bytes.capacity f.width →
      Spelling [.op (.pushData f), .literal l] [.op (.pushData f), .push l.data]

/-- Tokens, and the tokens of the same script in disassembled form. -/
inductive Respelled : List Token → List Token → Prop where
  | nil : Respelled [] []
  | append {front others tokens rest : List Token} :
      Spelling front others → Respelled tokens rest → Respelled (front ++ tokens) (others ++ rest)

/-- The tokens of one instruction are executable. -/
theorem Spelling.executable {front others : List Token} (h : Spelling front others) :
    ∃ size, Executable size front := by
  cases h with
  | @opcode t o ho hfield =>
      have hencode : t.encode = .ok [o.code] := by
        cases t with
        | op o' => cases ho; exact Instruction.encode_token_op hfield
        | synonym a => cases ho; rfl
        | literal | invalid | unknown => cases ho
      exact ⟨_, .single t [] hencode (.nil 0) (Nat.le_refl _)⟩
  | @empty l hdata =>
      have hfits : l.data.length < Bytes.capacity LengthField.one.width := by
        rw [hdata]
        decide
      exact ⟨_, .literal hfits (.nil 0) (Nat.le_refl _)⟩
  | direct hpos hmax =>
      have hone : Instruction.maxDirect < Bytes.capacity LengthField.one.width := by decide
      exact ⟨_, .literal (Nat.lt_of_le_of_lt hmax hone) (.nil 0) (Nat.le_refl _)⟩
  | long hlong hfits hpush => exact ⟨_, .literal hfits (.nil 0) (Nat.le_refl _)⟩
  | @sized f l hfits => exact ⟨_, .sized f l [] hfits (.nil 0) (Nat.le_refl _)⟩

/-! ## What is disassembled -/

open Instruction in
/-- Data without a direct push is pushed with some length field. -/
theorem exists_field_of_long {data : Bytes} (hlong : maxDirect < data.length)
    (hfits : data.length < Bytes.capacity LengthField.four.width) :
    ∃ f : LengthField, data.length < Bytes.capacity f.width ∧
      shortestPush data = encode (.sized f data) := by
  have hzero : data.length ≠ 0 := Nat.ne_of_gt (Nat.zero_lt_of_lt hlong)
  rw [shortestPush, if_neg hzero, if_neg (Nat.not_le.mpr hlong)]
  by_cases hone : data.length ≤ 0xff
  · exact ⟨.one, Nat.lt_succ_of_le hone, if_pos hone⟩
  · by_cases htwo : data.length ≤ 0xffff
    · exact ⟨.two, Nat.lt_succ_of_le htwo, by rw [if_neg hone, if_pos htwo]⟩
    · exact ⟨.four, hfits, by rw [if_neg hone, if_neg htwo]⟩

variable {tokens others rest : List Token} {t : Token} {l : Literal} {bytes front : Bytes}

open Instruction in
/-- A token that has bytes on its own is respelled as the instruction of these bytes. -/
theorem exists_instruction (ht : t.isInvalid = false) (hencode : t.encode = .ok front) :
    ∃ i : Instruction, i.Complete ∧ i.encode = front ∧ Spelling [t] i.tokens := by
  cases t with
  | op o =>
      have hfield : ∀ f, o ≠ .pushData f := by
        rintro f rfl
        cases hencode
      rw [encode_token_op hfield] at hencode
      cases hencode
      exact ⟨.op o, .op o hfield, rfl, .opcode rfl hfield⟩
  | synonym a =>
      cases hencode
      have hfield : ∀ f, a.opcode ≠ .pushData f := by cases a <;> simp [Synonym.opcode]
      exact ⟨.op a.opcode, .op _ hfield, rfl, .opcode rfl hfield⟩
  | literal l =>
      rw [Token.encode, literalPush] at hencode
      split at hencode
      · next hfits =>
          cases hencode
          by_cases hempty : l.data.length = 0
          · have hdata : l.data = [] := List.length_eq_zero_iff.mp hempty
            refine ⟨.op (.stack (.constant .zero)), .op _ (by simp), ?_, .empty hdata⟩
            rw [hdata]
            rfl
          · have hpos : 1 ≤ l.data.length := Nat.pos_of_ne_zero hempty
            by_cases hdirect : l.data.length ≤ maxDirect
            · exact ⟨.direct l.data, .direct _ hpos hdirect, (shortestPush_direct hpos hdirect).symm,
                .direct hpos hdirect⟩
            · have hlong := Nat.not_le.mp hdirect
              obtain ⟨f, hfield, hpush⟩ := exists_field_of_long hlong hfits
              exact ⟨.sized f l.data, .sized f _ hfield, hpush.symm, .long hlong hfield hpush⟩
      · cases hencode
  | invalid payload => cases ht
  | unknown text => cases hencode

open Instruction in
/-- What tokens are assembled to is covered by well-formed instructions, as which they are
respelled. -/
theorem exists_instructions (hinvalid : ∀ t ∈ tokens, t.isInvalid = false)
    (h : assemble tokens = .ok bytes) :
    ∃ is, WellFormed is ∧ is.flatMap encode = bytes ∧
      Respelled tokens (is.flatMap Instruction.tokens) := by
  induction tokens using assemble.induct generalizing bytes with
  | case1 =>
      cases h
      exact ⟨[], .nil, rfl, .nil⟩
  | case2 f l rest ih =>
      have hfield : l.data.length < Bytes.capacity f.width := by
        by_contra hlong
        rw [assemble, sizedPush, if_neg hlong] at h
        cases h
      rw [assemble_sized hfield] at h
      cases hrest : assemble rest with
      | error e =>
          rw [hrest] at h
          cases h
      | ok back =>
          rw [hrest] at h
          cases h
          obtain ⟨is, hwell, rfl, hrespelled⟩ := ih
            (fun t ht ↦ hinvalid t (List.mem_cons_of_mem _ (List.mem_cons_of_mem _ ht))) hrest
          exact ⟨.sized f l.data :: is, .cons _ _ (.sized f _ hfield) hwell, rfl,
            .append (.sized hfield) hrespelled⟩
  | case3 t rest hne ih =>
      rw [assemble] at h
      · cases hencode : t.encode with
        | error e =>
            rw [hencode] at h
            cases h
        | ok front =>
            cases hrest : assemble rest with
            | error e =>
                rw [hencode, hrest] at h
                cases h
            | ok back =>
                rw [hencode, hrest] at h
                cases h
                obtain ⟨is, hwell, rfl, hrespelled⟩ :=
                  ih (fun t ht ↦ hinvalid t (List.mem_cons_of_mem _ ht)) hrest
                obtain ⟨i, hcomplete, rfl, hspelling⟩ :=
                  exists_instruction (hinvalid t List.mem_cons_self) hencode
                exact ⟨i :: is, .cons i is hcomplete hwell, rfl, .append hspelling hrespelled⟩
      · exact hne

/-- Tokens are respelled as the disassembled form of what they are assembled to. -/
theorem respelled_of_assemble (hinvalid : ∀ t ∈ tokens, t.isInvalid = false)
    (h : assemble tokens = .ok bytes) : Respelled tokens (disassemble bytes) := by
  obtain ⟨is, hwell, rfl, hrespelled⟩ := exists_instructions hinvalid h
  rwa [Instruction.disassemble_flatMap_encode hwell]

/-! ## What signatures commit to -/

/-- A literal among some tokens that is not the data of a push with a length field. -/
def StandsAlone (tokens : List Token) (l : Literal) : Prop :=
  ∃ front back, tokens = front ++ .literal l :: back ∧
    ∀ f, front.getLast? ≠ some (.op (.pushData f))

/-- A literal that stands alone does so behind any other token too, except a length field. -/
theorem StandsAlone.cons (h : StandsAlone rest l) (ht : t.isPushData = false) :
    StandsAlone (t :: rest) l := by
  obtain ⟨front, back, rfl, hfront⟩ := h
  refine ⟨t :: front, back, rfl, fun f hlast ↦ ?_⟩
  cases front with
  | nil =>
      cases hlast
      cases ht
  | cons u front =>
      rw [List.getLast?_cons_cons] at hlast
      exact hfront f hlast

/-- The literals that stand alone and push one of some signatures are written as such a push is
disassembled, in lower case and without blanks, if and only if they are short enough for a direct
push. -/
def DroppedAlike (signatures : List Bytes) (tokens : List Token) : Prop :=
  ∀ l, StandsAlone tokens l → l.data ∈ signatures → l.data ≠ [] →
    (l = .ofBytes l.data ↔ l.data.length ≤ Instruction.maxDirect)

namespace DroppedAlike

variable {signatures : List Bytes}

/-- This goes for the tokens behind one that is no length field. -/
theorem tail (h : DroppedAlike signatures (t :: rest)) (ht : t.isPushData = false) :
    DroppedAlike signatures rest :=
  fun l hl ↦ h l (hl.cons ht)

/-- It goes for a literal at the beginning. -/
theorem head (h : DroppedAlike signatures (.literal l :: rest)) (hmem : l.data ∈ signatures)
    (hne : l.data ≠ []) : l = .ofBytes l.data ↔ l.data.length ≤ Instruction.maxDirect :=
  h l ⟨[], rest, rfl, nofun⟩ hmem hne

/-- It goes for the tokens behind a length field and its data. -/
theorem tail_sized {f : LengthField}
    (h : DroppedAlike signatures (.op (.pushData f) :: .literal l :: rest)) :
    DroppedAlike signatures rest := by
  rintro k ⟨front, back, rfl, hfront⟩
  refine h k ⟨.op (.pushData f) :: .literal l :: front, back, rfl, fun g hlast ↦ ?_⟩
  cases front with
  | nil => cases hlast
  | cons u front =>
      rw [List.getLast?_cons_cons, List.getLast?_cons_cons] at hlast
      exact hfront g hlast

/-- No signatures are dropped alike. -/
theorem of_nil : DroppedAlike [] tokens :=
  fun _ _ hmem ↦ absurd hmem List.not_mem_nil

end DroppedAlike

namespace Machine

variable {signatures : List Bytes} {env : Environment}

/-- A literal is taken out if it is written as a signature is disassembled that is not empty. -/
theorem pushesSignature_literal (signatures : List Bytes) (l : Literal) :
    pushesSignature signatures (.literal l) = true ↔
      l.data ∈ signatures ∧ l.data ≠ [] ∧ l = .ofBytes l.data := by
  simp only [pushesSignature, List.any_eq_true, Bool.and_eq_true, decide_eq_true_eq, Token.push,
    Token.literal.injEq, Bool.not_eq_true', List.isEmpty_eq_false_iff]
  constructor
  · rintro ⟨s, hmem, hne, rfl⟩
    exact ⟨hmem, hne, rfl⟩
  · rintro ⟨hmem, hne, hl⟩
    exact ⟨l.data, hmem, hne, hl⟩

/-- The bytes to which some tokens are assembled without separators and without direct pushes of some
signatures. -/
def bytesWithout (signatures : List Bytes) (tokens : List Token) : Except AssemblyError Bytes :=
  assemble (dropSignatures signatures false
    (tokens.filter (· ≠ .op (.signature .codeSeparator))))

/-- Separators are left out. -/
theorem bytesWithout_separator (signatures : List Bytes) (rest : List Token) :
    bytesWithout signatures (.op (.signature .codeSeparator) :: rest) =
      bytesWithout signatures rest := by
  rw [bytesWithout, List.filter_cons_of_neg (by simp)]
  rfl

/-- Any other token that stands alone is assembled unless it pushes a signature. -/
theorem bytesWithout_cons (hencode : t.encode = .ok front)
    (ht : t ≠ .op (.signature .codeSeparator)) (rest : List Token) :
    bytesWithout signatures (t :: rest) =
      if pushesSignature signatures t then bytesWithout signatures rest
      else (bytesWithout signatures rest).map (front ++ ·) := by
  rw [bytesWithout, List.filter_cons_of_pos (by simpa using ht),
    Instruction.dropSignatures_cons (Token.not_isPushData_of_encode hencode)]
  split
  · rfl
  · exact Instruction.assemble_cons_of_encode hencode _

/-- Data behind a length field is assembled with it. -/
theorem bytesWithout_sized {f : LengthField} (h : l.data.length < Bytes.capacity f.width)
    (rest : List Token) :
    bytesWithout signatures (.op (.pushData f) :: .literal l :: rest) =
      (bytesWithout signatures rest).map (Instruction.encode (.sized f l.data) ++ ·) := by
  have hfield : pushesSignature signatures (.op (.pushData f)) = false :=
    Instruction.pushesSignature_eq_false rfl
  rw [bytesWithout, List.filter_cons_of_pos (by simp), List.filter_cons_of_pos (by simp)]
  simp only [dropSignatures, hfield, Token.isPushData, Bool.and_false, Bool.not_true,
    Bool.false_and, Bool.false_eq_true, if_false]
  exact Instruction.assemble_sized h _

/-- A literal that is not taken out is assembled. -/
theorem bytesWithout_literal (hencode : literalPush l.data = .ok front)
    (hkept : ¬(l.data ∈ signatures ∧ l.data ≠ [] ∧ l = .ofBytes l.data)) (rest : List Token) :
    bytesWithout signatures (.literal l :: rest) =
      (bytesWithout signatures rest).map (front ++ ·) := by
  have htoken : (Token.literal l).encode = .ok front := hencode
  rw [bytesWithout_cons htoken nofun, if_neg (mt (pushesSignature_literal signatures l).mp hkept)]

/-- A token that names an opcode without a length field has the effect of this opcode. -/
theorem bytesWithout_opcode {o : Opcode} (ho : t.opcode? = some o) (hfield : ∀ f, o ≠ .pushData f)
    (rest : List Token) :
    bytesWithout signatures (t :: rest) = bytesWithout signatures (.op o :: rest) := by
  cases t with
  | op o' =>
      cases ho
      rfl
  | synonym a =>
      cases ho
      have hencode : (Token.synonym a).encode = .ok [a.opcode.code] := rfl
      have hne : Token.op a.opcode ≠ .op (.signature .codeSeparator) := by cases a <;> nofun
      rw [bytesWithout_cons hencode nofun, Instruction.pushesSignature_eq_false rfl,
        bytesWithout_cons (Instruction.encode_token_op hfield) hne,
        Instruction.pushesSignature_eq_false rfl]
  | literal | invalid | unknown => cases ho

/-- What stands behind an opcode without a length field is assembled by itself. -/
theorem bytesWithout_op_congr {o : Opcode} (hfield : ∀ f, o ≠ .pushData f)
    (h : bytesWithout signatures rest = bytesWithout signatures others) :
    bytesWithout signatures (.op o :: rest) = bytesWithout signatures (.op o :: others) := by
  by_cases ho : o = .signature .codeSeparator
  · subst ho
    rw [bytesWithout_separator, bytesWithout_separator, h]
  · have hne : Token.op o ≠ .op (.signature .codeSeparator) := by simpa using ho
    rw [bytesWithout_cons (Instruction.encode_token_op hfield) hne,
      bytesWithout_cons (Instruction.encode_token_op hfield) hne, h]

/-- An instruction and its respelled form are left out or assembled to the same effect in front of
tokens for which this is so. -/
theorem bytesWithout_spelling {front others : List Token} (h : Spelling front others)
    (hsame : DroppedAlike signatures (front ++ tokens))
    (ih : DroppedAlike signatures tokens →
      bytesWithout signatures tokens = bytesWithout signatures rest) :
    bytesWithout signatures (front ++ tokens) = bytesWithout signatures (others ++ rest) := by
  cases h with
  | @opcode t o ho hfield =>
      have ht : t.isPushData = false := by
        cases t with
        | op o' => cases ho; exact Token.not_isPushData_of_encode (Instruction.encode_token_op hfield)
        | synonym | literal | invalid | unknown => rfl
      rw [List.singleton_append, bytesWithout_opcode ho hfield]
      exact bytesWithout_op_congr hfield (ih (hsame.tail ht))
  | @empty l hdata =>
      have hencode : literalPush l.data = .ok [0x00] := by
        rw [hdata]
        rfl
      have hzero : (Token.op (.stack (.constant .zero))).encode = .ok [0x00] := rfl
      rw [List.singleton_append, bytesWithout_literal hencode fun hdrops ↦ hdrops.2.1 hdata,
        List.singleton_append, bytesWithout_cons hzero (by simp),
        Instruction.pushesSignature_eq_false rfl, ih (hsame.tail rfl)]
      rfl
  | @direct l hpos hmax =>
      have hencode : (Token.literal l).encode = .ok (Instruction.encode (.direct l.data)) :=
        Instruction.literalPush_direct hpos hmax
      have hencode' : (Token.push l.data).encode = .ok (Instruction.encode (.direct l.data)) :=
        Instruction.literalPush_direct hpos hmax
      -- The spelling matters only where the data is a signature, and there it is the one below.
      have hdrops : pushesSignature signatures (.literal l) =
          pushesSignature signatures (.push l.data) := by
        have hne : l.data ≠ [] := List.ne_nil_of_length_pos hpos
        rw [Bool.eq_iff_iff, Token.push, pushesSignature_literal, pushesSignature_literal]
        exact ⟨fun h ↦ ⟨h.1, hne, rfl⟩, fun h ↦ ⟨h.1, hne, (hsame.head h.1 hne).mpr hmax⟩⟩
      rw [List.singleton_append, bytesWithout_cons hencode (by simp), List.singleton_append,
        bytesWithout_cons hencode' (by simp [Token.push]), hdrops, ih (hsame.tail rfl)]
  | @long f l hlong hfits hpush =>
      have hencode : literalPush l.data = .ok (Instruction.encode (.sized f l.data)) :=
        (Instruction.literalPush_of_fits hfits).trans (congrArg _ hpush)
      have hkept : ¬(l.data ∈ signatures ∧ l.data ≠ [] ∧ l = .ofBytes l.data) := by
        rintro ⟨hmem, hne, hl⟩
        exact absurd ((hsame.head hmem hne).mp hl) (Nat.not_le.mpr hlong)
      refine (bytesWithout_literal hencode hkept tokens).trans ?_
      rw [ih (hsame.tail rfl)]
      exact (bytesWithout_sized (l := .ofBytes l.data) hfits rest).symm
  | @sized f l hfits =>
      refine (bytesWithout_sized hfits tokens).trans ?_
      rw [ih hsame.tail_sized]
      exact (bytesWithout_sized (l := .ofBytes l.data) hfits rest).symm

/-- Separators and signatures are left out of respelled tokens to the same effect. -/
theorem bytesWithout_respelled (h : Respelled tokens others)
    (hsame : DroppedAlike signatures tokens) :
    bytesWithout signatures tokens = bytesWithout signatures others := by
  induction h with
  | nil => rfl
  | append hspelling _ ih => exact bytesWithout_spelling hspelling hsame ih

/-- Without signatures nothing is taken out. -/
theorem dropSignatures_nil (isData : Bool) (tokens : List Token) :
    dropSignatures [] isData tokens = tokens := by
  induction tokens generalizing isData with
  | nil => rfl
  | cons t rest ih =>
      have hkept : pushesSignature [] t = false := rfl
      rw [dropSignatures, hkept, Bool.and_false, if_neg Bool.false_ne_true, ih]

/-- Signatures commit to the same bytes in respelled tokens. -/
theorem assemble_committedTokens_respelled (h : Respelled tokens others)
    (hsame : env.segwit = false → DroppedAlike signatures tokens) :
    assemble (committedTokens env signatures tokens) =
      assemble (committedTokens env signatures others) := by
  cases hsegwit : env.segwit with
  | true =>
      have hsame := bytesWithout_respelled h .of_nil
      rw [bytesWithout, bytesWithout, dropSignatures_nil, dropSignatures_nil] at hsame
      rwa [committedTokens, committedTokens, hsegwit, if_pos rfl, if_pos rfl]
  | false =>
      rw [committedTokens, committedTokens, hsegwit, if_neg Bool.false_ne_true,
        if_neg Bool.false_ne_true]
      exact bytesWithout_respelled h (hsame hsegwit)

end Machine

end BitcoinSpend.Script
