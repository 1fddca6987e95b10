import BitcoinSpend.Proofs.Script.Canonical
import BitcoinSpend.Script.Machine.Signature

/-!
# Tokens that can be assembled

A run assembles parts of its scripts again, so it has no errors only if its tokens have bytes:
`Executable` says that they do, and how many at most. Every script in disassembled form is
executable, and so are its suffixes and what signatures commit to. Read `Executable` first, then
`executable_disassemble` and `Executable.committedTokens`.
-/

namespace BitcoinSpend.Script

/-- Literals for different byte strings are different. -/
theorem Token.push_inj {a b : Bytes} : Token.push a = Token.push b ↔ a = b := by
  constructor
  · intro h
    have hliteral : Literal.ofBytes a = Literal.ofBytes b := by injection h
    exact congrArg Literal.data hliteral
  · rintro rfl
    rfl

/-- A token that has bytes on its own is no push with a length field. -/
theorem Token.not_isPushData_of_encode {t : Token} {bytes : Bytes} (h : t.encode = .ok bytes) :
    t.isPushData = false := by
  cases t with
  | op o =>
      cases o with
      | pushData f => cases h
      | nop | reserved | forbidden | branch | signature | disabled | stack => rfl
  | synonym | literal | invalid | unknown => rfl

/-- Tokens that have bytes, and not more than a given number: a push with a length field stands
before data that its field can measure, and each other token has bytes on its own. -/
inductive Executable : Nat → List Token → Prop where
  | nil (size : Nat) : Executable size []
  | sized {size rest : Nat} (f : LengthField) (l : Literal) (tokens : List Token) :
      l.data.length < Bytes.capacity f.width → Executable rest tokens →
      1 + f.width + l.data.length + rest ≤ size →
      Executable size (.op (.pushData f) :: .literal l :: tokens)
  | single {size rest : Nat} {bytes : Bytes} (t : Token) (tokens : List Token) :
      t.encode = .ok bytes → Executable rest tokens → bytes.length + rest ≤ size →
      Executable size (t :: tokens)

namespace Executable

variable {size more : Nat} {t : Token} {tokens : List Token}

/-- A weaker bound holds too. -/
theorem mono (h : Executable size tokens) (hle : size ≤ more) : Executable more tokens := by
  cases h with
  | nil => exact .nil more
  | sized f l tokens hfield hrest hsize =>
      exact .sized f l tokens hfield hrest (Nat.le_trans hsize hle)
  | single t tokens hencode hrest hsize =>
      exact .single t tokens hencode hrest (Nat.le_trans hsize hle)

/-- A literal is pushed in no more bytes than with any field that can measure it. -/
theorem shortestPush_length {data : Bytes} {f : LengthField}
    (h : data.length < Bytes.capacity f.width) :
    (shortestPush data).length ≤ 1 + f.width + data.length := by
  have hsized (f : LengthField) :
      (Instruction.encode (.sized f data)).length = 1 + f.width + data.length := by
    rw [Instruction.encode, List.length_cons, List.length_append, Bytes.length_ofNatLE]
    omega
  have hcapacity : Bytes.capacity LengthField.one.width = 256 ∧
      Bytes.capacity LengthField.two.width = 65536 := ⟨rfl, rfl⟩
  have hwidth : LengthField.one.width = 1 ∧ LengthField.two.width = 2 ∧
      LengthField.four.width = 4 := ⟨rfl, rfl, rfl⟩
  unfold shortestPush
  dsimp only
  split
  · exact Nat.le_trans (Nat.le_add_right 1 f.width) (Nat.le_add_right _ _)
  · split
    · rw [Instruction.encode, List.length_cons]
      omega
    · split
      · rw [hsized]
        cases f <;> omega
      · split
        · rw [hsized]
          cases f <;> omega
        · rw [hsized]
          cases f <;> omega

/-- A literal that some length field can measure is executable in front of executable tokens. -/
theorem literal {rest : Nat} {f : LengthField} {l : Literal}
    (hfield : l.data.length < Bytes.capacity f.width) (hrest : Executable rest tokens)
    (hsize : 1 + f.width + l.data.length + rest ≤ size) : Executable size (.literal l :: tokens) := by
  have hle := shortestPush_length hfield
  exact .single (.literal l) tokens (Instruction.literalPush_of_fits hfield) hrest (by omega)

/-- The tokens behind the first one are executable. -/
theorem tail (h : Executable size (t :: tokens)) : Executable size tokens := by
  cases h with
  | sized f l tokens hfield hrest hsize =>
      -- Without its length field the literal stands alone and is pushed in the shortest way.
      exact .literal hfield hrest hsize
  | single _ _ _ hrest hsize => exact hrest.mono (by omega)

/-- The tokens from any place on are executable. -/
theorem drop (h : Executable size tokens) (n : Nat) : Executable size (tokens.drop n) := by
  induction n generalizing tokens with
  | zero => exact h
  | succ n ih =>
      cases tokens with
      | nil => exact .nil size
      | cons t tokens => exact ih h.tail

/-- Executable tokens behind one another are executable. -/
theorem append {others : List Token} (h : Executable size tokens)
    (hothers : Executable more others) :
    Executable (size + more) (tokens ++ others) := by
  induction h with
  | nil size => exact hothers.mono (Nat.le_add_left _ _)
  | sized f l tokens hfield _ hsize ih => exact .sized f l _ hfield ih (by omega)
  | single t tokens hencode _ hsize ih => exact .single t _ hencode ih (by omega)

/-- Executable tokens are assembled within the bound. -/
theorem exists_assemble (h : Executable size tokens) :
    ∃ bytes, assemble tokens = .ok bytes ∧ bytes.length ≤ size := by
  induction h with
  | nil size => exact ⟨[], rfl, Nat.zero_le _⟩
  | sized f l tokens hfield _ hsize ih =>
      obtain ⟨bytes, hbytes, hlength⟩ := ih
      refine ⟨Instruction.encode (.sized f l.data) ++ bytes, ?_, ?_⟩
      · rw [Instruction.assemble_sized hfield, hbytes]
        rfl
      · rw [Instruction.encode, List.length_append, List.length_cons, List.length_append,
          Bytes.length_ofNatLE]
        omega
  | @single size rest front t tokens hencode _ hsize ih =>
      obtain ⟨bytes, hbytes, hlength⟩ := ih
      refine ⟨front ++ bytes, ?_, ?_⟩
      · rw [Instruction.assemble_cons_of_encode hencode, hbytes]
        rfl
      · rw [List.length_append]
        omega

/-- A push with a length field stands before a literal. -/
theorem exists_literal {f : LengthField} (h : Executable size (.op (.pushData f) :: tokens)) :
    ∃ l rest, tokens = .literal l :: rest := by
  cases h with
  | sized f l tokens => exact ⟨l, tokens, rfl⟩
  | single t tokens hencode => cases hencode

/-- The first token is no unknown text. -/
theorem ne_unknown (h : Executable size (t :: tokens)) (text : String) : t ≠ .unknown text := by
  rintro rfl
  cases h with
  | single t tokens hencode => cases hencode

/-- A push of a byte string is no shorter than the byte string. -/
theorem length_le_shortestPush (data : Bytes) : data.length ≤ (shortestPush data).length := by
  unfold shortestPush
  dsimp only
  split
  · omega
  · split
    · simp [Instruction.encode]
    · split
      · simp [Instruction.encode]
        omega
      · split <;> (simp [Instruction.encode]; omega)

/-- The push of a literal is no shorter than its data. -/
theorem length_le_of_literalPush {data bytes : Bytes} (h : literalPush data = .ok bytes) :
    data.length ≤ bytes.length := by
  rw [literalPush] at h
  split at h
  · cases h
    exact length_le_shortestPush data
  · cases h

/-- The data of a literal is within the bound. -/
theorem data_length {l : Literal} (h : Executable size tokens) (hl : .literal l ∈ tokens) :
    l.data.length ≤ size := by
  induction h with
  | nil => cases hl
  | sized f k tokens hfield _ hsize ih =>
      rw [List.mem_cons, List.mem_cons] at hl
      rcases hl with hl | hl | hl
      · cases hl
      · cases hl
        omega
      · exact Nat.le_trans (ih hl) (by omega)
  | single t tokens hencode _ hsize ih =>
      rcases List.mem_cons.mp hl with rfl | hl
      · have hle := length_le_of_literalPush hencode
        omega
      · exact Nat.le_trans (ih hl) (by omega)

/-! ## What signatures commit to -/

/-- Executable tokens without some of those that stand alone are executable. -/
theorem filter (h : Executable size tokens) (keep : Token → Bool)
    (hfield : ∀ f, keep (.op (.pushData f)) = true) (hliteral : ∀ l, keep (.literal l) = true) :
    Executable size (tokens.filter keep) := by
  induction h with
  | nil size => exact .nil size
  | sized f l tokens hdata _ hsize ih =>
      rw [List.filter_cons_of_pos (hfield f), List.filter_cons_of_pos (hliteral l)]
      exact .sized f l _ hdata ih hsize
  | single t tokens hencode _ hsize ih =>
      by_cases ht : keep t = true
      · rw [List.filter_cons_of_pos ht]
        exact .single t _ hencode ih hsize
      · rw [List.filter_cons_of_neg ht]
        exact ih.mono (by omega)

/-- Executable tokens without the direct pushes of signatures are executable: the data behind a
length field stays. -/
theorem dropSignatures (h : Executable size tokens) (signatures : List Bytes) :
    Executable size (Machine.dropSignatures signatures false tokens) := by
  induction h with
  | nil size => exact .nil size
  | sized f l tokens hfield _ hsize ih =>
      -- The literal stays even if it is a signature, since the field in front of it stays.
      have hpush : Machine.pushesSignature signatures (.op (.pushData f)) = false := by
        simp [Machine.pushesSignature, Token.push]
      simp only [Machine.dropSignatures, hpush, Token.isPushData, Bool.and_false, Bool.not_true,
        Bool.false_and, Bool.false_eq_true, if_false]
      exact .sized f l _ hfield ih hsize
  | single t tokens hencode _ hsize ih =>
      rw [Machine.dropSignatures, Token.not_isPushData_of_encode hencode]
      split
      · exact ih.mono (by omega)
      · exact .single t _ hencode ih hsize

/-- What signatures commit to is executable. -/
theorem committedTokens (h : Executable size tokens) (env : Environment) (signatures : List Bytes) :
    Executable size (Machine.committedTokens env signatures tokens) := by
  have hfilter : Executable size (tokens.filter (· ≠ .op (.signature .codeSeparator))) :=
    h.filter _ (fun _ ↦ by simp) (fun _ ↦ by simp)
  unfold Machine.committedTokens
  dsimp only
  split
  · exact hfilter
  · exact hfilter.dropSignatures signatures

end Executable

/-! ## Disassembled scripts -/

/-- The tokens of a complete instruction are executable in front of executable tokens. -/
theorem executable_tokens_append {i : Instruction} (h : i.Complete) {size : Nat}
    {tokens : List Token} (htokens : Executable size tokens) :
    Executable (i.encode.length + size) (i.tokens ++ tokens) := by
  cases h with
  | direct data hpos hmax =>
      exact .single _ _ (Instruction.literalPush_direct hpos hmax) htokens (Nat.le_refl _)
  | sized f data hfield =>
      refine .sized f (.ofBytes data) _ hfield htokens (Nat.le_of_eq ?_)
      rw [Instruction.encode, List.length_cons, List.length_append, Bytes.length_ofNatLE]
      change 1 + f.width + data.length + size = _
      omega
  | op o hfield =>
      exact .single _ _ (Instruction.encode_token_op hfield) htokens (Nat.le_refl _)
  | undefined code =>
      exact .single _ _ (Instruction.encode_token_invalid [code]) htokens (Nat.le_refl _)

/-- The tokens of well-formed instructions are executable within the bytes that they cover. -/
theorem executable_flatMap_tokens {is : List Instruction} (h : Instruction.WellFormed is) :
    Executable (is.flatMap Instruction.encode).length (is.flatMap Instruction.tokens) := by
  induction h with
  | nil => exact .nil 0
  | cons i rest hcomplete _ ih =>
      rw [List.flatMap_cons, List.flatMap_cons, List.length_append]
      exact executable_tokens_append hcomplete ih
  | truncated bytes =>
      rw [List.flatMap_singleton, List.flatMap_singleton]
      exact .single _ _ (Instruction.encode_token_invalid bytes) (.nil 0) (Nat.le_refl _)

/-- A script in disassembled form is executable within its length. -/
theorem executable_disassemble (script : Bytes) :
    Executable script.length (disassemble script) := by
  obtain ⟨hwell, hcovers⟩ := Instruction.parse_wellFormed script
  have hexecutable := executable_flatMap_tokens hwell
  rw [hcovers] at hexecutable
  exact hexecutable

/-- A script has no more tokens than bytes. -/
theorem length_disassemble_le (script : Bytes) : (disassemble script).length ≤ script.length := by
  obtain ⟨hwell, hcovers⟩ := Instruction.parse_wellFormed script
  conv_rhs => rw [← hcovers]
  rw [disassemble]
  generalize Instruction.parse script = is at hwell
  induction hwell with
  | nil => exact Nat.le_refl 0
  | cons i rest hcomplete _ ih =>
      have hfirst : i.tokens.length ≤ i.encode.length := by
        cases hcomplete with
        | direct | op | undefined => simp [Instruction.tokens, Instruction.encode]
        | sized f data =>
            have hwidth : 1 ≤ f.width := by cases f <;> decide
            simp only [Instruction.tokens, Instruction.encode, List.length_cons, List.length_append,
              List.length_nil, Bytes.length_ofNatLE]
            omega
      rw [List.flatMap_cons, List.flatMap_cons, List.length_append, List.length_append]
      omega
  | truncated bytes hpast =>
      cases hpast <;> simp [Instruction.tokens, Instruction.encode]

/-- Only the empty script has no tokens. -/
theorem disassemble_eq_nil_iff {script : Bytes} : disassemble script = [] ↔ script = [] := by
  constructor
  · intro h
    have hassemble := Instruction.assemble_disassemble script
    rw [h] at hassemble
    cases hassemble
    rfl
  · rintro rfl
    rw [disassemble, Instruction.parse]
    rfl

end BitcoinSpend.Script
