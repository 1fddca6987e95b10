import BitcoinSpend.Proofs.Script.Executable

/-!
# The bytes that signatures commit to

Separators and pushes of signatures are taken out of the tokens that signatures commit to. On bytes
this leaves out whole instructions: `withoutWritten` cuts a script into its instructions and drops
those that are written in a given way. The main results are `assemble_committedTokens_segwit` and
`assemble_committedTokens_legacy`.
-/

namespace BitcoinSpend.Script

/-- A script without the instructions that are written as one of some byte strings. -/
def withoutWritten (dropped : List Bytes) (script : Bytes) : Bytes :=
  ((Instruction.parse script).filter fun i ↦ i.encode ∉ dropped).flatMap Instruction.encode

/-- Nothing is left out if no instruction is written as one of the byte strings. -/
theorem withoutWritten_of_forall {dropped : List Bytes} {script : Bytes}
    (h : ∀ i ∈ Instruction.parse script, i.encode ∉ dropped) :
    withoutWritten dropped script = script := by
  rw [withoutWritten, List.filter_eq_self.mpr fun i hi ↦ decide_eq_true (h i hi)]
  exact (Instruction.parse_wellFormed script).2

/-- The direct pushes of some signatures. Only a signature of at most 75 bytes that is not empty has
one. -/
def directPushes (signatures : List Bytes) : List Bytes :=
  (signatures.filter fun s ↦ 1 ≤ s.length ∧ s.length ≤ Instruction.maxDirect).map shortestPush

namespace Instruction

/-- The instruction from behind which signatures commit to a script. -/
def separator : Instruction :=
  .op (.signature .codeSeparator)

variable {is : List Instruction}

/-! ## Rows of instructions -/

/-- Some of the instructions of a well-formed row are well formed. -/
theorem WellFormed.filter (h : WellFormed is) (keep : Instruction → Bool) :
    WellFormed (is.filter keep) := by
  induction h with
  | nil => exact .nil
  | cons i rest hcomplete _ ih =>
      rw [List.filter_cons]
      split
      · exact .cons i _ hcomplete ih
      · exact ih
  | truncated bytes hpast =>
      rw [List.filter_singleton]
      cases keep (.truncated bytes) with
      | true => exact .truncated bytes hpast
      | false => exact .nil

/-- The last instructions of a well-formed row are well formed. -/
theorem WellFormed.of_append {front back : List Instruction} (h : WellFormed (front ++ back)) :
    WellFormed back := by
  induction front with
  | nil => exact h
  | cons i front ih =>
      rw [List.cons_append] at h
      generalize hrest : front ++ back = rest at h
      cases h with
      | cons _ _ _ h => exact ih (hrest ▸ h)
      | truncated bytes hpast =>
          obtain ⟨rfl, rfl⟩ := List.append_eq_nil_iff.mp hrest
          exact .nil

/-- Each instruction of a well-formed row is well formed by itself. -/
theorem WellFormed.singleton (h : WellFormed is) {i : Instruction} (hi : i ∈ is) :
    WellFormed [i] := by
  induction h with
  | nil => cases hi
  | cons j rest hcomplete _ ih =>
      cases hi with
      | head => exact .cons _ [] hcomplete .nil
      | tail _ hi => exact ih hi
  | truncated bytes hpast =>
      obtain rfl := List.mem_singleton.mp hi
      exact .truncated bytes hpast

/-- Different instructions are written differently. -/
theorem encode_inj {i j : Instruction} (hi : WellFormed [i]) (hj : WellFormed [j]) :
    i.encode = j.encode ↔ i = j := by
  refine ⟨fun h ↦ ?_, congrArg encode⟩
  have hparse := parse_flatMap_encode hi
  rw [List.flatMap_singleton, h, ← List.flatMap_singleton encode j,
    parse_flatMap_encode hj] at hparse
  exact (List.singleton_inj.mp hparse).symm

/-! ## Tokens of instructions -/

/-- Taking separators out of the tokens takes them out of the instructions. -/
theorem filter_flatMap_tokens (is : List Instruction) :
    (is.flatMap tokens).filter (· ≠ .op (.signature .codeSeparator)) =
      (is.filter (· ≠ separator)).flatMap tokens := by
  induction is with
  | nil => rfl
  | cons i is ih =>
      rw [List.flatMap_cons, List.filter_append, ih]
      cases i with
      | op o =>
          by_cases ho : o = .signature .codeSeparator
          · subst ho
            rfl
          · simp [tokens, separator, ho]
      | direct | sized | undefined | truncated => simp [tokens, separator, Token.push]

/-- A token that stands alone is taken out if it pushes a signature. -/
theorem dropSignatures_cons {signatures : List Bytes} {t : Token} (ht : t.isPushData = false)
    (rest : List Token) :
    Machine.dropSignatures signatures false (t :: rest) =
      (if Machine.pushesSignature signatures t then [] else [t]) ++
        Machine.dropSignatures signatures false rest := by
  rw [Machine.dropSignatures, ht, Bool.not_false, Bool.true_and]
  split <;> rfl

/-- Only literals push signatures. -/
theorem pushesSignature_eq_false {signatures : List Bytes} {t : Token}
    (ht : t.isLiteral = false) : Machine.pushesSignature signatures t = false := by
  have hne (s : Bytes) : t ≠ .push s := by
    rintro rfl
    cases ht
  simp [Machine.pushesSignature, hne]

/-- Taking the direct pushes of signatures out of the tokens of a complete instruction takes out all
of it if it is one of these pushes, and nothing otherwise. -/
theorem dropSignatures_tokens_append {i : Instruction} (h : i.Complete) (signatures : List Bytes)
    (rest : List Token) :
    Machine.dropSignatures signatures false (i.tokens ++ rest) =
      (if i ∈ signatures.map direct then [] else i.tokens) ++
        Machine.dropSignatures signatures false rest := by
  cases h with
  | direct data hpos hmax =>
      have hpush : Machine.pushesSignature signatures (.push data) =
          decide (direct data ∈ signatures.map direct) := by
        have hne : data ≠ [] := List.ne_nil_of_length_pos hpos
        rw [Bool.eq_iff_iff, decide_eq_true_eq, List.mem_map]
        constructor
        · intro hany
          obtain ⟨s, hs, hpush⟩ := List.any_eq_true.mp hany
          simp only [Bool.and_eq_true, decide_eq_true_eq, Token.push_inj] at hpush
          exact ⟨s, hs, congrArg direct hpush.2.symm⟩
        · rintro ⟨s, hs, hdirect⟩
          cases hdirect
          exact List.any_eq_true.mpr ⟨data, hs, by simp [hne]⟩
      rw [tokens, List.singleton_append, dropSignatures_cons rfl, hpush]
      simp only [decide_eq_true_eq]
  | sized f data hfits =>
      -- The literal behind the length field is no direct push, so it stays even if it is equal.
      have hfield : Machine.pushesSignature signatures (.op (.pushData f)) = false :=
        pushesSignature_eq_false rfl
      simp [tokens, Machine.dropSignatures, Token.isPushData, hfield, Token.push]
  | op o hfield =>
      have hdata : (Token.op o).isPushData = false :=
        Token.not_isPushData_of_encode (encode_token_op hfield)
      rw [tokens, List.singleton_append, dropSignatures_cons hdata,
        pushesSignature_eq_false rfl]
      simp
  | undefined code _ =>
      rw [tokens, List.singleton_append, dropSignatures_cons rfl,
        pushesSignature_eq_false rfl]
      simp

/-- Taking the direct pushes of signatures out of the tokens takes them out of the instructions. -/
theorem dropSignatures_flatMap_tokens (h : WellFormed is) (signatures : List Bytes) :
    Machine.dropSignatures signatures false (is.flatMap tokens) =
      (is.filter (· ∉ signatures.map direct)).flatMap tokens := by
  induction h with
  | nil => rfl
  | cons i rest hcomplete _ ih =>
      rw [List.flatMap_cons, dropSignatures_tokens_append hcomplete, ih]
      by_cases hi : i ∈ signatures.map direct
      · rw [if_pos hi, List.filter_cons_of_neg (by simpa using hi), List.nil_append]
      · rw [if_neg hi, List.filter_cons_of_pos (by simpa using hi), List.flatMap_cons]
  | truncated bytes hpast =>
      rw [List.flatMap_singleton, tokens, dropSignatures_cons rfl,
        pushesSignature_eq_false rfl]
      simp [Machine.dropSignatures, tokens]

/-! ## What is dropped -/

/-- An instruction is written as a separator only if it is one. -/
theorem encode_eq_separator {i : Instruction} (h : WellFormed [i]) :
    i.encode = [0xab] ↔ i = separator :=
  encode_inj h (.cons separator [] (.op _ nofun) .nil)

/-- An instruction is written as the direct push of a signature only if it is one. -/
theorem encode_mem_directPushes {i : Instruction} (h : WellFormed [i]) (signatures : List Bytes) :
    i.encode ∈ directPushes signatures ↔ i ∈ signatures.map direct := by
  rw [directPushes, List.mem_map, List.mem_map]
  constructor
  · rintro ⟨s, hs, hencode⟩
    obtain ⟨hmem, hsize⟩ := List.mem_filter.mp hs
    obtain ⟨hpos, hmax⟩ := of_decide_eq_true hsize
    have hdirect : WellFormed [direct s] := .cons _ [] (.direct s hpos hmax) .nil
    rw [shortestPush_direct hpos hmax] at hencode
    exact ⟨s, hmem, (encode_inj hdirect h).mp hencode⟩
  · rintro ⟨s, hs, rfl⟩
    cases h with
    | cons _ _ hcomplete _ =>
        cases hcomplete with
        | direct _ hpos hmax =>
            refine ⟨s, List.mem_filter.mpr ⟨hs, decide_eq_true ⟨hpos, hmax⟩⟩, ?_⟩
            exact shortestPush_direct hpos hmax

end Instruction

namespace Machine

open Instruction

variable {env : Environment}

/-- In segwit, signatures commit to a script without the separators that are still in it. -/
theorem assemble_committedTokens_segwit (hsegwit : env.segwit = true) (signatures : List Bytes)
    (script : Bytes) :
    assemble (committedTokens env signatures (disassemble script)) =
      .ok (withoutWritten [[0xab]] script) := by
  obtain ⟨hwell, -⟩ := parse_wellFormed script
  have hfilter : (parse script).filter (· ≠ separator) =
      (parse script).filter fun i ↦ i.encode ∉ [[0xab]] := by
    refine List.filter_congr fun i hi ↦ ?_
    simp only [List.mem_singleton, encode_eq_separator (hwell.singleton hi), ne_eq]
  rw [committedTokens, hsegwit, if_pos rfl, disassemble, filter_flatMap_tokens,
    assemble_flatMap_tokens (hwell.filter _), hfilter, withoutWritten]

/-- Outside segwit, signatures commit to a script without the separators that are still in it and
without direct pushes of the signatures. -/
theorem assemble_committedTokens_legacy (hsegwit : env.segwit = false) (signatures : List Bytes)
    (script : Bytes) :
    assemble (committedTokens env signatures (disassemble script)) =
      .ok (withoutWritten ([0xab] :: directPushes signatures) script) := by
  obtain ⟨hwell, -⟩ := parse_wellFormed script
  have hfilter : ((parse script).filter (· ≠ separator)).filter (· ∉ signatures.map direct) =
      (parse script).filter fun i ↦ i.encode ∉ [0xab] :: directPushes signatures := by
    rw [List.filter_filter]
    refine List.filter_congr fun i hi ↦ ?_
    have hsingle := hwell.singleton hi
    simp only [List.mem_cons, encode_eq_separator hsingle, encode_mem_directPushes hsingle, not_or,
      ne_eq, Bool.decide_and, Bool.and_comm]
  rw [committedTokens, hsegwit, if_neg Bool.false_ne_true, disassemble, filter_flatMap_tokens,
    dropSignatures_flatMap_tokens (hwell.filter _), hfilter,
    assemble_flatMap_tokens (hwell.filter _), withoutWritten]

end Machine

end BitcoinSpend.Script
