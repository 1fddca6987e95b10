import BitcoinSpend.Proofs.Script.Canonical
import BitcoinSpend.Proofs.Script.Machine.Unwritable

/-!
# Running disassembled scripts

Whatever bytes two scripts consist of, their disassembled texts run to a verdict, if every signature
has a message and the initial items have room. Every text is a token that steps know, a push with a
length field has its literal behind it, what signatures commit to can be assembled, the curve never
divides by zero, and no item is looked for below the bottom of a stack. The first four are facts
about executable tokens, from `run_quiet`; the last one comes from the limits on the stacks. The
main result is `validatePair_textsOf`.
-/

namespace BitcoinSpend.Script.Machine

variable {env : Environment} {messages : Messages}

/-- The run of two disassembled scripts halts only as it may be expected to: it fails the scripts, or
lacks the text of an integer. -/
theorem halt_of_run_disassemble (hanswers : ∀ size, Answers env size)
    (hroom : (env.initial.length : Int) ≤ env.policy.maxStack) (unlocking locking : Bytes)
    {halt : Halt} {n : Machine}
    (h : run env (disassemble unlocking).length (disassemble unlocking ++ disassemble locking)
      (pairStart env (disassemble locking)) = .error halt n) :
    ¬halt.Unexpected ∧ ((∃ reason, halt = .failed reason) ∨ halt = .raised (.verify .unwritable)) := by
  have htokens := (executable_disassemble unlocking).append (executable_disassemble locking)
  have hlocking : Executable locking.length
      ((disassemble unlocking ++ disassemble locking).drop (disassemble unlocking).length) := by
    rw [List.drop_left]
    exact executable_disassemble locking
  have hsettled := run_quiet (hanswers locking.length) _ htokens hlocking
    (pairStart env (disassemble locking)) (executable_disassemble locking)
  rw [h] at hsettled
  refine ⟨expected_of_resume false (within_pairStart hroom _) h, ?_⟩
  cases hsettled with
  | failed reason => exact .inl ⟨reason, rfl⟩
  | unwritable => exact .inr rfl

/-- The texts of any two byte strings run to a verdict, if the callback gives every message and the
initial items have room, unless verification has to write an integer that has no text. Their run
halts by failing the scripts or in that way, and never with an error of a stack that no opcode
causes. If none of the initial items is overlong, every integer that is written has a text. -/
theorem validatePair_textsOf (hmessages : env.messages? = some messages)
    (htotal : ∀ code hashType, ∃ digest, messages code hashType = .ok digest)
    (hroom : (env.initial.length : Int) ≤ env.policy.maxStack) (unlocking locking : Bytes)
    (m : Machine) :
    ((∃ (verdict : Bool) (n : Machine),
        validatePair env ((textsOf unlocking).map Token.ofText)
          ((textsOf locking).map Token.ofText) m = .ok verdict n) ∨
      ∃ n : Machine, validatePair env ((textsOf unlocking).map Token.ofText)
        ((textsOf locking).map Token.ofText) m = .error (.verify .unwritable) n) ∧
    (∀ (halt : Halt) (n : Machine),
      run env (textsOf unlocking).length
          ((textsOf unlocking).map Token.ofText ++ (textsOf locking).map Token.ofText)
          (pairStart env ((textsOf locking).map Token.ofText)) = .error halt n →
        ¬halt.Unexpected ∧
          ((∃ reason, halt = .failed reason) ∨ halt = .raised (.verify .unwritable))) ∧
    (Addressable env.initial
        ((textsOf unlocking).map Token.ofText ++ (textsOf locking).map Token.ofText) →
      (∀ item ∈ env.initial, ¬Signature.OverlongItem item) →
        ∃ (verdict : Bool) (n : Machine),
          validatePair env ((textsOf unlocking).map Token.ofText)
            ((textsOf locking).map Token.ofText) m = .ok verdict n) := by
  have hanswers := Answers.of_total hmessages htotal
  have hlength : (textsOf unlocking).length = (disassemble unlocking).length := List.length_map _
  rw [map_ofText_textsOf, map_ofText_textsOf, hlength]
  have hcases := validatePair_cases (hanswers _) hroom (executable_disassemble unlocking)
    (executable_disassemble locking) m
  refine ⟨hcases, fun halt n h ↦ halt_of_run_disassemble hanswers hroom unlocking locking h, ?_⟩
  intro haddressable hshort
  refine hcases.resolve_right ?_
  rintro ⟨n, h⟩
  obtain ⟨item, hmem, hlong⟩ := exists_overlongItem_of_validatePair haddressable hroom h
  exact hshort item hmem hlong

/-- A check of a signature, and behind it a reserved opcode, an undefined one and a push without its
data. -/
theorem validatePair_textsOf_undefined :
    (signedZero.initial.length : Int) ≤ signedZero.policy.maxStack ∧
    ∃ (verdict : Bool) (n : Machine),
      validatePair signedZero ((textsOf [0x61]).map Token.ofText)
        ((textsOf [0xac, 0x50, 0xff, 0x4d, 0x00]).map Token.ofText) {} = .ok verdict n := by
  have hroom : (signedZero.initial.length : Int) ≤ signedZero.policy.maxStack := by decide
  have htotal (code : Bytes) (hashType : UInt8) :
      ∃ digest, (fun _ _ ↦ .ok (List.replicate 32 0) : Messages) code hashType = .ok digest :=
    ⟨_, rfl⟩
  have hsizes : ∀ item ∈ signedZero.initial, item.length ≤ 73 := by decide +kernel
  have hshort : ∀ item ∈ signedZero.initial, ¬Signature.OverlongItem item := fun item hitem ↦
    Signature.not_overlongItem_of_length_le (Nat.le_trans (hsizes item hitem) (by decide))
  have haddressable : Addressable signedZero.initial ((textsOf [0x61]).map Token.ofText ++
      (textsOf [0xac, 0x50, 0xff, 0x4d, 0x00]).map Token.ofText) := by
    refine ⟨fun item hitem ↦ Nat.lt_of_le_of_lt (hsizes item hitem) (by decide), by decide, ?_⟩
    have hunlocking := length_disassemble_le [0x61]
    have hlocking := length_disassemble_le [0xac, 0x50, 0xff, 0x4d, 0x00]
    simp only [map_ofText_textsOf, List.length_append, List.length_cons, List.length_nil]
      at hunlocking hlocking ⊢
    omega
  exact ⟨hroom, (validatePair_textsOf rfl htotal hroom _ _ {}).2.2 haddressable hshort⟩

/-- An environment in which every message is zero, with an overlong signature and the generator as
initial items. -/
def signedLong : Environment :=
  { zeroEnvironment with initial := [Signature.longEncoded ++ [0x01], generatorKey.uncompressed] }

/-- The check of the overlong signature has no verdict, although every signature has a message. -/
theorem not_verdict_of_textsOf :
    (signedLong.initial.length : Int) ≤ signedLong.policy.maxStack ∧
      signedLong.messages? = some (fun _ _ ↦ .ok (List.replicate 32 0)) ∧
      ∃ n, validatePair signedLong ((textsOf []).map Token.ofText)
        ((textsOf [0xac]).map Token.ofText) {} = .error (.verify .unwritable) n := by
  refine ⟨by decide, rfl, ?_⟩
  rw [map_ofText_textsOf, map_ofText_textsOf, disassemble_eq_nil_iff.mpr rfl]
  exact validatePair_checkSig_overlong (.of_total rfl (fun _ _ ↦ ⟨_, rfl⟩) 1) rfl (by decide)
    Signature.overlongItem_longEncoded decode_generatorKey {}

end BitcoinSpend.Script.Machine
